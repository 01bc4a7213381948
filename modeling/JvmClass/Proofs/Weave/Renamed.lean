import JvmClass.Proofs.Weave.Hinted

namespace JvmClass

/-!
# Types along a body and along its expansion

In front of an instruction of a body and of its block in an expansion stand the same
types.  Only objects that have no class yet are told apart by other offsets, those
that the instructions which create them have got.
-/

open FrameState

/-- An instruction that was checked calls the constructor that it called before the pool grew. -/
theorem Insn.constructs_of_extends
    {pool grown : Pool}
    {insn : Insn}
    {effect : StackEffect}
    {count : Nat}
    (kept : Entry.Extends pool.entries grown.entries)
    (moves : insn.effect pool = .ok effect)
    (constructs : Constructs grown insn count) :
    Constructs pool insn count := by
  cases constructs with
  | method hasReceiver found isConstructor typed =>
      obtain ⟨member, looked, _⟩ := bind_eq_ok_iff.mp moves
      have looked := mapError_eq_ok_iff.mp looked
      cases found.symm.trans (kept.memberAt looked)
      exact .method hasReceiver looked isConstructor typed
  | interfaceMethod found isConstructor typed =>
      obtain ⟨member, looked, _⟩ := bind_eq_ok_iff.mp moves
      have looked := mapError_eq_ok_iff.mp looked
      cases found.symm.trans (kept.memberAt looked)
      exact .interfaceMethod looked isConstructor typed

/-- Control goes on behind a call. -/
theorem Insn.endsFlow_of_constructs
    {pool : Pool}
    {insn : Insn}
    {count : Nat}
    (wellFormed : insn.WellFormed)
    (constructs : Constructs pool insn count) :
    insn.opcode.endsFlow = false := by
  have calls (code : Opcode) :
      code.layout? = some .methodRef ∨ code.layout? = some .interfaceMethodRef →
        code.endsFlow = false := by
    obtain ⟨⟨code⟩⟩ := code
    revert code
    decide +kernel
  cases constructs with
  | method => exact calls _ (.inl wellFormed)
  | interfaceMethod => exact calls _ (.inr wellFormed)

namespace Body

/--
The types in front of each instruction of a body as its frames declare them: on entry,
in a frame, and otherwise those that the instruction before leaves.
-/
def declaredTypes
    (pool : Pool)
    (method : MethodContext)
    (code : CodeAttribute Attribute)
    (position : Nat) : Option FrameState := do
  let decoded ← (Decoded.ofCode code.code).toOption
  let tables ← (Tables.ofAttributes decoded code.attributes).toOption
  let initial ← (FrameState.initial method).toOption
  let frames := tables.frames.map fun (offset, frame) => (UInt16.ofNat offset, frame)
  let declared ← (FrameState.declaredStates method frames code.maxLocals pool).toOption
  let entry : FrameState := ⟨SlotType.padTo code.maxLocals.toNat initial.locals, []⟩
  let given (position : Nat) : Option FrameState :=
    match declaredAt declared decoded.insns position with
    | some state => some state
    | none => if position = 0 then some entry else none
  typing ⟨method, pool, true⟩ decoded.insns given position

/-- The types along a body are known only if its frames can be expanded. -/
theorem exists_typing_of_declaredTypes
    {pool : Pool}
    {method : MethodContext}
    {code : CodeAttribute Attribute}
    {decoded : Decoded}
    {tables : Tables}
    {position : Nat}
    {state : FrameState}
    (decodedCode : Decoded.ofCode code.code = .ok decoded)
    (tablesRead : Tables.ofAttributes decoded code.attributes = .ok tables)
    (found : declaredTypes pool method code position = some state) :
    ∃ initial declared,
      FrameState.initial method = .ok initial ∧
        FrameState.declaredStates method
            (tables.frames.map fun (offset, frame) => (UInt16.ofNat offset, frame)) code.maxLocals
            pool = .ok declared ∧
          typing ⟨method, pool, true⟩ decoded.insns
            (fun position =>
              match declaredAt declared decoded.insns position with
              | some state => some state
              | none =>
                  if position = 0 then
                    some ⟨SlotType.padTo code.maxLocals.toNat initial.locals, []⟩
                  else none) position = some state := by
  simp only [declaredTypes, decodedCode, tablesRead, Except.toOption, Option.bind_eq_bind,
    Option.bind_some] at found
  obtain ⟨initial, initialFound, found⟩ := Option.bind_eq_some_iff.mp found
  obtain ⟨declared, declaredFound, found⟩ := Option.bind_eq_some_iff.mp found
  exact ⟨initial, declared, toOption_eq_some_iff.mp initialFound,
    toOption_eq_some_iff.mp declaredFound, found⟩

/--
Wherever a path through a body calls a constructor, it does so on an object that has no
class yet, by the types that the frames of the body declare.
-/
def ConstructsNew
    (pool : Pool)
    (method : MethodContext)
    (code : CodeAttribute Attribute) : Prop :=
  ∀ type insns position located count,
    MethodType.ofDescriptor method.descriptor = .ok type →
      Insn.decode code.code = .ok insns →
        Verify.Visited pool (Access.isStatic method.access) type code insns position →
          insns[position]? = some located →
            Insn.Constructs pool located.2 count →
              ∃ state receiver,
                declaredTypes pool method code position = some state ∧
                  state.stack[count]? = some receiver ∧ receiver.isUninitialized = true

/-- Whether each constructor call of a body, on a path or not, is on an object without a class. -/
def constructsNew
    (pool : Pool)
    (method : MethodContext)
    (code : CodeAttribute Attribute) : Bool :=
  match Insn.decode code.code with
  | .error _ => true
  | .ok insns =>
      insns.zipIdx.all fun (located, position) =>
        match located.2.constructs? pool with
        | none => true
        | some count =>
            (declaredTypes pool method code position).any fun state =>
              state.stack[count]?.any SlotType.isUninitialized

theorem constructsNew_of_eq_true
    {pool : Pool}
    {method : MethodContext}
    {code : CodeAttribute Attribute}
    (holds : constructsNew pool method code = true) :
    ConstructsNew pool method code := by
  intro _ insns position located count _ decoded _ placed constructs
  rw [constructsNew, decoded] at holds
  have each := List.all_eq_true.mp holds (located, position)
    (List.mem_zipIdx_iff_getElem?.mpr placed)
  simp only [Insn.constructs?_of_constructs constructs, Option.any_eq_true] at each
  obtain ⟨state, typed, receiver, called, uninitialized⟩ := each
  exact ⟨state, receiver, typed, called, uninitialized⟩

end Body

namespace Expansion

/-- Objects without a class are told apart by where the instructions that create them have moved. -/
inductive Renamed
    (expansion : Expansion)
    (insns written : List (Nat × Insn)) : SlotType → SlotType → Prop
  | plain
      {type : SlotType}
      (isPlain : type.isPlain = true) :
      Renamed expansion insns written type type
  | uninitialized
      {index offset moved : Nat}
      {insn movedInsn : Insn}
      {item : Origin × Insn}
      (placed : insns[index]? = some (offset, insn))
      (listed : expansion.items[index]? = some item)
      (placedAgain :
        written[expansion.start index + (expansion.ahead item).length]? = some (moved, movedInsn)) :
      Renamed expansion insns written (.uninitialized (UInt16.ofNat offset))
        (.uninitialized (UInt16.ofNat moved))

namespace Lies

variable
  {expansion : Expansion} {resolves : Insn → Insn → Prop} {pool : Pool} {isStatic : Bool}
  {type : MethodType} {code : CodeAttribute Attribute} {body : Body} {decoded : Body.Decoded}
  {tables : Body.Tables} {place : Label → Nat} {written : List (Nat × Insn)} {size : Nat}
  (lies : expansion.Lies resolves pool isStatic type code body decoded tables place written size)
include lies

theorem renames_renamed :
    SlotType.Renames (Renamed expansion decoded.insns written) where
  plain type plain := .plain plain
  known left right renamed := by
    cases renamed with
    | plain plain => exact ⟨(SlotType.isFixed_of_isPlain plain).2, (SlotType.isFixed_of_isPlain plain).2⟩
    | uninitialized => exact ⟨nofun, nofun⟩
  left first second right goes other := by
    cases goes with
    | plain plain =>
        cases other with
        | plain => rfl
        | uninitialized => cases plain
    | uninitialized placed listed moved =>
        generalize shape : SlotType.uninitialized _ = target at other
        cases other with
        | plain plain =>
            subst shape
            cases plain
        | uninitialized otherPlaced otherListed otherMoved =>
            have numbers := SlotType.uninitialized.inj shape
            have here := lies.layout.positions_eq moved
            rw [numbers] at here
            have there := lies.layout.positions_eq otherMoved
            obtain rfl :=
              index_eq listed (Nat.le_refl _) otherListed (Nat.le_refl _)
                (Option.some.inj (here.symm.trans there))
            cases placed.symm.trans otherPlaced
            rfl
  right left first second goes other := by
    cases goes with
    | plain plain =>
        cases other with
        | plain => rfl
        | uninitialized => cases plain
    | uninitialized placed listed moved =>
        generalize shape : SlotType.uninitialized _ = source at other
        cases other with
        | plain plain =>
            subst shape
            cases plain
        | uninitialized otherPlaced otherListed otherMoved =>
            have numbers := SlotType.uninitialized.inj shape
            have here := lies.rawLayout.positions_eq placed
            rw [numbers] at here
            have there := lies.rawLayout.positions_eq otherPlaced
            obtain rfl := Option.some.inj (here.symm.trans there)
            cases listed.symm.trans otherListed
            cases moved.symm.trans otherMoved
            rfl

/-- The frames of a body declare in front of a block what they declared for its instruction. -/
theorem declaredAt_start_eq
    {labels : PlacedLabels}
    {method wovenMethod : MethodContext}
    {grown : Pool}
    {declared rawDeclared : Std.TreeMap UInt16 FrameState}
    {index : Nat}
    (samePlace : labels.place = place)
    (sameInitial : FrameState.initial wovenMethod = FrameState.initial method)
    (kept : Entry.Extends pool.entries grown.entries)
    (found :
      Body.hintedStates labels wovenMethod ⟨body.maxLocals, body.frames⟩ grown = .ok declared)
    (rawFound :
      FrameState.declaredStates method
        (tables.frames.map fun (offset, frame) => (UInt16.ofNat offset, frame)) code.maxLocals
        pool = .ok rawDeclared)
    (inside : index < decoded.insns.length) :
    declaredAt declared written (expansion.start index) =
      declaredAt rawDeclared decoded.insns index := by
  subst samePlace
  obtain ⟨rows, initial, paired, initialFound, expanded⟩ := Body.exists_rows_of_hintedStates found
  obtain ⟨rawInitial, rawInitialFound, rawExpanded⟩ := bind_eq_ok_iff.mp rawFound
  rw [sameInitial, mapError_eq_ok_iff.mp rawInitialFound] at initialFound
  cases initialFound
  let moves (first second : UInt16) : Prop :=
    ∃ index offset moved item movedItem,
      decoded.insns[index]? = some (offset, item) ∧
        written[expansion.start index]? = some (moved, movedItem) ∧
        UInt16.ofNat offset = first ∧ UInt16.ofNat moved = second
  have apart {first second third fourth : UInt16} (goes : moves first second)
      (other : moves third fourth) : first = third ↔ second = fourth := by
    obtain ⟨index, offset, moved, item, movedItem, placed, placedAgain, rfl, rfl⟩ := goes
    obtain ⟨_, _, _, _, _, otherPlaced, otherPlacedAgain, rfl, rfl⟩ := other
    have here := lies.rawLayout.positions_eq placed
    have there := lies.rawLayout.positions_eq otherPlaced
    have hereAgain := lies.layout.positions_eq placedAgain
    have thereAgain := lies.layout.positions_eq otherPlacedAgain
    constructor
    · intro same
      rw [same] at here
      cases here.symm.trans there
      cases placedAgain.symm.trans otherPlacedAgain
      rfl
    · intro same
      rw [same] at hereAgain
      have sameStart := Option.some.inj (hereAgain.symm.trans thereAgain)
      obtain ⟨item, listed⟩ := lies.exists_item_of_lt (List.getElem?_eq_some_iff.mp placed).1
      obtain ⟨other, otherListed⟩ :=
        lies.exists_item_of_lt (List.getElem?_eq_some_iff.mp otherPlaced).1
      obtain rfl :=
        index_eq listed (Nat.zero_le _) otherListed (Nat.zero_le _)
          (show expansion.start _ + 0 = expansion.start _ + 0 from sameStart)
      cases placed.symm.trans otherPlaced
      rfl
  have movedRows :
      List.Forall₂ (fun row other => moves row.1 other.1 ∧ other.2 = row.2)
        (tables.frames.map fun (offset, frame) => (UInt16.ofNat offset, frame)) rows := by
    rw [List.forall₂_map_left_iff]
    simp only [lies.frames_eq, List.forall₂_map_left_iff] at paired
    have among (row : Nat × StackMap.Frame) (member : row ∈ tables.frames) :=
      lies.exists_stands_of_row member
    clear rawFound rawExpanded found expanded
    generalize tables.frames = frames at paired among
    induction paired with
    | nil => exact .nil
    | cons first _ inductionHypothesis =>
        rw [List.forall_mem_cons] at among
        refine .cons ⟨?_, first.2⟩ (inductionHypothesis among.2)
        obtain ⟨index, insn, stands, placed⟩ := among.1
        obtain ⟨item, start⟩ :=
          lies.exists_written_start stands (List.getElem?_eq_some_iff.mp placed).1
        exact ⟨index, _, _, insn, item, placed, start, rfl, first.1⟩
  obtain ⟨offset, insn, placed⟩ : ∃ offset insn, decoded.insns[index]? = some (offset, insn) :=
    ⟨_, _, List.getElem?_eq_getElem inside⟩
  obtain ⟨item, listed⟩ := lies.exists_item_of_lt inside
  obtain ⟨_, spot⟩ := @exists_spot_start _ (fun _ => True) _ _ trivial listed
  obtain ⟨moved, resolved, placedAgain, _⟩ := lies.exists_item spot
  rw [declaredAt_of_placed placed, declaredAt_of_placed placedAgain]
  have bounds : body.maxLocals = code.maxLocals := congrArg Body.maxLocals lies.decodes.shape
  rw [bounds] at expanded
  exact
    getElem?_eq_of_expandFrames kept apart movedRows (fun _ => by simp) rawExpanded expanded
      ⟨index, offset, moved, insn, _, placed, placedAgain, rfl, rfl⟩

end Lies

end Expansion

/-! ## Along a body -/

namespace Course

variable
  {course : Course} {resolves : Insn → Insn → Prop} {body : Body} {tables : Body.Tables}
  {place : Label → Nat} {size : Nat} {method : MethodContext} {entry : FrameState}
  {declared : Std.TreeMap UInt16 FrameState}

/-- The types that the frames of the body of a course give its instructions. -/
def bodyTypes
    (course : Course)
    (method : MethodContext)
    (declared : Std.TreeMap UInt16 FrameState)
    (entry : FrameState) : Nat → Option FrameState :=
  typing ⟨method, course.pool, true⟩ course.decoded.insns fun position =>
    match declaredAt declared course.decoded.insns position with
    | some state => some state
    | none => if position = 0 then some entry else none

/-- Types that are taken over as they are stand for themselves. -/
theorem alike_of_fixes
    {state : FrameState}
    (fixes : Fixes course.code.maxLocals.toNat state) :
    Alike (course.expansion.Renamed course.decoded.insns course.written)
      course.code.maxLocals.toNat state state := by
  have plain (type : SlotType) (fixed : type.isFixed = true ∧ type ≠ .unmerged) :
      course.expansion.Renamed course.decoded.insns course.written type type := by
    refine .plain ?_
    cases type with
    | uninitialized => cases fixed.1
    | unmerged => exact absurd rfl fixed.2
    | _ => rfl
  have room : course.code.maxLocals.toNat ≤ state.locals.length := Nat.le_of_eq fixes.length.symm
  refine ⟨List.forall₂_same.mpr fun type member => plain type (fixes.stack type member),
    ⟨room, room⟩, fun place below => ?_⟩
  have inside : place < state.locals.length := Nat.lt_of_lt_of_le below room
  rw [List.getD_eq_getElem?_getD, List.getElem?_eq_getElem inside, Option.getD_some]
  exact plain _ (fixes.locals _ (List.getElem_mem inside))

/-- What a course makes of the start of its body, and where its snippets stand. -/
structure Follows
    (course : Course)
    (method : MethodContext)
    (declared : Std.TreeMap UInt16 FrameState)
    (entry : FrameState) : Prop where
  kept : Entry.Extends course.pool.entries course.context.pool.entries
  sameClass : course.context.method.className = method.className
  /-- Something is inserted only in front of what leaves the body. -/
  calm :
    ∀ (index : Nat) (item : Origin × Insn),
      course.expansion.items[index]? = some item →
        item.2.opcode.endsFlow = false → course.expansion.ahead item = []
  fixes :
    ∀ (offset : UInt16) (state : FrameState),
      declared[offset]? = some state → Fixes course.code.maxLocals.toNat state
  sameDeclared :
    ∀ index < course.length,
      declaredAt course.rules.declared course.written (course.expansion.start index) =
        declaredAt declared course.decoded.insns index
  undeclared :
    ∀ (index offset : Nat) (insn : Insn),
      course.decoded.insns[index]? = some (offset, insn) →
        declaredAt declared course.decoded.insns index = none →
          UInt16.ofNat offset ∉ Verify.declaredOffsets course.code
  entered :
    ∀ state,
      course.types (course.expansion.start 0) = some state →
        declaredAt course.rules.declared course.written (course.expansion.start 0) = none →
          Alike (course.expansion.Renamed course.decoded.insns course.written)
            course.code.maxLocals.toNat entry state

/-- Where types are declared they are declared in front of the block as well. -/
theorem alike_of_declared
    {index : Nat}
    {state expected held : FrameState}
    (follows : course.Follows method declared entry)
    (inside : index < course.length)
    (found : declaredAt declared course.decoded.insns index = some held)
    (typed : course.bodyTypes method declared entry index = some state)
    (typedAgain : course.types (course.expansion.start index) = some expected) :
    Alike (course.expansion.Renamed course.decoded.insns course.written)
      course.code.maxLocals.toNat state expected := by
  have same := (follows.sameDeclared index inside).trans found
  have given : course.types (course.expansion.start index) = some held :=
    typing_of_given (by simp only [Course.given, same])
  have rawGiven : course.bodyTypes method declared entry index = some held :=
    typing_of_given (by simp only [found])
  obtain rfl := Option.some.inj (given.symm.trans typedAgain)
  obtain rfl := Option.some.inj (rawGiven.symm.trans typed)
  obtain ⟨_, _, _, here⟩ := declaredAt_eq_some_iff.mp found
  exact alike_of_fixes (follows.fixes _ _ here)

/-- In front of a block stand the types that stand in front of its instruction. -/
theorem alike_of_types
    {index : Nat}
    {state expected : FrameState}
    (lies :
      course.expansion.Lies resolves course.pool course.isStatic course.type course.code body
        course.decoded tables place course.written size)
    (follows : course.Follows method declared entry)
    (visited :
      Verify.Visited course.pool course.isStatic course.type course.code course.decoded.insns index)
    (typed : course.bodyTypes method declared entry index = some state)
    (typedAgain : course.types (course.expansion.start index) = some expected) :
    Alike (course.expansion.Renamed course.decoded.insns course.written)
      course.code.maxLocals.toNat state expected := by
  induction index generalizing state expected with
  | zero =>
      obtain ⟨_, _, _, placed⟩ := id visited
      have inside : 0 < course.length := (List.getElem?_eq_some_iff.mp placed).1
      have same := follows.sameDeclared 0 inside
      cases found : declaredAt declared course.decoded.insns 0 with
      | some held => exact alike_of_declared follows inside found typed typedAgain
      | none =>
          simp only [bodyTypes, typing] at typed
          rw [found] at typed same
          simp only [if_pos] at typed
          cases typed
          exact follows.entered expected typedAgain same
  | succ index inductionHypothesis =>
      obtain ⟨point, insn, _, placed⟩ := id visited
      have inside : index + 1 < course.length := (List.getElem?_eq_some_iff.mp placed).1
      have same := follows.sameDeclared (index + 1) inside
      cases found : declaredAt declared course.decoded.insns (index + 1) with
      | some held => exact alike_of_declared follows inside found typed typedAgain
      | none =>
          rw [found] at same
          -- Control comes from the instruction before only, both in the body and in the expansion.
          obtain ⟨visitedBefore, ⟨offset, item⟩, placedBefore, continues⟩ :=
            lies.checked.visited_before_of_undeclared visited placed
              (follows.undeclared (index + 1) _ _ placed found)
          obtain ⟨before, _, _, typedBefore, placedHere, _, stepped⟩ :=
            exists_step_of_typing (by simp only [found, if_neg (Nat.succ_ne_zero index)]) typed
          cases placedBefore.symm.trans placedHere
          obtain ⟨insn, listed, rfl, indexed, _⟩ := lies.exists_original placedBefore
          have continuesHere : insn.opcode.endsFlow = false := by
            rw [← continues]
            cases insn <;> rfl
          have nothing := follows.calm index _ listed continuesHere
          have succ := Expansion.start_succ listed
          rw [nothing, List.length_nil, Nat.add_zero] at succ
          have spot : course.expansion.Spot (fun _ => True) _ insn := .kept trivial listed
          obtain ⟨moved, resolved, placedAgain, related, _⟩ := lies.exists_item spot
          obtain rfl := (lies.numbers _ resolved related).eq_of_indexed indexed
          have behind : course.expansion.start index + 1 ≠ course.expansion.start course.length := by
            rw [← succ]
            exact Nat.ne_of_lt (Expansion.start_lt inside lies.length_le_items)
          rw [succ] at typedAgain same
          obtain ⟨otherBefore, otherOffset, _, otherTyped, otherPlaced, _, otherStepped⟩ :=
            exists_step_of_typing
              (by simp only [Course.given, same, if_neg (Nat.succ_ne_zero _), if_neg behind])
              typedAgain
          have movedHere := placedAgain
          rw [nothing, List.length_nil, Nat.add_zero] at movedHere
          cases movedHere.symm.trans otherPlaced
          have alike := inductionHypothesis visitedBefore typedBefore otherTyped
          rw [Insn.step_mapTargets] at stepped otherStepped
          obtain ⟨result, found, alikeBehind⟩ :=
            @Insn.follows_step _ _ _ _ ⟨method, course.pool, true⟩ course.context _ _ _
              lies.renames_renamed follows.kept follows.sameClass (.uninitialized placedBefore listed placedAgain)
              (fun access accessed _ => by
                have room := lies.checked.access_le visitedBefore placedBefore
                  (show (resolved.mapTargets _).access? = some access by
                    rw [Insn.access?_mapTargets, accessed])
                have := Insn.width_pos_of_access? accessed
                omega)
              alike state stepped
          cases found.symm.trans otherStepped
          exact alikeBehind

/-- A constructor that the expansion calls in a block is one that the body calls there. -/
theorem exists_constructs
    {index count : Nat}
    {item : Origin × Insn}
    (lies :
      course.expansion.Lies resolves course.pool course.isStatic course.type course.code body
        course.decoded tables place course.written size)
    (kept : Entry.Extends course.pool.entries course.context.pool.entries)
    (visited :
      Verify.Visited course.pool course.isStatic course.type course.code course.decoded.insns index)
    (listed : course.expansion.items[index]? = some item)
    (constructs : Insn.Constructs course.context.pool item.2 count) :
    item.2.opcode.endsFlow = false ∧
      ∃ located,
        course.decoded.insns[index]? = some located ∧ Insn.Constructs course.pool located.2 count := by
  obtain ⟨point, raw, _, placed⟩ := id visited
  obtain ⟨insn, listedAgain, rfl, _⟩ := lies.exists_original placed
  cases listed.symm.trans listedAgain
  have spot : course.expansion.Spot (fun _ => True) _ insn := .kept trivial listed
  have wellFormed := lies.wellFormed insn
    (List.mem_of_getElem? (Expansion.getElem?_of_spot lies.regular spot))
  refine ⟨Insn.endsFlow_of_constructs wellFormed constructs, _, placed, ?_⟩
  obtain ⟨_, _, _, allows⟩ := lies.checked.exists_allows visited placed
  obtain ⟨effect, moves, _⟩ := allows.operands
  have movesHere : insn.effect course.pool = .ok effect := by
    rw [← moves]
    cases insn <;> rfl
  have before := Insn.constructs_of_extends kept movesHere constructs
  cases before with
  | method hasReceiver found isConstructor typed =>
      exact .method hasReceiver found isConstructor typed
  | interfaceMethod found isConstructor typed => exact .interfaceMethod found isConstructor typed

/-- A constructor is called on an object without a class in the expansion as it is in the body. -/
theorem exists_receiver_of_follows
    {index count : Nat}
    {item : Origin × Insn}
    {held state : FrameState}
    {receiver : SlotType}
    (lies :
      course.expansion.Lies resolves course.pool course.isStatic course.type course.code body
        course.decoded tables place course.written size)
    (follows : course.Follows method declared entry)
    (visited :
      Verify.Visited course.pool course.isStatic course.type course.code course.decoded.insns index)
    (listed : course.expansion.items[index]? = some item)
    (continues : item.2.opcode.endsFlow = false)
    (heldTyped : course.bodyTypes method declared entry index = some held)
    (called : held.stack[count]? = some receiver)
    (uninitialized : receiver.isUninitialized = true)
    (typed :
      course.types (course.expansion.start index + (course.expansion.ahead item).length) =
        some state) :
    ∃ receiver, state.stack[count]? = some receiver ∧ receiver.isUninitialized = true := by
  rw [follows.calm index _ listed continues, List.length_nil, Nat.add_zero] at typed
  have alike := alike_of_types lies follows visited heldTyped typed
  obtain ⟨inside, rfl⟩ := List.getElem?_eq_some_iff.mp called
  have otherInside : count < state.stack.length := alike.stack.length_eq ▸ inside
  refine ⟨_, List.getElem?_eq_getElem otherInside, ?_⟩
  have renamed := alike.stack.get inside otherInside
  simp only [List.get_eq_getElem] at renamed
  generalize held.stack[count] = receiver at renamed uninitialized
  generalize state.stack[count] = moved at renamed ⊢
  cases renamed with
  | plain plain => exact uninitialized
  | uninitialized => rfl

end Course

end JvmClass
