import JvmClass.Proofs.Weave.Advised
import JvmClass.Proofs.Weave.Slots

namespace JvmClass

/-!
# Analyses of bodies that keep the time

The value that is kept in a local variable has one type along the whole body.  Only a
constructor could change it, one that is called on an object which has a class
already.
-/

open FrameState

/-! ## States on entry -/

/-- On entry the last local variable holds no half of a value. -/
theorem FrameState.isWide_of_initial
    {method : MethodContext}
    {initial : FrameState}
    {place : Nat}
    (found : FrameState.initial method = .ok initial)
    (behind : initial.locals.length ≤ place + 1) :
    (initial.locals.getD place .top).isWide = false := by
  obtain ⟨type, _, found⟩ := bind_eq_ok_iff.mp found
  cases found
  have expanded (type : SlotType) (held : SlotType) (last : type.expand.getLast? = some held) :
      held.isWide = false := by
    unfold SlotType.expand at last
    split at last
    · cases last
      rfl
    · rename_i narrow
      cases last
      simpa using narrow
  have params (fields : List FieldType) (held : SlotType)
      (last :
        (fields.flatMap fun field => (SlotType.ofFieldType field).expand).getLast? = some held) :
      held.isWide = false := by
    induction fields using List.reverseRecOn with
    | nil => cases last
    | append_singleton fields field _ =>
        have nonempty : (SlotType.ofFieldType field).expand ≠ [] := by
          unfold SlotType.expand
          split <;> exact nofun
        rw [List.flatMap_append, List.flatMap_singleton,
          List.getLast?_append_of_ne_nil _ nonempty] at last
        exact expanded _ _ last
  rw [List.getD_eq_getElem?_getD]
  simp only at behind ⊢
  generalize receiver :
    (if Access.isStatic method.access = true then ([] : List SlotType)
      else if method.name = "<init>" then [.uninitializedThis]
      else [.object method.className]) = first at behind ⊢
  have ends (held : SlotType)
      (last :
        (first ++ type.params.flatMap fun field => (SlotType.ofFieldType field).expand).getLast? =
          some held) :
      held.isWide = false := by
    cases shape : type.params.flatMap fun field => (SlotType.ofFieldType field).expand with
    | nil =>
        rw [shape, List.append_nil, ← receiver] at last
        split at last
        · cases last
        · split at last <;> cases last <;> rfl
    | cons head rest =>
        have nonempty :
            (type.params.flatMap fun field => (SlotType.ofFieldType field).expand) ≠ [] := by
          rw [shape]
          exact nofun
        rw [List.getLast?_append_of_ne_nil _ nonempty] at last
        exact params _ _ last
  generalize first ++ type.params.flatMap (fun field => (SlotType.ofFieldType field).expand) =
    locals at behind ends ⊢
  cases held : locals[place]? with
  | none => rfl
  | some type =>
      refine ends type ?_
      have inside := (List.getElem?_eq_some_iff.mp held).1
      rw [List.getLast?_eq_getElem?, ← held]
      congr 1
      omega

/-! ## The value that is kept -/

/-- The time is stored behind the local variables of a body, and loaded only to subtract it. -/
structure Expansion.Keeping
    (expansion : Expansion)
    (maxLocals : UInt16)
    (field : Member)
    (clock : Clock)
    (slot : UInt16) : Prop where
  place : slot.toNat = maxLocals.toNat
  entry : expansion.entry = [Timer.readClock clock, .slot Opcode.lstore slot]
  ahead :
    ∀ item ∈ expansion.items,
      expansion.ahead item = [] ∨
        item.2.opcode.endsFlow = true ∧
          expansion.ahead item = Node.insns (Timer.addElapsed field clock slot).nodes

/-- A body that the time is woven into keeps it behind its local variables. -/
theorem Weaver.exists_keeping_of_weave
    {weaver : Weaver (Option UInt16)}
    {field : Member}
    {clock : Clock}
    {type : MethodType}
    {body : Body}
    (advised : weaver.advice = Timer.localScoped field clock)
    (explicit : weaver.detection = .explicit)
    (passed : (weaver.weave none body.events).failure = none)
    (typed : MethodType.ofDescriptor weaver.descriptor = .ok type)
    (arguments : type.argumentSize (Access.isStatic weaver.access) ≤ body.maxLocals.toNat) :
    ∃ slot,
      (weaver.expansion none body).Keeping body.maxLocals field clock slot ∧
        (weaver.enteredState none body).slots.next = body.maxLocals.toNat + 2 ∧
          body.maxLocals.toNat + 2 < 2 ^ 16 := by
  obtain ⟨_, first, typedAgain, allocator, above, small, entered⟩ :=
    exists_reserved_of_weave advised passed
  obtain rfl := Except.ok.inj (typed.symm.trans typedAgain)
  have counted := type.toNat_argumentSlots_le (Access.isStatic weaver.access)
  obtain rfl : first = body.maxLocals.toNat := by omega
  have place : (UInt16.ofNat body.maxLocals.toNat).toNat = body.maxLocals.toNat :=
    UInt16.toNat_ofNat_of_lt' (show _ < 2 ^ 16 by omega)
  have entry :
      weaver.entryInsns none body =
        [Timer.readClock clock, .slot Opcode.lstore (UInt16.ofNat body.maxLocals.toNat)] := by
    rw [entryInsns, weaver.slots_begun none allocator, entered]
    rfl
  have next : (weaver.enteredState none body).slots.next = body.maxLocals.toNat + 2 := by
    rw [(weaver.slots_enteredState none allocator).1, entered]
  have remembered :
      (weaver.enteredState none body).memory = some (UInt16.ofNat body.maxLocals.toNat) := by
    rw [(weaver.slots_enteredState none allocator).2, entered]
  refine ⟨UInt16.ofNat body.maxLocals.toNat, ⟨place, entry, fun item member => ?_⟩, next, small⟩
  -- Nothing stands around the body, so only what leaves it gets a snippet.
  have original : item.1 ≠ .guard := by
    rw [Expansion.items_eq (weaver.regular_expansion none body
      (advised ▸ Timer.straight_localScoped field clock))] at member
    simp only [expansion, closingNodes, explicit, Flow.insns, List.filterMap_nil,
      List.append_nil, List.mem_map] at member
    obtain ⟨insn, _, rfl⟩ := member
    rintro ⟨⟩
  have ahead :
      (weaver.expansion none body).ahead item =
        if item.2.opcode.isExit = true then
          Node.insns (Timer.addElapsed field clock (UInt16.ofNat body.maxLocals.toNat)).nodes
        else [] := by
    simp only [Expansion.ahead, expansion, inserted, explicit, ExitDetection.isExit, original,
      or_false, exitInsns, remembered, advised, Timer.localScoped]
  rw [ahead]
  split
  · rename_i isExit
    exact .inr ⟨Opcode.endsFlow_of_isExit isExit, rfl⟩
  · exact .inl rfl

namespace Assembly

/-- The type of the value that is kept, as reading the clock leaves it. -/
def keptType
    (assembly : Assembly)
    (written : List (Nat × Insn))
    (initial : FrameState) : SlotType :=
  (((assembly.course written initial none).types 1).bind (·.stack.head?)).getD .long

/-- The same method with the number of local variables that it had. -/
def source (assembly : Assembly) : MethodContext :=
  ⟨assembly.context.className, assembly.access, assembly.name, assembly.descriptor,
    assembly.code.maxLocals⟩

section Keeping

variable
  {assembly : Assembly} {field : Member} {clock : Clock} {slot : UInt16}
  {written : List (Nat × Insn)} {initial state : FrameState} {keeps : Option SlotType}
  (lies :
    assembly.expansion.Lies (LaidOut.Finds assembly.start assembly.grown) assembly.pool
      (Access.isStatic assembly.access) assembly.type assembly.code assembly.body assembly.decoded
      assembly.tables assembly.laidOut.labels.place written assembly.bytes.length)

theorem snippet_of_keeping
    {type : SlotType}
    {item : Origin × Insn}
    (keeping : assembly.expansion.Keeping assembly.code.maxLocals field clock slot)
    (member : item ∈ assembly.expansion.items) :
    (assembly.course written initial (some type)).Snippet (assembly.expansion.ahead item) := by
  refine ⟨fun place insn listed => ?_⟩
  rcases keeping.ahead item member with nothing | ⟨_, elapsed⟩
  · rw [nothing] at listed
    cases listed
  · have shape :
        Node.insns (Timer.addElapsed field clock slot).nodes =
          [Timer.readClock clock, .slot Opcode.lload slot, .plain Opcode.lsub,
            Timer.fieldInsn Opcode.getStatic field, .plain Opcode.ladd,
            Timer.fieldInsn Opcode.putStatic field] :=
      rfl
    rw [elapsed, shape] at listed ⊢
    match place with
    | 1 =>
        cases listed
        exact .inr ⟨slot, type, rfl, keeping.place, rfl, rfl⟩
    | 0 | 2 | 3 | 4 | 5 =>
        cases listed
        exact .inl rfl
    | _ + 6 => cases listed

/-- What is inserted at the start stores the value that is kept. -/
theorem enters_of_keeping
    (keeping : assembly.expansion.Keeping assembly.code.maxLocals field clock slot) :
    (assembly.course written initial (some (assembly.keptType written initial))).Enters where
  nonempty _ := by
    show assembly.expansion.entry ≠ []
    rw [keeping.entry]
    exact nofun
  each := by
    intro place insn listed
    have listed : assembly.expansion.entry[place]? = some insn := listed
    have length : assembly.expansion.entry.length = 2 := by rw [keeping.entry]; rfl
    rw [keeping.entry] at listed
    match place with
    | 0 =>
        cases listed
        exact .inl ⟨rfl, .inl (by show 0 + 1 < assembly.expansion.entry.length; omega)⟩
    | 1 =>
        cases listed
        refine .inr ⟨slot, _, rfl, keeping.place, length.symm, rfl, fun state typed value head => ?_⟩
        have typed : (assembly.course written initial none).types 1 = some state := typed
        rw [keptType, typed, Option.bind_some, show state.stack.head? = some value from head]
        rfl
    | _ + 2 => cases listed

variable
  (sound : assembly.Sound)
  (keeping : assembly.expansion.Keeping assembly.code.maxLocals field clock slot)
include sound keeping lies

/-- In front of the first block nothing is given but the state on entry. -/
theorem given_of_keeping :
    (assembly.course written initial keeps).given 0 =
        some (assembly.course written initial keeps).entry ∧
      (assembly.course written initial keeps).given 1 = none ∧
      (declaredAt assembly.declared written 2 = none →
        (assembly.course written initial keeps).given 2 = none) := by
  have entry : assembly.expansion.entry.length = 2 := by rw [keeping.entry]; rfl
  have undeclared (place : Nat) (front : place < 2) :
      declaredAt assembly.declared written place = none := by
    refine Option.eq_none_iff_forall_ne_some.mpr fun state found => ?_
    obtain ⟨_, index, _, same⟩ := lies.fixes_of_declaredAt sound.declares found
    have : assembly.expansion.entry.length ≤ assembly.expansion.start index := Expansion.le_start
    omega
  have last : 2 < assembly.expansion.start assembly.decoded.insns.length := by
    obtain ⟨_, _, _, placed⟩ := lies.checked.visited_zero
    have nonempty := (List.getElem?_eq_some_iff.mp placed).1
    have before := Expansion.start_lt nonempty lies.length_le_items
    rwa [Expansion.start_zero, entry] at before
  have behind (place : Nat) (positive : 0 < place) (short : place ≤ 2)
      (free : declaredAt assembly.declared written place = none) :
      (assembly.course written initial keeps).given place = none :=
    (assembly.course written initial keeps).given_eq_none free (Nat.ne_of_gt positive)
      (show place ≠ assembly.expansion.start assembly.decoded.insns.length by omega)
  exact
    ⟨(assembly.course written initial keeps).given_zero (undeclared 0 (by omega)),
      behind 1 (by omega) (by omega) (undeclared 1 (by omega)), behind 2 (by omega) (by omega)⟩

/-- Reading the clock leaves the state on entry with what the clock gives on the stack. -/
theorem exists_called
    (typed : (assembly.course written initial keeps).types 1 = some state) :
    ∃ type, state = ⟨(assembly.course written initial keeps).entry.locals, resultTypes type⟩ := by
  obtain ⟨atStart, free, _⟩ := @given_of_keeping _ _ _ _ _ initial keeps lies sound keeping
  obtain ⟨before, offset, insn, typedBefore, placed, _, stepped⟩ := exists_step_of_typing free typed
  obtain rfl := Option.some.inj ((typing_of_given atStart).symm.trans typedBefore)
  have listed : assembly.expansion.entry[0]? = some (Timer.readClock clock) := by
    rw [keeping.entry]
    rfl
  have spot : assembly.expansion.Spot (fun _ => True) 0 _ := .entry listed
  obtain ⟨_, resolved, placedAgain, related, _⟩ := lies.exists_item spot
  cases placed.symm.trans placedAgain
  have called (target : MemberRef)
      (stepped :
        (Insn.method Opcode.invokeStatic target).step (assembly.course written initial keeps).context
            (UInt16.ofNat offset) (assembly.course written initial keeps).entry = .ok state) :
      ∃ type, state = ⟨(assembly.course written initial keeps).entry.locals, resultTypes type⟩ := by
    obtain ⟨member, _, invoked⟩ := bind_eq_ok_iff.mp stepped
    obtain ⟨type, arguments, below, _, shape, _, ⟨_, rfl⟩ | ⟨impossible, _⟩⟩ :=
      called_of_invoke invoked
    · obtain ⟨_, rfl⟩ := List.append_eq_nil_iff.mp shape.symm
      exact ⟨type, by rw [List.append_nil]⟩
    · exact absurd impossible (by simp)
  rw [Timer.readClock] at related
  generalize target : MemberRef.named clock.owner clock.name Clock.descriptor = reference at related
  obtain ⟨numbered, _⟩ := related
  cases numbered with
  | indexed => exact called _ stepped
  | method => exact called _ stepped

/-- The value that is kept is known, and no object without a class. -/
theorem known_keptType :
    (assembly.keptType written initial).isUninitialized = false ∧
      assembly.keptType written initial ≠ .unmerged := by
  unfold keptType
  cases typed : (assembly.course written initial none).types 1 with
  | none => exact ⟨rfl, nofun⟩
  | some state =>
      obtain ⟨type, rfl⟩ := exists_called lies sound keeping typed
      rw [Option.bind_some, resultTypes]
      cases type.result with
      | none => exact ⟨rfl, nofun⟩
      | some result =>
          have plain := SlotType.isPlain_ofFieldType result
          refine ⟨?_, (SlotType.isFixed_of_isPlain plain).2⟩
          cases result <;> rfl

/-- The first block is entered with the state on entry, apart from the place behind it. -/
theorem alike_of_entered
    {related : SlotType → SlotType → Prop}
    (renames : SlotType.Renames related)
    (found : FrameState.initial assembly.method = .ok initial)
    (undeclared : declaredAt assembly.declared written (assembly.expansion.start 0) = none)
    (typed :
      (assembly.course written initial keeps).types (assembly.expansion.start 0) = some state) :
    Alike related assembly.code.maxLocals.toNat
      ⟨SlotType.padTo assembly.code.maxLocals.toNat initial.locals, []⟩ state := by
  have entry : assembly.expansion.start 0 = 2 := by
    rw [Expansion.start_zero, keeping.entry]
    rfl
  rw [entry] at undeclared typed
  obtain ⟨_, _, free⟩ := @given_of_keeping _ _ _ _ _ initial keeps lies sound keeping
  obtain ⟨before, offset, insn, typedBefore, placed, _, stepped⟩ :=
    exists_step_of_typing (free undeclared) typed
  obtain ⟨type, rfl⟩ := exists_called lies sound keeping typedBefore
  have listed : assembly.expansion.entry[1]? = some (.slot Opcode.lstore slot) := by
    rw [keeping.entry]
    rfl
  have spot : assembly.expansion.Spot (fun _ => True) 1 _ := .entry listed
  obtain ⟨_, resolved, placedAgain, resolves, _⟩ := lies.exists_item spot
  cases placed.symm.trans placedAgain
  obtain rfl := (lies.numbers _ resolved resolves).eq_of_indexed trivial
  have accessed :
      accessLocal (assembly.course written initial keeps).context (UInt16.ofNat offset)
          ⟨(assembly.course written initial keeps).entry.locals, resultTypes type⟩
          ⟨slot, 2, true⟩ = .ok state :=
    stepped
  simp only [accessLocal, if_true] at accessed
  obtain ⟨⟨value, rest⟩, popped, same⟩ := bind_eq_ok_iff.mp accessed
  cases same
  have shape : resultTypes type = value :: rest :=
    pop_eq_ok_iff.mp (mapError_eq_ok_iff.mp popped)
  have below : rest = [] := by
    unfold resultTypes at shape
    cases result : type.result with
    | none => simp [result] at shape
    | some value => simp_all
  have arguments : initial.locals.length ≤ assembly.code.maxLocals.toNat := by
    obtain ⟨type, typedAgain, length⟩ := FrameAnalysis.length_locals_initial found
    cases sound.typed.symm.trans typedAgain
    rw [length]
    exact (DepthProgress.fixpoint_of_checkInsns sound.checked.nonempty sound.checked.clean).1
  refine ⟨by rw [below]; exact .nil, ⟨?_, ?_⟩, fun place inside => ?_⟩
  · rw [length_padTo]
    omega
  · refine Nat.le_trans ?_ (length_storeLocal _ _ _)
    show _ ≤ (SlotType.padTo _ initial.locals).length
    have room := sound.expands.room
    rw [sound.maxLocals_eq] at room
    have needed :=
      FrameAnalysis.le_localsNeeded
        (max assembly.method.maxLocals.toNat initial.locals.length) written
    have enough : assembly.output.maxLocals.toNat ≤ assembly.method.maxLocals.toNat := Nat.le_refl _
    rw [length_padTo]
    omega
  · have here := keeping.place
    have plain : (initial.locals.getD place .top).isPlain = true := by
      rw [List.getD_eq_getElem?_getD]
      cases held : initial.locals[place]? with
      | none => rfl
      | some type => exact isPlain_of_initial found type (List.mem_of_getElem? held)
    show related ((SlotType.padTo _ initial.locals).getD place .top)
      ((storeLocal (SlotType.padTo _ initial.locals) slot value).getD place .top)
    simp only [getD_storeLocal, getD_padTo, if_neg (show place ≠ slot.toNat by omega)]
    rw [if_neg (by omega), if_neg]
    · exact renames.plain _ plain
    · rintro ⟨last, wide⟩
      rw [isWide_of_initial found (by omega)] at wide
      cases wide

/-- The types along the expanded body follow those along the body. -/
theorem follows_of_keeping
    {rawDeclared : Std.TreeMap UInt16 FrameState}
    (found : FrameState.initial assembly.method = .ok initial)
    (rawFound :
      declaredStates assembly.source
        (assembly.tables.frames.map fun (offset, frame) => (UInt16.ofNat offset, frame))
        assembly.code.maxLocals assembly.pool = .ok rawDeclared) :
    (assembly.course written initial keeps).Follows assembly.source rawDeclared
      ⟨SlotType.padTo assembly.code.maxLocals.toNat initial.locals, []⟩ where
  kept := sound.kept
  sameClass := rfl
  calm := by
    intro index item listed continues
    rcases keeping.ahead item (List.mem_of_getElem? listed) with nothing | ⟨ends, _⟩
    · exact nothing
    · rw [ends] at continues
      cases continues
  fixes := by
    intro offset state declaredHere
    obtain ⟨other, otherFound, expanded⟩ := bind_eq_ok_iff.mp rawFound
    have settled :
        ∀ row ∈ assembly.tables.frames.map fun (offset, frame) => (UInt16.ofNat offset, frame),
          row.2.IsSettled := by
      intro row member
      obtain ⟨other, listed, rfl⟩ := List.mem_map.mp member
      exact sound.settled other listed
    rcases cases_of_expandFrames settled
        (SlotType.isPlain_compact (isPlain_of_initial (mapError_eq_ok_iff.mp otherFound))) expanded
        declaredHere with none | ⟨_, fixes⟩
    · simp at none
    · exact fixes
  sameDeclared := by
    intro index inside
    have hinted := sound.prepared.hinted
    rw [sound.expands.hints] at hinted
    cases frames : assembly.body.frames with
    | nil =>
        rw [frames] at hinted
        simp only [List.isEmpty_nil, if_true] at hinted
        have rows : assembly.tables.frames = [] := by
          have same := lies.frames_eq
          rw [frames] at same
          exact List.map_eq_nil_iff.mp same.symm
        rw [rows] at rawFound
        obtain ⟨_, _, expanded⟩ := bind_eq_ok_iff.mp rawFound
        cases expanded
        show declaredAt assembly.declared _ _ = _
        rw [hinted]
        simp [declaredAt]
    | cons frame rest =>
        rw [frames] at hinted
        simp only [List.isEmpty_cons, Bool.false_eq_true, if_false] at hinted
        rw [← frames] at hinted
        exact lies.declaredAt_start_eq rfl rfl sound.kept hinted rawFound inside
  undeclared := by
    intro index offset insn placed free declaredHere
    obtain ⟨row, listed, same⟩ :=
      (Body.mem_declaredOffsets_iff lies.size_lt lies.decodes.tablesRead).mp declaredHere
    obtain ⟨_, _, expanded⟩ := bind_eq_ok_iff.mp rawFound
    have known :=
      isSome_of_expandFrames expanded (.inr ⟨_, List.mem_map_of_mem listed, same⟩)
    rw [declaredAt_of_placed placed] at free
    rw [free] at known
    cases known
  entered _ typed undeclared :=
    alike_of_entered lies sound keeping lies.renames_renamed found undeclared typed

end Keeping

/-- Keeping the time brings no unrelated classes into an analysis unless a constructor does. -/
theorem Sound.spares_ofCode_of_keeping
    {assembly : Assembly}
    {field : Member}
    {clock : Clock}
    {slot : UInt16}
    (sound : assembly.Sound)
    (guarded : assembly.expansion.Guarded assembly.guards)
    (keeping : assembly.expansion.Keeping assembly.code.maxLocals field clock slot)
    (news : Body.ConstructsNew assembly.pool assembly.source assembly.code) :
    Spares (fun _ => True)
      (FrameAnalysis.ofCode assembly.method assembly.bytes assembly.ranges assembly.later
        assembly.rules) := by
  refine sound.spares_ofCode fun written initial lies found =>
    ⟨some (assembly.keptType written initial), ?_⟩
  refine sound.regular_course lies guarded (enters_of_keeping keeping)
    (fun _ _ listed => snippet_of_keeping keeping (List.mem_of_getElem? listed)) ?_ ?_
  · rintro _ ⟨⟩
    exact known_keptType lies sound keeping
  · intro _ index item state count visited listed typed constructs
    obtain ⟨continues, located, placed, calls⟩ :=
      Course.exists_constructs
        (show (assembly.course written initial none).expansion.Lies _ _ _ _ _ _ _ _ _ _ _ from lies)
        sound.kept visited listed constructs
    have decoded := Body.Decoded.decode_of_ofCode sound.decodes.code
    obtain ⟨held, receiver, heldTyped, called, uninitialized⟩ :=
      news _ _ index located count sound.typed decoded visited placed calls
    obtain ⟨other, rawDeclared, otherFound, rawFound, rawTyped⟩ :=
      Body.exists_typing_of_declaredTypes sound.decodes.code sound.decodes.tablesRead heldTyped
    obtain rfl := Except.ok.inj (otherFound.symm.trans found)
    exact
      Course.exists_receiver_of_follows lies
        (follows_of_keeping lies sound keeping found rawFound) visited listed continues rawTyped
        called uninitialized typed

end Assembly

end JvmClass
