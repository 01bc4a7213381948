import JvmClass.Proofs.Frame.Locals
import JvmClass.Proofs.Frame.Roundtrip
import JvmClass.Proofs.Frame.Upheld
import JvmClass.Proofs.Slots

namespace JvmClass

/-!
# The shape of computed locals

The states of an analysis have as many locals as are declared, and behind each long
or double is the place that belongs to it, as long as two things do not happen: an
opcode for a narrow value stores a long or double into the last local, or a
constructor is called on a value that nothing is known of, which turns the place
behind each long or double into an object.
-/

namespace SlotType

/-- Behind each long or double local there is a place, and it holds a type of some kind. -/
def Followed
    (behind : SlotType → Prop)
    (locals : List SlotType) : Prop :=
  ∀ place,
    (locals.getD place .top).isWide = true →
      place + 1 < locals.length ∧ behind (locals.getD (place + 1) .top)

/-- What the place behind a long or double can come to hold. -/
inductive Rest : SlotType → Prop
  | top : Rest .top
  | object (name : String) : Rest (.object name)
  | unmerged : Rest .unmerged

theorem paired_iff_followed
    {locals : List SlotType} :
    Paired locals ↔ Followed (· = .top) locals := by
  induction locals with
  | nil => exact ⟨fun _ place wide => by simp [isWide] at wide, fun _ => trivial⟩
  | cons type rest inductionHypothesis =>
      constructor
      · rintro ⟨first, paired⟩ place wide
        cases place with
        | zero =>
            obtain ⟨others, rfl⟩ := List.head?_eq_some_iff.mp (first wide)
            exact ⟨by simp, rfl⟩
        | succ place =>
            obtain ⟨inside, top⟩ := inductionHypothesis.mp paired place wide
            exact ⟨by simpa using inside, top⟩
      · intro followed
        refine ⟨fun wide => ?_, inductionHypothesis.mpr fun place wide => ?_⟩
        · obtain ⟨inside, top⟩ := followed 0 wide
          cases rest with
          | nil => simp at inside
          | cons next others => exact congrArg some top
        · obtain ⟨inside, top⟩ := followed (place + 1) wide
          exact ⟨by simpa using inside, top⟩

theorem lt_length_of_isWide
    {locals : List SlotType}
    {place : Nat}
    (wide : (locals.getD place .top).isWide = true) :
    place < locals.length := by
  by_contra outside
  rw [List.getD_eq_default _ _ (by omega)] at wide
  cases wide

/-- Only equal types merge to a long or double. -/
theorem isWide_of_mergeLocal
    {rules : TypeRules}
    {left right : SlotType}
    (wide : (mergeLocal rules left right).isWide = true) :
    left.isWide = true ∧ right.isWide = true := by
  unfold mergeLocal at wide
  cases found : merge? rules.hierarchy left right with
  | none => simp [found, isWide] at wide
  | some merged =>
      rw [found, Option.getD_some] at wide
      unfold merge? at found
      split at found
      · rename_i same
        cases found
        exact ⟨wide, same ▸ wide⟩
      · split at found
        case h_3 =>
          obtain ⟨name, _, rfl⟩ := Option.map_eq_some_iff.mp found
          cases wide
        all_goals cases found
        all_goals cases wide

theorem rest_mergeLocal
    {rules : TypeRules}
    {left right : SlotType}
    (leftRest : Rest left)
    (rightRest : Rest right) :
    Rest (mergeLocal rules left right) := by
  unfold mergeLocal
  cases found : merge? rules.hierarchy left right with
  | none => exact .unmerged
  | some merged =>
      unfold merge? at found
      split at found
      · cases found
        exact leftRest
      · split at found
        case h_3 =>
          obtain ⟨name, _, rfl⟩ := Option.map_eq_some_iff.mp found
          exact .object name
        all_goals cases found
        · exact .object _
        · exact .object _
        · exact .top

section Followed

variable {behind : SlotType → Prop} {locals : List SlotType}

theorem Followed.imp
    {other : SlotType → Prop}
    (followed : Followed behind locals)
    (implies : ∀ type, behind type → other type) :
    Followed other locals :=
  fun place wide => ⟨(followed place wide).1, implies _ (followed place wide).2⟩

end Followed

/-! ## Locals on entry -/

theorem paired_append
    {first second : List SlotType}
    (firstPaired : Paired first)
    (secondPaired : Paired second) :
    Paired (first ++ second) := by
  induction first with
  | nil => exact secondPaired
  | cons type rest inductionHypothesis =>
      refine ⟨fun wide => ?_, inductionHypothesis firstPaired.2⟩
      obtain ⟨others, rfl⟩ := List.head?_eq_some_iff.mp (firstPaired.1 wide)
      rfl

theorem paired_of_narrow
    {locals : List SlotType}
    (narrow : ∀ type ∈ locals, type.isWide = false) :
    Paired locals := by
  refine paired_iff_followed.mpr fun place wide => ?_
  rw [List.getD_eq_getElem _ _ (lt_length_of_isWide wide), narrow _ (List.getElem_mem _)] at wide
  cases wide

theorem paired_expand (type : SlotType) : Paired type.expand := by
  cases type <;> simp [expand, isWide, Paired]

theorem paired_flatMap
    {α : Type}
    {items : List α}
    {spread : α → List SlotType}
    (each : ∀ item, Paired (spread item)) :
    Paired (items.flatMap spread) := by
  induction items with
  | nil => trivial
  | cons item rest inductionHypothesis =>
      rw [List.flatMap_cons]
      exact paired_append (each item) inductionHypothesis

end SlotType

namespace FrameState

open SlotType

theorem paired_of_initial
    {method : MethodContext}
    {initial : FrameState}
    (found : FrameState.initial method = .ok initial) :
    Paired initial.locals := by
  obtain ⟨type, _, found⟩ := bind_eq_ok_iff.mp found
  cases found
  refine paired_append (paired_of_narrow fun held member => ?_) (paired_flatMap ?_)
  · split at member
    · cases member
    · split at member <;> cases List.mem_singleton.mp member <;> rfl
  · exact fun param => paired_expand _

/-- On entry the locals are those there are at least, and behind each wide one is its place. -/
theorem paired_padTo
    {locals : List SlotType}
    (size : Nat)
    (paired : Paired locals) :
    Paired (padTo size locals) :=
  paired_append paired (paired_of_narrow fun type member => by
    rw [List.eq_of_mem_replicate member]
    rfl)

/-! ## Locals behind a step -/

section Followed

variable {behind : SlotType → Prop} {locals : List SlotType}

/-- A store takes the place behind a wide value, and cuts off the wide local that it tears. -/
theorem followed_storeLocal
    (top : behind .top)
    (followed : Followed behind locals)
    (index : UInt16)
    (value : SlotType) :
    Followed behind (storeLocal locals index value) := by
  intro place wide
  have longer := length_storeLocal_eq locals index value
  rw [getD_storeLocal] at wide
  split at wide
  · rename_i here
    have two : value.slots = 2 := by simp [slots, wide]
    refine ⟨by omega, ?_⟩
    rw [getD_storeLocal, if_neg (by omega), if_pos ⟨by omega, wide⟩]
    exact top
  · split at wide
    · cases wide
    · split at wide
      · cases wide
      · rename_i elsewhere _ notBelow
        obtain ⟨inside, held⟩ := followed place wide
        refine ⟨by omega, ?_⟩
        have notBelow : place + 1 ≠ index.toNat := fun below => notBelow ⟨below, wide⟩
        rw [getD_storeLocal, if_neg notBelow, if_neg (by omega)]
        split
        · exact top
        · exact held

theorem followed_replace
    {old new : SlotType}
    (followed : Followed behind locals)
    (narrow : new.isWide = false)
    (keeps :
      ∀ place,
        (locals.getD place .top).isWide = true →
          locals.getD (place + 1) .top = old → behind new) :
    Followed behind (locals.map fun type => if type = old then new else type) := by
  intro place wide
  have inside := lt_length_of_isWide wide
  rw [List.length_map] at inside ⊢
  rw [getD_map_replace locals place inside] at wide
  split at wide
  · rw [narrow] at wide
    cases wide
  · obtain ⟨behindInside, held⟩ := followed place wide
    refine ⟨behindInside, ?_⟩
    rw [getD_map_replace locals (place + 1) behindInside]
    split
    · rename_i replaced
      exact keeps place wide replaced
    · exact held

/-- A long or double is merged from two of them, so that the places behind are merged too. -/
theorem followed_mergeLocals
    {rules : TypeRules}
    {left right : List SlotType}
    (merges :
      ∀ first second, behind first → behind second → behind (mergeLocal rules first second))
    (leftFollowed : Followed behind left)
    (rightFollowed : Followed behind right) :
    Followed behind (mergeLocals rules [] left right) := by
  intro place wide
  simp only [getD_mergeLocals, length_mergeLocals, fixedAt, List.getElem?_nil, Option.filter_none,
    Option.isSome_none, Bool.false_eq_true, and_false, if_false] at wide ⊢
  obtain ⟨leftWide, rightWide⟩ := isWide_of_mergeLocal wide
  obtain ⟨inside, leftHeld⟩ := leftFollowed place leftWide
  exact ⟨by omega, merges _ _ leftHeld (rightFollowed place rightWide).2⟩

end Followed

end FrameState

namespace Opcode

theorem endsFlow_of_store
    {code : Opcode}
    {kind : ValueKind}
    {index : UInt16}
    (acts : code.action? = some (.store kind index)) :
    code.endsFlow = false := by
  have stores : (code.action?.any fun | .store _ _ => true | _ => false) = true := by rw [acts]; rfl
  clear acts
  obtain ⟨⟨value⟩⟩ := code
  revert value
  decide +kernel

theorem endsFlow_of_range
    {code : Opcode}
    (among : istore ≤ code ∧ code ≤ astore) :
    code.endsFlow = false := by
  obtain ⟨⟨value⟩⟩ := code
  revert value
  decide +kernel

end Opcode

namespace Insn

open FrameState

/-- A step keeps the locals, stores a value that it takes off the stack, or calls a constructor. -/
theorem locals_of_step
    {context : StepContext}
    {offset : UInt16}
    {insn : Insn}
    {state behind : FrameState}
    (found : insn.step context offset state = .ok behind) :
    behind.locals = state.locals ∨
      (∃ access value rest,
        insn.transfer? = some access ∧
          access.isStore = true ∧
            state.stack = value :: rest ∧
              behind.locals = storeLocal state.locals access.index value) ∨
        ∃ count receiver owner,
          Constructs context.pool insn count ∧
            state.stack[count]? = some receiver ∧
              behind.locals =
                state.locals.map fun type => if type = receiver then .object owner else type := by
  cases insn with
  | increment code index amount =>
      cases found
      exact .inl rfl
  | _ =>
      have left := localsBehind_of_step found
      generalize behind.locals = locals at left ⊢
      cases left with
      | same => exact .inl rfl
      | stored accessed isStore popped => exact .inr (.inl ⟨_, _, _, accessed, isStore, popped, rfl⟩)
      | constructed constructs called => exact .inr (.inr ⟨_, _, _, constructs, called, rfl⟩)

/-- A store that a step takes is fallen through. -/
theorem endsFlow_of_transfer
    {insn : Insn}
    {access : SlotAccess}
    (transfers : insn.transfer? = some access)
    (isStore : access.isStore = true) :
    insn.opcode.endsFlow = false := by
  cases insn with
  | plain code =>
      simp only [transfer?, access?] at transfers
      split at transfers
      · cases transfers
        cases isStore
      · rename_i acts
        exact Opcode.endsFlow_of_store acts
      · cases transfers
  | slot code index =>
      simp only [transfer?, access?, slotAccess?] at transfers
      split at transfers
      · cases transfers
        cases isStore
      · split at transfers
        · rename_i among
          exact Opcode.endsFlow_of_range among
        · split at transfers <;> cases transfers
          cases isStore
  | _ => cases transfers

/-- A store leaves the value that it takes off the stack in its place. -/
theorem step_of_store
    {context : StepContext}
    {offset : UInt16}
    {insn : Insn}
    {access : SlotAccess}
    {state : FrameState}
    {value : SlotType}
    {rest : List SlotType}
    (transfers : insn.transfer? = some access)
    (isStore : access.isStore = true)
    (popped : state.stack = value :: rest) :
    insn.step context offset state = .ok ⟨storeLocal state.locals access.index value, rest⟩ := by
  have stores :
      accessLocal context offset state access =
        .ok ⟨storeLocal state.locals access.index value, rest⟩ := by
    simp [accessLocal, isStore, popped, pop, Except.mapError, bind, Except.bind, pure, Except.pure]
  have accessed := access?_of_transfer? transfers
  cases insn with
  | plain code =>
      cases acts : code.action? with
      | none => simp [access?, acts] at accessed
      | some action =>
          cases action with
          | load | store => simp only [step, acts, accessed, stores]
          | _ => simp [access?, acts] at accessed
  | slot code index =>
      have notRet : code ≠ Opcode.ret := by
        rintro rfl
        rw [show access?  (.slot Opcode.ret index) = some ⟨index, 1, false⟩ from rfl] at accessed
        cases accessed
        cases isStore
      simp only [step, if_neg notRet, accessed, stores]
  | _ => cases transfers

end Insn

/-- What is found among collected entries is one of them. -/
theorem mem_of_getElem?_insertMany
    {α : Type}
    {rows : List (UInt16 × α)}
    {entries : Std.TreeMap UInt16 α}
    {key : UInt16}
    {value : α}
    (found : (entries.insertMany rows)[key]? = some value) :
    (key, value) ∈ rows ∨ entries[key]? = some value := by
  induction rows generalizing entries with
  | nil => exact .inr (by simpa using found)
  | cons row rest inductionHypothesis =>
      rw [Std.TreeMap.insertMany_cons] at found
      rcases inductionHypothesis found with among | inserted
      · exact .inl (List.mem_cons_of_mem _ among)
      · rw [Std.TreeMap.getElem?_insert] at inserted
        split at inserted
        · rename_i same
          obtain rfl := Std.LawfulEqOrd.eq_of_compare same
          cases inserted
          exact .inl (List.mem_cons_self ..)
        · exact .inr inserted

namespace FrameAnalysis

/-- How many local variables a method and its body need. -/
def bodyLocals (method : MethodContext) (insns : List (Nat × Insn)) (initial : FrameState) : Nat :=
  localsNeeded (max method.maxLocals.toNat initial.locals.length) insns

/-- Every value that the analysis steps through a store of has room in a number of places. -/
def StoresFit
    (method : MethodContext)
    (insns : List (Nat × Insn))
    (initial : FrameState)
    (handlers : List HandlerRange)
    (pool : Pool)
    (rules : TypeRules)
    (size : Nat) : Prop :=
  ∀ position offset insn state access value rest,
    (LocatedCode.ofInsns insns).insns[position]? = some (offset, insn) →
      Takes method insns initial handlers pool rules position state →
        insn.transfer? = some access →
          access.isStore = true →
            state.stack = value :: rest → access.index.toNat + value.slots ≤ size

/--
Where the analysis steps through a constructor that is called on a value nothing is
known of, no local is a long or double.
-/
def SparesWide
    (method : MethodContext)
    (insns : List (Nat × Insn))
    (initial : FrameState)
    (handlers : List HandlerRange)
    (pool : Pool)
    (rules : TypeRules) : Prop :=
  ∀ position offset insn state count,
    (LocatedCode.ofInsns insns).insns[position]? = some (offset, insn) →
      Takes method insns initial handlers pool rules position state →
        insn.Constructs pool count →
          state.stack[count]? = some .top → ∀ type ∈ state.locals, type.isWide = false

section Shape

variable {method : MethodContext} {code : Bytes} {insns : List (Nat × Insn)} {initial : FrameState}
  {handlers : List HandlerRange} {pool : Pool} {rules : TypeRules} {analysis : FrameAnalysis}

theorem le_bodyLocals
    (method : MethodContext)
    (initial : FrameState)
    {position : Nat}
    {offset : UInt16}
    {insn : Insn}
    {access : SlotAccess}
    (located : (LocatedCode.ofInsns insns).insns[position]? = some (offset, insn))
    (accessed : insn.access? = some access) :
    access.index.toNat + access.width ≤ bodyLocals method insns initial := by
  obtain ⟨place, member⟩ := LocatedCode.exists_placed located
  exact le_localsNeeded_of_access member accessed

theorem length_entryState :
    (entryState method insns initial).locals.length = bodyLocals method insns initial := by
  have enough := le_localsNeeded (max method.maxLocals.toNat initial.locals.length) insns
  simp only [entryState, bodyLocals, FrameState.length_padTo]
  omega

theorem paired_entryState
    (entered : FrameState.initial method = .ok initial) :
    SlotType.Followed (· = .top) (entryState method insns initial).locals :=
  SlotType.paired_iff_followed.mp
    (FrameState.paired_padTo _ (FrameState.paired_of_initial entered))

/-- A store that an opcode makes room for fits. -/
theorem storesFit_of_width
    (fits :
      ∀ position offset insn state access value rest,
        (LocatedCode.ofInsns insns).insns[position]? = some (offset, insn) →
          Takes method insns initial handlers pool rules position state →
            insn.transfer? = some access →
              access.isStore = true → state.stack = value :: rest → value.slots ≤ access.width) :
    StoresFit method insns initial handlers pool rules (bodyLocals method insns initial) := by
  intro position offset insn state access value rest located takes transfers isStore popped
  have narrow := fits position offset insn state access value rest located takes transfers isStore popped
  have room := le_bodyLocals method initial located (Insn.access?_of_transfer? transfers)
  omega

/-- What a step leaves of the locals, as far as the analysis takes it. -/
theorem followed_of_step
    {behind : SlotType → Prop}
    {offset : UInt16}
    {insn : Insn}
    {before after : FrameState}
    (top : behind .top)
    (followed : SlotType.Followed behind before.locals)
    (stepped : insn.step ⟨method, pool, rules.emitFrames⟩ offset before = .ok after)
    (constructs :
      ∀ count receiver name,
        insn.Constructs pool count →
          before.stack[count]? = some receiver →
            ∀ place,
              (before.locals.getD place .top).isWide = true →
                before.locals.getD (place + 1) .top = receiver → behind (.object name)) :
    SlotType.Followed behind after.locals := by
  rcases Insn.locals_of_step stepped with
    same | ⟨access, value, rest, _, _, _, same⟩ | ⟨count, receiver, owner, calls, called, same⟩
  · exact same ▸ followed
  · exact same ▸ FrameState.followed_storeLocal top followed access.index value
  · exact same ▸
      FrameState.followed_replace followed rfl (constructs count receiver owner calls called)

/-- A step leaves as many locals as there were, or as a store needs. -/
theorem length_of_step
    {offset : UInt16}
    {insn : Insn}
    {before after : FrameState}
    (stepped : insn.step ⟨method, pool, rules.emitFrames⟩ offset before = .ok after) :
    after.locals.length = before.locals.length ∨
      ∃ access value rest,
        insn.transfer? = some access ∧
          access.isStore = true ∧
            before.stack = value :: rest ∧
              after.locals.length =
                max before.locals.length (access.index.toNat + value.slots) := by
  rcases Insn.locals_of_step stepped with
    same | ⟨access, value, rest, transfers, isStore, popped, same⟩ | ⟨_, _, _, _, _, same⟩
  · exact .inl (congrArg List.length same)
  · refine .inr ⟨access, value, rest, transfers, isStore, popped, ?_⟩
    rw [same, FrameState.length_storeLocal_eq]
  · exact .inl (by rw [same, List.length_map])

/-- No state has more than one local too many, and no wide local is without a place behind it. -/
theorem near_of_ofCode
    (undeclared : ∀ offset : UInt16, rules.declared[offset]? = none)
    (decoded : Insn.decode code = .ok insns)
    (entered : FrameState.initial method = .ok initial)
    (found : ofCode method code handlers pool rules = .ok analysis)
    {placed : UInt16 × FrameState}
    (member : placed ∈ analysis.states) :
    (bodyLocals method insns initial ≤ placed.2.locals.length ∧
        placed.2.locals.length ≤ bodyLocals method insns initial + 1) ∧
      SlotType.Followed SlotType.Rest placed.2.locals := by
  refine accepted_of_ofCode
    (fun locals =>
      (bodyLocals method insns initial ≤ locals.length ∧
          locals.length ≤ bodyLocals method insns initial + 1) ∧
        SlotType.Followed SlotType.Rest locals)
    undeclared decoded entered ?_ ?_ ?_ found member
  · rintro left right ⟨leftLength, leftFollowed⟩ ⟨rightLength, rightFollowed⟩
    rw [FrameState.length_mergeLocals]
    exact ⟨by omega,
      FrameState.followed_mergeLocals (fun _ _ => SlotType.rest_mergeLocal) leftFollowed
        rightFollowed⟩
  · rintro position offset insn before behind located _ ⟨length, followed⟩ stepped
    refine ⟨?_, followed_of_step .top followed stepped fun _ _ name _ _ _ _ _ => .object name⟩
    rcases length_of_step stepped with same | ⟨access, value, rest, transfers, _, _, longer⟩
    · omega
    · have accessed := Insn.access?_of_transfer? transfers
      have room := le_bodyLocals method initial located accessed
      have positive := Insn.width_pos_of_access? accessed
      have narrow : value.slots ≤ 2 := by
        unfold SlotType.slots
        split <;> omega
      omega
  · rw [length_entryState]
    exact ⟨by omega, (paired_entryState entered).imp fun _ top => top ▸ .top⟩

/-- Where every store fits there are no more locals than are needed. -/
theorem length_of_storesFit
    (undeclared : ∀ offset : UInt16, rules.declared[offset]? = none)
    (decoded : Insn.decode code = .ok insns)
    (entered : FrameState.initial method = .ok initial)
    (fits :
      StoresFit method insns initial handlers pool rules (bodyLocals method insns initial))
    (found : ofCode method code handlers pool rules = .ok analysis)
    {placed : UInt16 × FrameState}
    (member : placed ∈ analysis.states) :
    placed.2.locals.length = bodyLocals method insns initial := by
  refine accepted_of_ofCode
    (fun locals => locals.length = bodyLocals method insns initial)
    undeclared decoded entered ?_ ?_ length_entryState found member
  · intro left right leftLength rightLength
    rw [FrameState.length_mergeLocals]
    omega
  · intro position offset insn before behind located takes length stepped
    rcases length_of_step stepped with same | ⟨access, value, rest, transfers, isStore, popped, longer⟩
    · omega
    · have room := fits position offset insn before access value rest located takes transfers isStore
        popped
      omega

/-- Where there are no more locals than are needed every store fits. -/
theorem storesFit_of_length
    (decoded : Insn.decode code = .ok insns)
    (entered : FrameState.initial method = .ok initial)
    (found : ofCode method code handlers pool rules = .ok analysis)
    {size : Nat}
    (lengths : ∀ placed ∈ analysis.states, placed.2.locals.length = size) :
    StoresFit method insns initial handlers pool rules size := by
  intro position offset insn state access value rest located takes transfers isStore popped
  obtain ⟨placed, member, enough⟩ :=
    exists_state_of_takes decoded entered found located takes
      (Insn.step_of_store transfers isStore popped) (Insn.endsFlow_of_transfer transfers isStore)
  rw [lengths placed member, FrameState.length_storeLocal_eq] at enough
  omega

/-- Where no constructor gets at the place behind a wide local, each keeps it. -/
theorem paired_of_sparesWide
    (undeclared : ∀ offset : UInt16, rules.declared[offset]? = none)
    (decoded : Insn.decode code = .ok insns)
    (entered : FrameState.initial method = .ok initial)
    (spares : SparesWide method insns initial handlers pool rules)
    (found : ofCode method code handlers pool rules = .ok analysis)
    {placed : UInt16 × FrameState}
    (member : placed ∈ analysis.states) :
    SlotType.Paired placed.2.locals := by
  refine SlotType.paired_iff_followed.mpr
    (accepted_of_ofCode (SlotType.Followed (· = .top)) undeclared decoded entered ?_ ?_
      (paired_entryState entered) found member)
  · intro left right leftFollowed rightFollowed
    refine FrameState.followed_mergeLocals ?_ leftFollowed rightFollowed
    rintro _ _ rfl rfl
    exact SlotType.mergeLocal_self rules .top
  · intro position offset insn before behind located takes followed stepped
    refine followed_of_step rfl followed stepped fun count receiver name calls called place wide held => ?_
    obtain rfl : receiver = .top := held.symm.trans (followed place wide).2
    have narrow := spares position offset insn before count located takes calls called
    rw [List.getD_eq_getElem _ _ (SlotType.lt_length_of_isWide wide), narrow _ (List.getElem_mem _)]
      at wide
    cases wide

/-- Every state that needs a frame is one that was found. -/
theorem mem_states_of_frames
    (decoded : Insn.decode code = .ok insns)
    (entered : FrameState.initial method = .ok initial)
    (found : ofCode method code handlers pool rules = .ok analysis)
    {row : UInt16 × FrameState}
    (listed : row ∈ analysis.frames.toList) :
    row ∈ analysis.states := by
  have known := Std.TreeMap.mem_toList_iff_getElem?_eq_some.mp listed
  rcases (ran_of_ofCode decoded entered found).2 with ⟨_, _, frameless⟩ | ⟨_, start, solved, ran⟩
  · simp [frameless] at known
  · rw [ran.frames, Std.TreeMap.ofList_eq_insertMany_empty] at known
    rcases mem_of_getElem?_insertMany known with among | impossible
    · exact List.mem_of_mem_filter among
    · simp at impossible

/--
Where no frames are declared, every state has the locals that are declared for the
body or one more, and behind each long or double is a place that is unknown, an
object or unmerged.  There is never one more exactly if every value that is stored
has room.  If moreover no constructor is called on an unknown value while a local is
a long or double, the place behind each of them keeps its `top`, and the table that is
written for the body is read back within the locals declared beside it.
-/
theorem shape_of_ofCode
    {method : MethodContext}
    {code : Bytes}
    {insns : List (Nat × Insn)}
    {initial : FrameState}
    {handlers : List HandlerRange}
    {pool : Pool}
    {rules : TypeRules}
    {analysis : FrameAnalysis}
    (undeclared : ∀ offset : UInt16, rules.declared[offset]? = none)
    (decoded : Insn.decode code = .ok insns)
    (entered : FrameState.initial method = .ok initial)
    (found : ofCode method code handlers pool rules = .ok analysis) :
    (∀ placed ∈ analysis.states,
        analysis.maxLocals.toNat ≤ placed.2.locals.length ∧
          placed.2.locals.length ≤ analysis.maxLocals.toNat + 1 ∧
            SlotType.Followed SlotType.Rest placed.2.locals) ∧
      ((∀ placed ∈ analysis.states, placed.2.locals.length = analysis.maxLocals.toNat) ↔
        StoresFit method insns initial handlers pool rules analysis.maxLocals.toNat) ∧
        (StoresFit method insns initial handlers pool rules analysis.maxLocals.toNat →
          SparesWide method insns initial handlers pool rules →
            (∀ placed ∈ analysis.states, SlotType.Paired placed.2.locals) ∧
              ∀ (before grown : Pool) table,
                before.Coherent →
                  analysis.stackMapTable before = (table, grown) →
                    grown.size ≤ 65535 →
                      ∃ states,
                        FrameState.declaredStates method ((Verify.tableOffsets none table).zip table)
                            analysis.maxLocals grown =
                            .ok states ∧
                          ∀ offset : UInt16,
                            states[offset]? =
                              analysis.frames[offset]?.map
                                (FrameState.declared analysis.maxLocals)) := by
  obtain ⟨started, outcome⟩ := ran_of_ofCode decoded entered found
  have counted (placed : UInt16 × FrameState) (member : placed ∈ analysis.states) :
      analysis.maxLocals.toNat = bodyLocals method insns initial := by
    rcases outcome with ⟨_, stateless, _⟩ | ⟨_, _, _, ran⟩
    · rw [stateless] at member
      cases member
    · exact ran.maxLocals
  have lengths
      (fits : StoresFit method insns initial handlers pool rules analysis.maxLocals.toNat)
      (placed : UInt16 × FrameState)
      (member : placed ∈ analysis.states) :
      placed.2.locals.length = analysis.maxLocals.toNat := by
    have same := counted placed member
    rw [same] at fits ⊢
    exact length_of_storesFit undeclared decoded entered fits found member
  refine ⟨fun placed member => ?_, ⟨storesFit_of_length decoded entered found, lengths⟩,
    fun fits spares => ?_⟩
  · obtain ⟨⟨least, most⟩, followed⟩ := near_of_ofCode undeclared decoded entered found member
    rw [counted placed member]
    exact ⟨least, most, followed⟩
  · have paired (placed : UInt16 × FrameState) (member : placed ∈ analysis.states) :
        SlotType.Paired placed.2.locals :=
      paired_of_sparesWide undeclared decoded entered spares found member
    refine ⟨paired, fun before grown table coherent encoded short => ?_⟩
    have listed {row : UInt16 × FrameState} (framed : row ∈ analysis.frames.toList) :=
      mem_states_of_frames decoded entered found framed
    exact
      (declaredStates_stackMapTable (entered.trans (congrArg Except.ok started.symm)) coherent
        (fun row framed => paired row (listed framed))
        (fun row framed => Nat.le_of_eq (lengths fits row (listed framed))) encoded short).2

end Shape

/-- A long is stored to locals that there is room for, and comes back from the table. -/
theorem shape_of_copiedLong :
    ∃ analysis table grown states,
      ofCode ⟨"A", 8, "m", "(J)V", 2⟩ [0x1E, 0x41, 0xA7, 0x00, 0x00] [] ⟨#[], 0, ∅⟩ ⟨[], ∅, true⟩ =
          .ok analysis ∧
        (∀ placed ∈ analysis.states,
            placed.2.locals.length = analysis.maxLocals.toNat ∧ SlotType.Paired placed.2.locals) ∧
          analysis.stackMapTable .empty = (table, grown) ∧
            FrameState.declaredStates ⟨"A", 8, "m", "(J)V", 2⟩
                  ((Verify.tableOffsets none table).zip table) analysis.maxLocals grown =
                .ok states ∧
              states[(2 : UInt16)]? = some ⟨[.long, .top, .long, .top], []⟩ := by
  have decoded : Insn.decode [0x1E, 0x41, 0xA7, 0x00, 0x00] =
      .ok [(0, .plain 0x1E), (1, .plain 0x41), (2, .jump 0xA7 2)] := by
    decide +kernel
  have entered :
      FrameState.initial ⟨"A", 8, "m", "(J)V", 2⟩ = .ok ⟨[.long, .top], []⟩ := by
    decide +kernel
  have evaluated :
      (ofCode ⟨"A", 8, "m", "(J)V", 2⟩ [0x1E, 0x41, 0xA7, 0x00, 0x00] [] ⟨#[], 0, ∅⟩
        ⟨[], ∅, true⟩).toOption.map (fun analysis =>
          (analysis.maxLocals, (analysis.stackMapTable .empty).2.size,
            analysis.frames[(2 : UInt16)]?.map (FrameState.declared analysis.maxLocals))) =
        some (4, 1, some ⟨[.long, .top, .long, .top], []⟩) := by
    decide +kernel
  obtain ⟨analysis, found, results⟩ := Option.map_eq_some_iff.mp evaluated
  simp only [Prod.mk.injEq] at results
  obtain ⟨maxLocals, size, framed⟩ := results
  have found := toOption_eq_some_iff.mp found
  obtain ⟨_, lengths, written⟩ := shape_of_ofCode (fun _ => rfl) decoded entered found
  have among {position : Nat} {offset : UInt16} {insn : Insn}
      (located :
        (LocatedCode.ofInsns [(0, .plain 0x1E), (1, .plain 0x41), (2, .jump 0xA7 2)]).insns[position]? =
          some (offset, insn)) :
      insn = .plain 0x1E ∨ insn = .plain 0x41 ∨ insn = .jump 0xA7 2 := by
    obtain ⟨place, member⟩ := LocatedCode.exists_placed located
    simp only [List.mem_cons, Prod.mk.injEq, List.not_mem_nil, or_false] at member
    tauto
  have fits :
      StoresFit ⟨"A", 8, "m", "(J)V", 2⟩ [(0, .plain 0x1E), (1, .plain 0x41), (2, .jump 0xA7 2)]
        ⟨[.long, .top], []⟩ [] ⟨#[], 0, ∅⟩ ⟨[], ∅, true⟩ analysis.maxLocals.toNat := by
    rw [maxLocals]
    refine storesFit_of_width fun position offset insn state access value rest located _ transfers isStore _ => ?_
    rcases among located with rfl | rfl | rfl
    · cases transfers
      cases isStore
    · cases transfers
      unfold SlotType.slots
      split <;> decide
    · cases transfers
  have spares :
      SparesWide ⟨"A", 8, "m", "(J)V", 2⟩ [(0, .plain 0x1E), (1, .plain 0x41), (2, .jump 0xA7 2)]
        ⟨[.long, .top], []⟩ [] ⟨#[], 0, ∅⟩ ⟨[], ∅, true⟩ := by
    intro position offset insn state count located _ constructs
    rcases among located with rfl | rfl | rfl <;> cases constructs
  obtain ⟨paired, read⟩ := written fits spares
  have coherent : Pool.empty.Coherent :=
    Pool.coherent_of_ofEntries (by decide) (rfl : Pool.ofEntries #[.unusable] = .ok .empty)
  have short : (analysis.stackMapTable .empty).2.size ≤ 65535 := by
    rw [size]
    decide
  obtain ⟨states, declared, same⟩ := read .empty _ _ coherent rfl short
  exact ⟨analysis, _, _, states, found,
    fun placed member => ⟨lengths.mpr fits placed member, paired placed member⟩, rfl, declared,
    (same 2).trans framed⟩

/--
A long that is stored by an opcode for an int into the last local takes one local more
than is declared, and a constructor that is called on the place behind a long turns
that into an object.  Either way the table describes more locals than are declared, and
reading it fails.
-/
theorem exists_overfull :
    (∃ analysis,
      ofCode ⟨"A", 8, "m", "()V", 0⟩ [0x09, 0x3B, 0xA7, 0x00, 0x00] [] ⟨#[], 0, ∅⟩ ⟨[], ∅, true⟩ =
          .ok analysis ∧
        analysis.maxLocals = 1 ∧
          analysis.states[2]? = some (2, ⟨[.long, .top], []⟩) ∧
            (analysis.stackMapTable .empty).1 = [.append 2 [.long]] ∧
              (FrameState.declaredStates ⟨"A", 8, "m", "()V", 0⟩ [(2, .append 2 [.long])] 1
                (analysis.stackMapTable .empty).2).toOption.isSome = false) ∧
      ∃ analysis,
        ofCode ⟨"A", 8, "m", "(J)V", 2⟩ [0x2B, 0xB7, 0x00, 0x06, 0xA7, 0x00, 0x00] []
            ⟨#[.unusable, .utf8 "A", .classRef 1, .utf8 "<init>", .utf8 "()V", .nameAndType 3 4,
              .member .method 2 5], 7, ∅⟩
            ⟨[], ∅, true⟩ =
          .ok analysis ∧
        analysis.maxLocals = 2 ∧
          analysis.states[2]? = some (4, ⟨[.long, .object "A"], []⟩) ∧
            (analysis.stackMapTable .empty).1 = [.append 4 [.object 2]] ∧
              (FrameState.declaredStates ⟨"A", 8, "m", "(J)V", 2⟩ [(4, .append 4 [.object 2])] 2
                (analysis.stackMapTable .empty).2).toOption.isSome = false := by
  have stored :
      (ofCode ⟨"A", 8, "m", "()V", 0⟩ [0x09, 0x3B, 0xA7, 0x00, 0x00] [] ⟨#[], 0, ∅⟩
        ⟨[], ∅, true⟩).toOption.map (fun analysis =>
          (analysis.maxLocals, analysis.states[2]?, (analysis.stackMapTable .empty).1,
            (FrameState.declaredStates ⟨"A", 8, "m", "()V", 0⟩ [(2, .append 2 [.long])] 1
              (analysis.stackMapTable .empty).2).toOption.isSome)) =
        some (1, some (2, ⟨[.long, .top], []⟩), [.append 2 [.long]], false) := by
    decide +kernel
  have constructed :
      (ofCode ⟨"A", 8, "m", "(J)V", 2⟩ [0x2B, 0xB7, 0x00, 0x06, 0xA7, 0x00, 0x00] []
        ⟨#[.unusable, .utf8 "A", .classRef 1, .utf8 "<init>", .utf8 "()V", .nameAndType 3 4,
          .member .method 2 5], 7, ∅⟩
        ⟨[], ∅, true⟩).toOption.map (fun analysis =>
          (analysis.maxLocals, analysis.states[2]?, (analysis.stackMapTable .empty).1,
            (FrameState.declaredStates ⟨"A", 8, "m", "(J)V", 2⟩ [(4, .append 4 [.object 2])] 2
              (analysis.stackMapTable .empty).2).toOption.isSome)) =
        some (2, some (4, ⟨[.long, .object "A"], []⟩), [.append 4 [.object 2]], false) := by
    decide +kernel
  obtain ⟨first, firstFound, firstResults⟩ := Option.map_eq_some_iff.mp stored
  obtain ⟨second, secondFound, secondResults⟩ := Option.map_eq_some_iff.mp constructed
  simp only [Prod.mk.injEq] at firstResults secondResults
  exact
    ⟨⟨first, toOption_eq_some_iff.mp firstFound, firstResults⟩,
      second, toOption_eq_some_iff.mp secondFound, secondResults⟩

end FrameAnalysis
end JvmClass
