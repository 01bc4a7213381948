import JvmClass.Proofs.Frame.Locals

namespace JvmClass

/-!
# States near to expected types

Below a bound the local variables of every state at a position have the expected
types, and so has the stack.  The place behind the bound may hold one more value,
which keeps its type or loses it.  States that are so near to what is expected
merge without asking for a common superclass, and steps keep them near.
-/

namespace SlotType

/-- A type is the expected one, and known. -/
def Expected (type expected : SlotType) : Prop :=
  type = expected ∧ type ≠ .unmerged

theorem expected_self
    {type : SlotType}
    (known : type ≠ .unmerged) :
    Expected type type :=
  ⟨rfl, known⟩

theorem renames_expected : Renames Expected where
  plain type plain := ⟨rfl, by rintro rfl; cases plain⟩
  known left right expected := ⟨expected.2, expected.1 ▸ expected.2⟩
  left first second right goes other := goes.1.trans other.1.symm
  right left first second goes other := goes.1.symm.trans other.1

/-- A place keeps a type or has lost it. -/
def Keeps (type held : SlotType) : Prop :=
  held = type ∨ held = .top

theorem keeps_top (type : SlotType) : Keeps type .top :=
  .inr rfl

theorem Keeps.ne_unmerged
    {type held : SlotType}
    (known : type ≠ .unmerged)
    (keeps : Keeps type held) :
    held ≠ .unmerged := by
  rcases keeps with rfl | rfl
  · exact known
  · exact nofun

/-- A place that keeps a type or has lost it goes on so when it is merged. -/
theorem exists_merge?_of_keeps
    {type left right : SlotType}
    (hierarchy : Hierarchy)
    (keepsLeft : Keeps type left)
    (keepsRight : Keeps type right) :
    ∃ merged, merge? hierarchy left right = some merged ∧ Keeps type merged ∧
      (merged = .top → left = .top ∨ right = .top) := by
  rcases keepsLeft with rfl | rfl <;> rcases keepsRight with rfl | rfl
  · exact ⟨_, if_pos rfl, .inl rfl, .inl⟩
  · refine ⟨.top, ?_, .inr rfl, fun _ => .inr rfl⟩
    cases left <;> simp [merge?]
  · refine ⟨.top, ?_, .inr rfl, fun _ => .inl rfl⟩
    cases right <;> simp [merge?]
  · exact ⟨.top, if_pos rfl, .inr rfl, fun _ => .inl rfl⟩

theorem keeps_mergeLocal
    {type left right : SlotType}
    (rules : TypeRules)
    (keepsLeft : Keeps type left)
    (keepsRight : Keeps type right) :
    Keeps type (mergeLocal rules left right) := by
  obtain ⟨merged, found, keeps, _⟩ := exists_merge?_of_keeps rules.hierarchy keepsLeft keepsRight
  rwa [mergeLocal, found, Option.getD_some]

theorem exists_mergeStackValue_of_keeps
    {type left right : SlotType}
    (rules : TypeRules)
    (keepsLeft : Keeps type left)
    (keepsRight : Keeps type right) :
    ∃ merged, mergeStackValue rules left right = .ok merged ∧ Keeps type merged := by
  obtain ⟨merged, found, keeps, lost⟩ :=
    exists_merge?_of_keeps rules.hierarchy keepsLeft keepsRight
  refine ⟨merged, ?_, keeps⟩
  simp only [mergeStackValue, found, pure, Except.pure, bind, Except.bind]
  rw [if_neg (by tauto)]

end SlotType

namespace FrameState

/-! ## Merging -/

/-- A stack stays as it is when it is merged with itself. -/
theorem mergeStacks_self
    (rules : TypeRules)
    (fixed : List Bool)
    (stack : List SlotType)
    (high : stack.length ≤ fixed.length) :
    mergeStacks rules fixed stack stack = .ok stack := by
  refine mergeStacks_eq_ok_iff.mpr ?_
  induction stack generalizing fixed with
  | nil => exact .nil
  | cons value stack inductionHypothesis =>
      cases fixed with
      | nil => simp at high
      | cons isFixed fixed =>
          refine .cons ?_ (inductionHypothesis fixed (by simpa using high))
          rw [SlotType.mergeStackValue_self, ite_self]

/-- A fixed stack stays as it is. -/
theorem mergeStacks_of_fixed
    {rules : TypeRules}
    {left right : List SlotType}
    (fixed : ∀ type ∈ left, type.isFixed = true)
    (heights : left.length = right.length) :
    mergeStacks rules (fixedPlaces left.length left) left right = .ok left := by
  refine mergeStacks_eq_ok_iff.mpr ?_
  have places : fixedPlaces left.length left = left.map SlotType.isFixed := by
    simp [fixedPlaces]
  rw [places]
  induction left generalizing right with
  | nil => exact .nil
  | cons value left inductionHypothesis =>
      cases right with
      | nil => simp at heights
      | cons other right =>
          rw [List.forall_mem_cons] at fixed
          refine .cons ?_
            (inductionHypothesis fixed.2 (by simpa using heights) (by simp [fixedPlaces]))
          rw [if_pos fixed.1]

/-- Declared types that are all fixed are taken over as far as they go. -/
theorem overlayTypes_of_fixed
    {types declared : List SlotType}
    (fixed : ∀ type ∈ declared, type.isFixed = true)
    (room : declared.length ≤ types.length) :
    overlayTypes types declared = declared ++ types.drop declared.length := by
  unfold overlayTypes
  congr 1
  induction declared generalizing types with
  | nil => simp
  | cons type declared inductionHypothesis =>
      cases types with
      | nil => simp at room
      | cons held types =>
          rw [List.forall_mem_cons] at fixed
          rw [List.zip_cons_cons, List.map_cons,
            inductionHypothesis fixed.2 (by simpa using room)]
          exact congrArg (· :: declared) (if_pos fixed.1)

/-! ## States near to what is expected -/

/-- Local variables reach up to a bound, and the place behind it keeps its type. -/
structure Arrives
    (bound : Nat)
    (kept : Option SlotType)
    (state : FrameState) : Prop where
  room : bound ≤ state.locals.length
  keeps : ∀ type ∈ kept, SlotType.Keeps type (state.locals.getD bound .top)

/-- A state has the expected types on the stack and below a bound; the place behind keeps its type. -/
structure Near
    (bound : Nat)
    (kept : Option SlotType)
    (state expected : FrameState) : Prop where
  alike : Alike SlotType.Expected bound state expected
  arrives : Arrives bound kept state
  expected : Arrives bound kept expected

/-- The value of the place behind the bound was loaded and is on top of the stack. -/
structure NearLoaded
    (bound : Nat)
    (type : SlotType)
    (state expected : FrameState) : Prop where
  loaded :
    ∃ value rest other expectedRest,
      state.stack = value :: rest ∧
        expected.stack = other :: expectedRest ∧
          SlotType.Keeps type value ∧
            Near bound (some type) ⟨state.locals, rest⟩ ⟨expected.locals, expectedRest⟩

/-- Declared types that an analysis takes over as they are. -/
structure Fixes
    (bound : Nat)
    (declared : FrameState) : Prop where
  stack : ∀ type ∈ declared.stack, type.isFixed = true ∧ type ≠ .unmerged
  locals : ∀ type ∈ declared.locals, type.isFixed = true ∧ type ≠ .unmerged
  length : declared.locals.length = bound

section Near

variable {bound : Nat} {kept : Option SlotType} {type : SlotType} {rules : TypeRules}
  {offset : UInt16} {existing : Option FrameState} {state other incoming expected : FrameState}

theorem eq_of_expected
    {stack expectedStack : List SlotType}
    (sameStacks : List.Forall₂ SlotType.Expected stack expectedStack) :
    stack = expectedStack := by
  induction sameStacks with
  | nil => rfl
  | cons first _ inductionHypothesis => rw [first.1, inductionHypothesis]

theorem expected_stack_self
    {stack : List SlotType}
    (known : ∀ type ∈ stack, type ≠ .unmerged) :
    List.Forall₂ SlotType.Expected stack stack :=
  List.forall₂_same.mpr fun type member => ⟨rfl, known type member⟩

theorem Arrives.mergeLocals
    (rules : TypeRules)
    (declared stack : List SlotType)
    (room : declared.length ≤ bound)
    (arrives : Arrives bound kept state)
    (arrivesOther : Arrives bound kept other) :
    Arrives bound kept ⟨mergeLocals rules declared state.locals other.locals, stack⟩ := by
  have higher := length_mergeLocals rules declared state.locals other.locals
  refine ⟨?_, fun type member => ?_⟩
  · have := arrives.room
    simp only
    omega
  · have unfixed : fixedAt declared bound = none := by
      rw [fixedAt, List.getElem?_eq_none room, Option.filter_none]
    simp only [getD_mergeLocals, unfixed, Option.isSome_none, Bool.false_eq_true, and_false, if_false]
    exact SlotType.keeps_mergeLocal rules (arrives.keeps type member) (arrivesOther.keeps type member)

/-- What is overlaid with declared types has them. -/
theorem spares_overlay
    {declared : FrameState}
    (fixes : Fixes bound declared)
    (arrives : Arrives bound kept state) :
    Spares (fun overlaid => Near bound kept overlaid declared)
      ((overlay state declared).mapError (WriteError.inconsistentFrame offset)) := by
  unfold overlay
  split
  · exact rfl
  · rename_i heights
    have heights : state.stack.length = declared.stack.length := by simpa using heights
    have stack :
        overlayTypes state.stack declared.stack = declared.stack := by
      rw [overlayTypes_of_fixed (fun type member => (fixes.stack type member).1) (by omega),
        List.drop_of_length_le (by omega), List.append_nil]
    have room : declared.locals.length ≤ state.locals.length := fixes.length ▸ arrives.room
    have locals :
        overlayTypes state.locals declared.locals =
          declared.locals ++ state.locals.drop declared.locals.length :=
      overlayTypes_of_fixed (fun type member => (fixes.locals type member).1) room
    have length := fixes.length
    have roomBehind : bound ≤ (overlayTypes state.locals declared.locals).length := by
      rw [length_overlayTypes]
      exact arrives.room
    refine
      ⟨⟨?_, ⟨roomBehind, by omega⟩, fun place below => ?_⟩, ⟨roomBehind, fun type member => ?_⟩,
        ⟨by omega, fun type member => ?_⟩⟩
    · rw [stack]
      exact expected_stack_self fun type member => (fixes.stack type member).2
    · have inside : place < declared.locals.length := by omega
      simp only [locals, List.getD_eq_getElem?_getD, List.getElem?_append_left inside,
        List.getElem?_eq_getElem inside, Option.getD_some]
      exact ⟨rfl, (fixes.locals _ (List.getElem_mem inside)).2⟩
    · have keeps := arrives.keeps type member
      simp only [locals, List.getD_eq_getElem?_getD]
      rw [List.getElem?_append_right (by omega), List.getElem?_drop]
      have place : declared.locals.length + (bound - declared.locals.length) = bound := by omega
      rwa [place, ← List.getD_eq_getElem?_getD]
    · rw [List.getD_eq_default _ _ (by omega)]
      exact SlotType.keeps_top type

/-- An instruction with declared types takes them over. -/
theorem spares_absorb_of_fixes
    {declared : FrameState}
    (found : rules.declared[offset]? = some declared)
    (fixes : Fixes bound declared)
    (held : ∀ state ∈ existing, Near bound kept state declared)
    (arrives : Arrives bound kept incoming) :
    Spares (fun absorbed => Near bound kept absorbed declared)
      (absorb rules offset existing incoming) := by
  unfold absorb
  simp only [found]
  cases existing with
  | none => exact spares_overlay fixes arrives
  | some state =>
      have near := held state rfl
      have same : state.stack = declared.stack := eq_of_expected near.alike.stack
      simp only [merge, Option.map_some, Option.getD_some]
      by_cases heights : state.stack.length = incoming.stack.length
      · have merged :
            mergeStacks rules (fixedPlaces state.stack.length declared.stack) state.stack
              incoming.stack = .ok state.stack := by
          rw [← same]
          exact mergeStacks_of_fixed
            (fun type member => (fixes.stack type (same ▸ member)).1) heights
        rw [if_neg (not_not.mpr heights), merged]
        exact spares_overlay fixes
          (near.arrives.mergeLocals rules _ state.stack (Nat.le_of_eq fixes.length) arrives)
      · rw [if_pos heights]
        exact rfl

/-- Near states of an instruction without declared types stay near when they are merged. -/
theorem spares_absorb_of_near
    (undeclared : rules.declared[offset]? = none)
    (held : ∀ state ∈ existing, Near bound kept state expected)
    (near : Near bound kept incoming expected) :
    Spares (fun absorbed => Near bound kept absorbed expected)
      (absorb rules offset existing incoming) := by
  unfold absorb
  simp only [undeclared]
  cases existing with
  | none => exact near
  | some state =>
      have nearState := held state rfl
      have same : state.stack = incoming.stack :=
        (eq_of_expected nearState.alike.stack).trans (eq_of_expected near.alike.stack).symm
      simp only [merge, same, ne_eq, not_true_eq_false, if_false, Option.map_none, Option.getD_none]
      rw [mergeStacks_self _ _ _ (by simp [fixedPlaces])]
      have arrives :=
        nearState.arrives.mergeLocals rules [] incoming.stack (Nat.zero_le bound) near.arrives
      refine ⟨⟨near.alike.stack, ⟨arrives.room, near.alike.room.2⟩, fun place below => ?_⟩,
        arrives, near.expected⟩
      have first := nearState.alike.locals place below
      have second := near.alike.locals place below
      have unfixed : fixedAt ([] : List SlotType) place = none := rfl
      simp only [getD_mergeLocals, unfixed, Option.isSome_none, Bool.false_eq_true, and_false,
        if_false]
      rw [first.1, second.1, SlotType.mergeLocal_self]
      exact ⟨rfl, first.1 ▸ first.2⟩

theorem spares_absorb_of_nearLoaded
    (undeclared : rules.declared[offset]? = none)
    (held : ∀ state ∈ existing, NearLoaded bound type state expected)
    (near : NearLoaded bound type incoming expected) :
    Spares (fun absorbed => NearLoaded bound type absorbed expected)
      (absorb rules offset existing incoming) := by
  unfold absorb
  simp only [undeclared]
  cases existing with
  | none => exact near
  | some state =>
      obtain ⟨value, rest, highest, expectedRest, shape, expectedShape, keeps, nearRest⟩ :=
        (held state rfl).loaded
      obtain ⟨value', rest', highest', expectedRest', shape', expectedShape', keeps', nearRest'⟩ :=
        near.loaded
      obtain ⟨rfl, rfl⟩ := List.cons.inj (expectedShape.symm.trans expectedShape')
      have same : rest = rest' :=
        (eq_of_expected nearRest.alike.stack).trans (eq_of_expected nearRest'.alike.stack).symm
      subst same
      obtain ⟨merged, found, keepsMerged⟩ :=
        SlotType.exists_mergeStackValue_of_keeps rules keeps keeps'
      have sameStacks :
          mergeStacks rules (fixedPlaces state.stack.length []) state.stack incoming.stack =
            .ok (merged :: rest) := by
        have below := mergeStacks_self rules (fixedPlaces rest.length []) rest (by simp [fixedPlaces])
        rw [shape, shape', mergeStacks_eq_ok_iff]
        have places :
            fixedPlaces (value :: rest).length [] = false :: fixedPlaces rest.length [] := by
          simp [fixedPlaces, List.replicate_succ]
        rw [places]
        exact .cons found (mergeStacks_eq_ok_iff.mp below)
      have heights : state.stack.length = incoming.stack.length := by simp [shape, shape']
      simp only [merge, ne_eq, heights, not_true_eq_false, if_false, Option.map_none,
        Option.getD_none]
      rw [← heights, sameStacks]
      -- Below the value that was loaded the states are near.
      have lower :
          Spares (fun absorbed => Near bound (some type) absorbed ⟨expected.locals, expectedRest⟩)
            (absorb rules offset (some ⟨state.locals, rest⟩) ⟨incoming.locals, rest⟩) :=
        spares_absorb_of_near undeclared (by rintro _ ⟨⟩; exact nearRest) nearRest'
      unfold absorb at lower
      simp only [undeclared, merge, ne_eq, not_true_eq_false, if_false, Option.map_none,
        Option.getD_none] at lower
      rw [mergeStacks_self _ _ _ (by simp [fixedPlaces])] at lower
      exact ⟨merged, rest, highest, expectedRest, rfl, expectedShape, keepsMerged, lower⟩

end Near

end FrameState

/-! ## Steps -/

/-- A type is that of an object that has no class yet. -/
def SlotType.isUninitialized : SlotType → Bool
  | .uninitializedThis | .uninitialized _ => true
  | _ => false

namespace Insn

open FrameState

section Steps

variable {context : StepContext} {offset : UInt16} {insn : Insn} {bound : Nat}
  {kept : Option SlotType} {type : SlotType} {state behind expected : FrameState}

/-- A step that does not touch the place behind the bound leaves it as it is. -/
theorem arrives_of_step
    (arrives : Arrives bound kept state)
    (inside : ∀ access, insn.access? = some access → access.index.toNat < bound)
    (constructs :
      ∀ type ∈ kept, ∀ count receiver,
        Constructs context.pool insn count →
          state.stack[count]? = some receiver → receiver ≠ type ∧ receiver ≠ .top)
    (found : insn.step context offset state = .ok behind) :
    Arrives bound kept behind := by
  have left := localsBehind_of_step found
  refine ⟨Nat.le_trans arrives.room left.length_le, fun type member => ?_⟩
  have keeps := arrives.keeps type member
  generalize behind.locals = locals at left
  cases left with
  | same => exact keeps
  | @stored access value rest accessed isStore popped =>
      have below := inside access accessed
      rw [getD_storeLocal, if_neg (by omega)]
      split
      · exact SlotType.keeps_top type
      · rw [if_neg (by omega)]
        exact keeps
  | @constructed count receiver owner calls called =>
      have other := constructs type member count receiver calls called
      by_cases there : bound < state.locals.length
      · rw [getD_map_replace _ _ there]
        rcases keeps with held | held
        · rw [held, if_neg (Ne.symm other.1)]
          exact .inl rfl
        · rw [held, if_neg (Ne.symm other.2)]
          exact .inr rfl
      · rw [List.getD_eq_default _ _ (by simpa using there)]
        exact SlotType.keeps_top type

/-- A step below the bound from a near state leads to a near one. -/
theorem spares_step_of_near
    (near : Near bound kept state expected)
    (inside : ∀ access, insn.access? = some access → access.index.toNat < bound)
    (hasClass : ∀ type ∈ kept, type.isUninitialized = false)
    (constructs :
      kept.isSome = true →
        ∀ count,
          Constructs context.pool insn count →
            ∃ receiver, expected.stack[count]? = some receiver ∧ receiver.isUninitialized = true) :
    Spares
      (fun behind =>
        ∃ next, insn.step context offset expected = .ok next ∧ Near bound kept behind next)
      (insn.step context offset state) := by
  have same : state.stack = expected.stack := eq_of_expected near.alike.stack
  have other :
      ∀ type ∈ kept, ∀ count receiver,
        Constructs context.pool insn count →
          expected.stack[count]? = some receiver → receiver ≠ type ∧ receiver ≠ .top := by
    intro type member count receiver calls called
    obtain ⟨found, foundAt, uninitialized⟩ :=
      constructs (Option.isSome_of_mem member) count calls
    obtain rfl := Option.some.inj (called.symm.trans foundAt)
    constructor
    · rintro rfl
      rw [hasClass receiver member] at uninitialized
      cases uninitialized
    · rintro rfl
      cases uninitialized
  have stepped :
      Spares (fun behind => insn.step context offset state = .ok behind)
        (insn.step context offset state) := by
    refine spares_step fun _ access accessed _ unmerged => ?_
    have held := near.alike.locals access.index.toNat (inside access accessed)
    rw [List.getD_eq_getElem?_getD, unmerged] at held
    exact held.2 rfl
  refine stepped.imp fun behind found => ?_
  obtain ⟨next, foundNext, alike⟩ :=
    follows_step SlotType.renames_expected (.refl _) rfl
      (SlotType.expected_self (by exact nofun))
      (fun access accessed _ => inside access accessed) near.alike behind found
  refine ⟨next, foundNext, alike, ?_, ?_⟩
  · exact arrives_of_step near.arrives inside (same ▸ other) found
  · exact arrives_of_step near.expected inside other foundNext

/-- Storing to the place behind the bound makes it keep what was on top of the stack. -/
theorem spares_step_of_store
    {slot : UInt16}
    {rest : List SlotType}
    (near : Near bound none state expected)
    (isStore : insn = .slot Opcode.lstore slot)
    (place : slot.toNat = bound)
    (shape : expected.stack = type :: rest) :
    Spares
      (fun behind =>
        ∃ next, insn.step context offset expected = .ok next ∧ Near bound (some type) behind next)
      (insn.step context offset state) := by
  subst isStore
  have stateShape : state.stack = type :: rest :=
    (eq_of_expected near.alike.stack).trans shape
  have step (held : FrameState) (heldShape : held.stack = type :: rest) :
      (Insn.slot Opcode.lstore slot).step context offset held =
        .ok ⟨storeLocal held.locals slot type, rest⟩ := by
    show accessLocal context offset held ⟨slot, 2, true⟩ = _
    simp only [accessLocal, heldShape, pop, if_true]
    rfl
  have stored (held : FrameState) (room : bound ≤ held.locals.length) :
      Arrives bound (some type) ⟨storeLocal held.locals slot type, rest⟩ := by
    refine ⟨Nat.le_trans room (length_storeLocal ..), ?_⟩
    rintro _ ⟨⟩
    simp only [getD_storeLocal, place, if_true]
    exact .inl rfl
  have sameStacks := near.alike.stack
  rw [stateShape, shape] at sameStacks
  rw [step state stateShape]
  refine ⟨_, step expected shape, ?_, stored state near.arrives.room,
    stored expected near.expected.room⟩
  cases sameStacks with
  | cons top below =>
      exact (near.alike.withStack below).storeLocal slot SlotType.renames_expected top

/-- What is loaded from the place behind the bound is what the place keeps. -/
theorem spares_step_of_load
    {slot : UInt16}
    (near : Near bound (some type) state expected)
    (known : type ≠ .unmerged)
    (isLoad : insn = .slot Opcode.lload slot)
    (place : slot.toNat = bound) :
    Spares
      (fun behind =>
        ∃ next, insn.step context offset expected = .ok next ∧ NearLoaded bound type behind next)
      (insn.step context offset state) := by
  subst isLoad
  have step (held : FrameState) (arrives : Arrives bound (some type) held) :
      (Insn.slot Opcode.lload slot).step context offset held =
        .ok { held with stack := held.locals.getD bound .top :: held.stack } := by
    have keeps := (arrives.keeps type rfl).ne_unmerged known
    have loaded :
        loadLocal context offset held.locals slot = .ok (held.locals.getD bound .top) := by
      unfold loadLocal
      rw [place]
      rw [List.getD_eq_getElem?_getD] at keeps ⊢
      cases found : held.locals[bound]? with
      | none => rfl
      | some value =>
          rw [found, Option.getD_some] at keeps
          cases value <;> first | rfl | exact absurd rfl keeps
    show accessLocal context offset held ⟨slot, 2, false⟩ = _
    simp only [accessLocal, Bool.false_eq_true, if_false, loaded]
    rfl
  rw [step state near.arrives]
  exact ⟨_, step expected near.expected,
    ⟨_, _, _, _, rfl, rfl, near.arrives.keeps type rfl, near⟩⟩

/-- A subtraction takes the value that was loaded off. -/
theorem spares_step_of_combine
    (loaded : NearLoaded bound type state expected)
    (isCombine : insn = .plain Opcode.lsub) :
    Spares
      (fun behind =>
        ∃ next, insn.step context offset expected = .ok next ∧ Near bound (some type) behind next)
      (insn.step context offset state) := by
  subst isCombine
  obtain ⟨value, rest, other, expectedRest, shape, expectedShape, _, near⟩ := loaded.loaded
  have same : rest = expectedRest := eq_of_expected near.alike.stack
  subst same
  have step (held : FrameState) :
      (Insn.plain Opcode.lsub).step context offset held =
        onStack offset held (replaceTop 2 .long) :=
    rfl
  rw [step, step]
  cases rest with
  | nil =>
      simp only [onStack, replaceTop, popMany, pop, shape, bind, Except.bind, Except.mapError]
      exact rfl
  | cons second below =>
      have replaced
          (held : FrameState)
          (head : SlotType)
          (heldShape : held.stack = head :: second :: below) :
          onStack offset held (replaceTop 2 .long) = .ok { held with stack := .long :: below } := by
        simp only [onStack, replaceTop, popMany, pop, heldShape, bind, Except.bind,
          Except.mapError, pure, Except.pure]
      have sameStacks := near.alike.stack
      rw [replaced state value shape]
      refine ⟨_, replaced expected other expectedShape, ?_, ⟨near.arrives.room, near.arrives.keeps⟩,
        ⟨near.expected.room, near.expected.keeps⟩⟩
      cases sameStacks with
      | cons _ rest =>
          exact near.alike.withStack (.cons (SlotType.expected_self (by simp)) rest)

end Steps

end Insn
end JvmClass
