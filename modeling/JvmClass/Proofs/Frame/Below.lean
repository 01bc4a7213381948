import JvmClass.Proofs.Frame.Absorbing
import JvmClass.Proofs.Frame.Near
import JvmClass.Proofs.Hierarchy.Least

namespace JvmClass

/-!
# The order of states

A type is below itself, below `top`, and as a reference below its supertypes.
What two states merge to is the least state above both, and a step from a lower
state leads to a lower state, provided that the instruction does not mistake what
the higher state holds for something else.
-/

namespace SlotType

/-- A value of the first type may be taken for one of the second. -/
inductive Below (hierarchy : Hierarchy) : SlotType → SlotType → Prop where
  | refl (type : SlotType) : Below hierarchy type type
  | top (type : SlotType) : Below hierarchy type .top
  | null (name : String) : Below hierarchy .null (.object name)
  | object {left right : String} :
      hierarchy.Supertype left.toList right.toList →
      Below hierarchy (.object left) (.object right)

/-- A type is known, and the hierarchy knows how its class is related to the root. -/
def Grounded (hierarchy : Hierarchy) : SlotType → Prop
  | .object name => hierarchy.Grounded name.toList
  | .unmerged => False
  | _ => True

section Types

variable {hierarchy : Hierarchy} {left middle right type : SlotType}

theorem Below.trans
    (classes : hierarchy.RelatesClasses)
    (below : Below hierarchy left middle)
    (above : Below hierarchy middle right) :
    Below hierarchy left right := by
  cases below with
  | refl => exact above
  | top =>
      cases above with
      | refl | top => exact .top _
  | null name =>
      cases above with
      | refl => exact .null name
      | top => exact .top _
      | object => exact .null _
  | object below =>
      cases above with
      | refl => exact .object below
      | top => exact .top _
      | object above => exact .object (below.trans classes above)

/-- Nothing wide is above a narrow value. -/
theorem keepsNarrow_below (hierarchy : Hierarchy) : FrameState.KeepsNarrow (Below hierarchy) := by
  intro type other below narrow
  cases below with
  | refl => exact narrow
  | top | null | object => rfl

/-- What is above a wide value is the value itself or may be anything. -/
theorem Below.eq_of_wide
    (below : Below hierarchy left right)
    (wide : left.isWide = true) :
    right = left ∨ right = .top := by
  cases below with
  | refl => exact .inl rfl
  | top => exact .inr rfl
  | null | object => cases wide

/-- Nothing else is below an object without a class. -/
theorem Below.eq_of_uninitialized
    (below : Below hierarchy left right)
    (uninitialized : right.isUninitialized = true) :
    left = right := by
  cases below with
  | refl => rfl
  | top | null | object => cases uninitialized

theorem Below.eq_of_unmerged (below : Below hierarchy left .unmerged) : left = .unmerged := by
  cases below
  rfl

theorem Grounded.ne_unmerged (grounded : type.Grounded hierarchy) : type ≠ .unmerged := by
  rintro rfl
  exact grounded

theorem grounded_ofKind (kind : ValueKind) : (ofKind kind).Grounded hierarchy := by
  cases kind with
  | reference => exact Hierarchy.grounded_objectName
  | _ => trivial

/-! ## Elements of arrays -/

/-- An array of references as its elements; anything else counts as an array of the root. -/
theorem elementOf_cases (type : SlotType) :
    type.elementOf = .object objectName ∨
      ∃ element component,
        type = .object (String.ofList ('[' :: element)) ∧
          ClassName.component? element = some component ∧
            type.elementOf = .object (String.ofList component) := by
  cases type with
  | object name =>
      unfold elementOf
      simp only
      split
      · rename_i element shape
        split
        · rename_i component held
          refine .inr ⟨element, component, ?_, held, rfl⟩
          rw [← shape, String.ofList_toList]
        · exact .inl rfl
      · exact .inl rfl
  | _ => exact .inl rfl

theorem Grounded.elementOf (grounded : type.Grounded hierarchy) :
    type.elementOf.Grounded hierarchy := by
  rcases type.elementOf_cases with root | ⟨element, component, rfl, held, shape⟩
  · rw [root]
    exact Hierarchy.grounded_objectName
  · rw [shape]
    have array : hierarchy.Grounded ('[' :: element) := by simpa [Grounded] using grounded
    simpa [Grounded] using array.component held

theorem elementOf_array
    {element component : List Char}
    (held : ClassName.component? element = some component) :
    (SlotType.object (String.ofList ('[' :: element))).elementOf =
      .object (String.ofList component) := by
  simp [SlotType.elementOf, held]

/-- Every element may be taken for an object of the root class. -/
theorem elementOf_below_root (type : SlotType) :
    Below hierarchy type.elementOf (.object objectName) := by
  rcases type.elementOf_cases with root | ⟨_, _, _, _, shape⟩
  · rw [root]
    exact .refl _
  · rw [shape]
    exact .object (.root _)

/-- The elements of a lower array are lower; nothing is known of what `null` would hold. -/
theorem Below.elementOf
    (classes : hierarchy.RelatesClasses)
    (below : Below hierarchy left right)
    (filled : left = .null → right.elementOf = .object objectName) :
    Below hierarchy left.elementOf right.elementOf := by
  cases below with
  | refl => exact .refl _
  | top => exact elementOf_below_root left
  | null name =>
      rw [filled rfl]
      exact elementOf_below_root .null
  | @object left right below =>
      rcases (SlotType.object right).elementOf_cases with root | ⟨element, wider, shape, held, rightElement⟩
      · rw [root]
        exact elementOf_below_root _
      · obtain rfl := SlotType.object.inj shape
        rw [String.toList_ofList] at below
        by_cases array : ∃ rest, left.toList = '[' :: rest
        · obtain ⟨rest, leftShape⟩ := array
          obtain rfl : left = String.ofList ('[' :: rest) := by rw [← leftShape, String.ofList_toList]
          rw [leftShape] at below
          rcases below.of_array classes with isRoot | same | ⟨_, component, _, same, leftHeld, rightHeld, above⟩
          · exact absurd isRoot.symm (Hierarchy.objectName_ne_array _)
          · rw [same]
            exact .refl _
          · obtain ⟨_, rfl⟩ := List.cons.inj same
            rw [held] at rightHeld
            cases rightHeld
            rw [elementOf_array leftHeld, rightElement]
            exact .object (by simpa using above)
        · have noArray : ∀ rest, left.toList ≠ '[' :: rest := by simpa using array
          rcases below.of_class classes noArray with isRoot | ⟨super, same, reached⟩
          · exact absurd isRoot.symm (Hierarchy.objectName_ne_array _)
          · rw [String.ofList_toList] at reached
            exact absurd same.symm (classes.noArray_of_reaches noArray reached element)

/-! ## Merging -/

/-- Two grounded types merge to the least type above both. -/
structure LeastAbove
    (hierarchy : Hierarchy)
    (left right merged : SlotType) : Prop where
  grounded : merged.Grounded hierarchy
  least :
    ∀ type, Below hierarchy left type → Below hierarchy right type → Below hierarchy merged type

theorem exists_merge?_of_grounded
    (classes : hierarchy.RelatesClasses)
    (leftGrounded : left.Grounded hierarchy)
    (rightGrounded : right.Grounded hierarchy) :
    ∃ merged, merge? hierarchy left right = some merged ∧ LeastAbove hierarchy left right merged := by
  unfold merge?
  split
  · exact ⟨left, rfl, leftGrounded, fun _ below _ => below⟩
  · rename_i different
    split
    · exact ⟨_, rfl, rightGrounded, fun _ _ below => below⟩
    · exact ⟨_, rfl, leftGrounded, fun _ below _ => below⟩
    · rename_i left right
      obtain ⟨common, found, grounded, least⟩ :=
        Hierarchy.exists_leastCommon classes leftGrounded rightGrounded
      refine ⟨.object (String.ofList common), by simp [Hierarchy.commonSuperclass?, found], ?_⟩
      refine ⟨by simpa [Grounded] using grounded, fun type onLeft onRight => ?_⟩
      have above {name : String} (leftBelow : hierarchy.Supertype left.toList name.toList)
          (rightBelow : hierarchy.Supertype right.toList name.toList) :
          Below hierarchy (.object (String.ofList common)) (.object name) :=
        .object (by simpa using least name.toList leftBelow rightBelow)
      cases onLeft with
      | top => exact .top _
      | refl =>
          cases onRight with
          | refl => exact absurd rfl different
          | object rightBelow => exact above (.refl _) rightBelow
      | object leftBelow =>
          cases onRight with
          | refl => exact above leftBelow (.refl _)
          | object rightBelow => exact above leftBelow rightBelow
    · exact leftGrounded.elim
    · exact leftGrounded.elim
    · exact rightGrounded.elim
    · exact rightGrounded.elim
    · refine ⟨.top, rfl, trivial, fun type onLeft onRight => ?_⟩
      cases onLeft <;> cases onRight <;> first | exact .top _ | simp_all

end Types

end SlotType

namespace FrameState

/-- Two stacks of one height go together place by place. -/
theorem forall₂_iff_getD
    {related : SlotType → SlotType → Prop}
    {left right : List SlotType} :
    List.Forall₂ related left right ↔
      left.length = right.length ∧
        ∀ place < left.length, related (left.getD place .top) (right.getD place .top) := by
  rw [List.forall₂_iff_get]
  constructor
  · rintro ⟨heights, places⟩
    refine ⟨heights, fun place inside => ?_⟩
    rw [List.getD_eq_getElem _ _ inside, List.getD_eq_getElem _ _ (heights ▸ inside)]
    exact places place inside (heights ▸ inside)
  · rintro ⟨heights, places⟩
    refine ⟨heights, fun place inside outside => ?_⟩
    have held := places place inside
    rwa [List.getD_eq_getElem _ _ inside, List.getD_eq_getElem _ _ outside] at held

/-! ## States -/

/-- A state is below another slot by slot; a local variable that is missing holds `top`. -/
structure Below (hierarchy : Hierarchy) (left right : FrameState) : Prop where
  stack : List.Forall₂ (SlotType.Below hierarchy) left.stack right.stack
  locals :
    ∀ place,
      SlotType.Below hierarchy (left.locals.getD place .top) (right.locals.getD place .top)

/-- Every type of a state is grounded. -/
structure Grounded (hierarchy : Hierarchy) (state : FrameState) : Prop where
  stack : ∀ type ∈ state.stack, type.Grounded hierarchy
  locals : ∀ place, (state.locals.getD place .top).Grounded hierarchy

section States

variable {hierarchy : Hierarchy} {rules : TypeRules} {offset : UInt16}
  {left middle right state bound incoming merged : FrameState}

theorem Below.refl (state : FrameState) : Below hierarchy state state :=
  ⟨List.forall₂_same.mpr fun type _ => .refl type, fun _ => .refl _⟩

theorem Below.trans
    (classes : hierarchy.RelatesClasses)
    (below : Below hierarchy left middle)
    (above : Below hierarchy middle right) :
    Below hierarchy left right := by
  refine ⟨?_, fun place => (below.locals place).trans classes (above.locals place)⟩
  have length := below.stack.length_eq.trans above.stack.length_eq
  refine List.forall₂_iff_get.mpr ⟨length, fun place inside outside => ?_⟩
  have between : place < middle.stack.length := by rw [← below.stack.length_eq]; exact inside
  exact (below.stack.get inside between).trans classes (above.stack.get between outside)

/-- A lower state is lower as a handler finds it. -/
theorem Below.caught
    (below : Below hierarchy left right)
    (type : SlotType) :
    Below hierarchy ⟨left.locals, [type]⟩ ⟨right.locals, [type]⟩ :=
  ⟨.cons (.refl type) .nil, below.locals⟩

/--
A state that is absorbed where no frame is declared stays grounded, and gives the
least state above it and the one that was there.
-/
theorem least_of_absorb
    {existing : Option FrameState}
    (classes : rules.hierarchy.RelatesClasses)
    (free : rules.declared[offset]? = none)
    (existingGrounded : ∀ state ∈ existing, state.Grounded rules.hierarchy)
    (incomingGrounded : incoming.Grounded rules.hierarchy)
    (found : absorb rules offset existing incoming = .ok merged) :
    merged.Grounded rules.hierarchy ∧
      ∀ bound,
        (∀ state ∈ existing, state.Below rules.hierarchy bound) →
          incoming.Below rules.hierarchy bound → merged.Below rules.hierarchy bound := by
  obtain ⟨state, reached, overlaid⟩ := merged_overlaid_of_absorb found
  rw [free] at reached overlaid
  obtain ⟨_, rfl⟩ | ⟨_, impossible, _⟩ := overlaid
  · rcases reached with ⟨rfl, rfl⟩ | ⟨held, rfl, mergedFound⟩
    · exact ⟨incomingGrounded, fun bound _ below => below⟩
    · have heldGrounded := existingGrounded held rfl
      have merges := merges_of_merge mergedFound
      have locals (place : Nat) :
          SlotType.LeastAbove rules.hierarchy (held.locals.getD place .top)
            (incoming.locals.getD place .top) (merged.locals.getD place .top) := by
        obtain ⟨type, typeFound, least⟩ :=
          SlotType.exists_merge?_of_grounded classes (heldGrounded.locals place)
            (incomingGrounded.locals place)
        rw [← merges.locals place rfl, SlotType.mergeLocal, typeFound]
        exact least
      have stack (place : Nat) (inside : place < held.stack.length) :
          SlotType.LeastAbove rules.hierarchy (held.stack.getD place .top)
            (incoming.stack.getD place .top) (merged.stack.getD place .top) := by
        have value := merges.stack place inside rfl
        obtain ⟨type, typeFound, least⟩ :=
          SlotType.exists_merge?_of_grounded classes
            (getD_of_forall trivial heldGrounded.stack place)
            (getD_of_forall trivial incomingGrounded.stack place)
        rcases SlotType.merge?_of_mergeStackValue value with found | ⟨_, missing, _⟩
        · rw [typeFound, Option.some.injEq] at found
          exact found ▸ least
        · rw [typeFound] at missing
          cases missing
      refine ⟨⟨fun type member => ?_, fun place => (locals place).grounded⟩, fun bound heldBelow below => ?_⟩
      · obtain ⟨place, inside, rfl⟩ := List.getElem_of_mem member
        have grounded := (stack place (merges.height ▸ inside)).grounded
        rwa [List.getD_eq_getElem _ _ inside] at grounded
      · have heldBelow := heldBelow held rfl
        obtain ⟨height, heldPlaces⟩ := forall₂_iff_getD.mp heldBelow.stack
        obtain ⟨_, places⟩ := forall₂_iff_getD.mp below.stack
        refine ⟨forall₂_iff_getD.mpr ⟨merges.height.trans height, fun place inside => ?_⟩, fun place => ?_⟩
        · have inside := merges.height ▸ inside
          exact (stack place inside).least _ (heldPlaces place inside)
            (places place (merges.heights ▸ inside))
        · exact (locals place).least _ (heldBelow.locals place) (below.locals place)
  · cases impossible

/-! ## What steps do to lower states -/

theorem carries_below (hierarchy : Hierarchy) :
    Carries (SlotType.Below hierarchy) (Below hierarchy) where
  narrow := SlotType.keepsNarrow_below hierarchy
  stack _ _ below := below.stack
  withStack _ _ _ _ below sameStacks := ⟨sameStacks, below.locals⟩

/-- Storing a lower value of the same width gives a lower state. -/
theorem Below.storeLocal
    {value other : SlotType}
    (index : UInt16)
    (below : Below hierarchy left right)
    (goes : SlotType.Below hierarchy value other)
    (widths : value.isWide = other.isWide) :
    Below hierarchy { left with locals := storeLocal left.locals index value }
      { right with locals := FrameState.storeLocal right.locals index other } := by
  refine ⟨below.stack, fun place => ?_⟩
  have held := below.locals place
  simp only [getD_storeLocal, widths]
  split
  · exact goes
  · split
    · exact .refl _
    · by_cases torn : place + 1 = index.toNat ∧ (left.locals.getD place .top).isWide = true
      · -- What reached into the place is lost on both sides, if the higher state still held it.
        rcases held.eq_of_wide torn.2 with same | lost
        · rw [same]
          exact .refl _
        · rw [if_pos torn, lost, ite_self]
          exact .refl _
      · have kept :
            ¬(place + 1 = index.toNat ∧ (right.locals.getD place .top).isWide = true) := by
          rintro ⟨next, wide⟩
          have narrow := SlotType.keepsNarrow_below hierarchy _ _ held (by simpa [next] using torn)
          rw [narrow] at wide
          cases wide
        rw [if_neg torn, if_neg kept]
        exact held

/-- Giving an object its class gives a lower state. -/
theorem Below.replaceType
    {receiver : SlotType}
    (uninitialized : receiver.isUninitialized = true)
    (owner : String)
    (below : Below hierarchy left right) :
    Below hierarchy (replaceType receiver (.object owner) left)
      (FrameState.replaceType receiver (.object owner) right) := by
  have known : receiver ≠ .top := by
    rintro rfl
    cases uninitialized
  have replaced {first second : SlotType} (held : SlotType.Below hierarchy first second) :
      SlotType.Below hierarchy (if first = receiver then .object owner else first)
        (if second = receiver then .object owner else second) := by
    by_cases here : second = receiver
    · obtain rfl := held.eq_of_uninitialized (here ▸ uninitialized)
      exact .refl _
    · rw [if_neg here]
      split
      · rename_i same
        subst same
        cases held with
        | refl => exact absurd rfl here
        | top => exact .top _
        | null | object => cases uninitialized
      · exact held
  refine ⟨?_, fun place => ?_⟩
  · exact List.forall₂_map_left_iff.mpr
      (List.forall₂_map_right_iff.mpr (below.stack.imp fun _ _ => replaced))
  · simp only [FrameState.replaceType, getD_map_replace_of_ne known]
    exact replaced (below.locals place)

theorem follows_accessLocal_of_below
    {context : StepContext}
    {access : SlotAccess}
    (known : left.Grounded hierarchy)
    (widths :
      access.isStore = true →
        (left.stack.take 1).map SlotType.isWide = (right.stack.take 1).map SlotType.isWide)
    (below : Below hierarchy left right) :
    Follows (Below hierarchy) (accessLocal context offset left access)
      (accessLocal context offset right access) := by
  unfold accessLocal
  split
  · rename_i isStore
    refine (follows_pop below.stack).mapError.bind_of_ok fun first second popped otherPopped goes => ?_
    have sameWidths := widths isStore
    rw [pop_eq_ok_iff.mp (mapError_eq_ok_iff.mp popped),
      pop_eq_ok_iff.mp (mapError_eq_ok_iff.mp otherPopped)] at sameWidths
    have behind : Below hierarchy { left with stack := first.2 } { right with stack := second.2 } :=
      ⟨goes.2, below.locals⟩
    exact follows_ok (behind.storeLocal access.index goes.1 (by simpa using sameWidths))
  · have held := below.locals access.index.toNat
    have leftKnown := (known.locals access.index.toNat).ne_unmerged
    have rightKnown : right.locals.getD access.index.toNat .top ≠ .unmerged := by
      intro unknown
      rw [unknown] at held
      exact leftKnown held.eq_of_unmerged
    rw [loadLocal_of_known _ _ leftKnown, loadLocal_of_known _ _ rightKnown]
    exact follows_ok ((carries_below hierarchy).push below held)

/-- Storing to or loading from grounded local variables keeps a state grounded. -/
theorem grounded_of_accessLocal
    {context : StepContext}
    {access : SlotAccess}
    {behind : FrameState}
    (grounded : state.Grounded hierarchy)
    (found : accessLocal context offset state access = .ok behind) :
    behind.Grounded hierarchy := by
  unfold accessLocal at found
  split at found
  · obtain ⟨⟨value, rest⟩, popped, built⟩ := bind_eq_ok_iff.mp found
    cases built
    have shape := pop_eq_ok_iff.mp (mapError_eq_ok_iff.mp popped)
    have stack := grounded.stack
    rw [shape, List.forall_mem_cons] at stack
    refine ⟨stack.2, fun place => ?_⟩
    simp only [getD_storeLocal]
    repeat' split
    · exact stack.1
    · trivial
    · trivial
    · exact grounded.locals place
  · have held := grounded.locals access.index.toNat
    rw [loadLocal_of_known _ _ held.ne_unmerged] at found
    cases found
    exact ⟨List.forall_mem_cons.mpr ⟨held, grounded.stack⟩, grounded.locals⟩

/-- Giving an object a grounded class keeps a state grounded. -/
theorem Grounded.replaceType
    {new : SlotType}
    (old : SlotType)
    (newGrounded : new.Grounded hierarchy)
    (grounded : state.Grounded hierarchy) :
    (replaceType old new state).Grounded hierarchy := by
  refine ⟨fun type member => ?_, fun place => ?_⟩
  · obtain ⟨held, among, rfl⟩ := List.mem_map.mp member
    split
    · exact newGrounded
    · exact grounded.stack held among
  · by_cases inside : place < state.locals.length
    · simp only [FrameState.replaceType]
      rw [getD_map_replace _ _ inside]
      split
      · exact newGrounded
      · exact grounded.locals place
    · rw [List.getD_eq_default _ _ (by simpa [FrameState.replaceType] using inside)]
      trivial

end States

end FrameState

namespace Insn

open FrameState

/--
The state that stands above the one before an instruction holds what the
instruction takes it for: values of the widths that are measured, an object
without a class where a constructor is called, and an array of the elements that
an absent one counts as having.
-/
structure Suits
    (pool : Pool)
    (insn : Insn)
    (state bound : FrameState) : Prop where
  widths :
    (insn.measured state.stack).map SlotType.isWide =
      (insn.measured bound.stack).map SlotType.isWide
  receiver :
    ∀ count receiver,
      Constructs pool insn count →
        bound.stack[count]? = some receiver → receiver.isUninitialized = true
  element :
    insn.action? = some (.loadElement .reference) →
      state.stack[1]? = some .null →
        ∀ array, bound.stack[1]? = some array → array.elementOf = .object objectName

section Steps

variable {hierarchy : Hierarchy} {context : StepContext} {offset : UInt16} {insn : Insn}
  {left right state behind : FrameState}

/--
What `Suits.widths` is for: one wide value is popped, but two values where it is
only known as one that may be anything.
-/
theorem not_follows_of_pop2 :
    FrameState.Below hierarchy ⟨[], [.long, .integer]⟩ ⟨[], [.top, .integer]⟩ ∧
      (plain 0x58).step context offset ⟨[], [.long, .integer]⟩ = .ok ⟨[], [.integer]⟩ ∧
      (plain 0x58).step context offset ⟨[], [.top, .integer]⟩ = .ok ⟨[], []⟩ ∧
      ¬ FrameState.Below hierarchy ⟨[], [.integer]⟩ ⟨[], []⟩ := by
  refine ⟨⟨.cons (.top _) (.cons (.refl _) .nil), fun _ => .refl _⟩, rfl, rfl, fun below => ?_⟩
  cases below.stack

/--
What `Suits.receiver` is for: a constructor whose receiver is only known as a
value that may be anything makes an object of its class of every such value.
-/
theorem not_follows_of_constructor (owner : String) :
    FrameState.Below hierarchy ⟨[.integer], [.uninitialized 0]⟩ ⟨[.top], [.top]⟩ ∧
      invoke context offset true ⟨owner, "<init>", "()V"⟩ ⟨[.integer], [.uninitialized 0]⟩ =
        .ok ⟨[.integer], []⟩ ∧
      invoke context offset true ⟨owner, "<init>", "()V"⟩ ⟨[.top], [.top]⟩ =
        .ok ⟨[.object owner], []⟩ ∧
      ¬ FrameState.Below hierarchy ⟨[.integer], []⟩ ⟨[.object owner], []⟩ := by
  have typed : MethodType.ofDescriptor "()V" = .ok ⟨[], none⟩ := by decide +kernel
  have anywhere (place : Nat) :
      SlotType.Below hierarchy ([SlotType.integer].getD place .top)
        ([SlotType.top].getD place .top) := by
    cases place with
    | zero => exact .top _
    | succ => exact .refl _
  refine ⟨⟨.cons (.top _) .nil, anywhere⟩, ?_, ?_, fun below => ?_⟩
  · simp [invoke, typed, popMany, pop, replaceType, bind, Except.bind, pure, Except.pure,
      Except.mapError]
  · simp [invoke, typed, popMany, pop, replaceType, bind, Except.bind, pure, Except.pure,
      Except.mapError]
  · cases below.locals 0

/-- An instruction leads from a lower state to a lower state. -/
theorem follows_step_of_below
    (classes : hierarchy.RelatesClasses)
    (known : left.Grounded hierarchy)
    (suits : insn.Suits context.pool left right)
    (below : left.Below hierarchy right) :
    Follows (FrameState.Below hierarchy) (insn.step context offset left)
      (insn.step context offset right) := by
  refine follows_step_of_treats (carries_below hierarchy) (.refl _) rfl ?_ below
  exact {
    introduced := fun type _ => .refl type
    created := .refl _
    widths := suits.widths
    element := by
      intro acts array otherArray held otherHeld
      refine (related_of_getElem? below.stack held otherHeld).elementOf classes ?_
      rintro rfl
      exact suits.element acts held otherArray otherHeld
    transfers := by
      intro access transfers
      refine follows_accessLocal_of_below known (fun isStore => ?_) below
      have widths := suits.widths
      rwa [measured_of_store _ transfers isStore, measured_of_store _ transfers isStore] at widths
    constructs := by
      intro count receiver otherReceiver constructs held otherHeld
      have uninitialized := suits.receiver count otherReceiver constructs otherHeld
      obtain rfl := (related_of_getElem? below.stack held otherHeld).eq_of_uninitialized uninitialized
      exact ⟨Iff.rfl, fun owner _ _ _ below => below.replaceType uninitialized owner⟩ }

/-- States that are the same and grounded go together. -/
theorem carries_grounded (hierarchy : Hierarchy) :
    Carries (fun type other => other = type ∧ type.Grounded hierarchy)
      (fun left right => right = left ∧ left.Grounded hierarchy) where
  narrow := by
    rintro type _ ⟨rfl, _⟩ narrow
    exact narrow
  stack := by
    rintro left _ ⟨rfl, grounded⟩
    exact List.forall₂_same.mpr fun type member => ⟨rfl, grounded.stack type member⟩
  withStack := by
    rintro left _ first second ⟨rfl, grounded⟩ both
    have same : second = first ∧ ∀ type ∈ first, type.Grounded hierarchy := by
      induction both with
      | nil => exact ⟨rfl, nofun⟩
      | cons goes _ inductionHypothesis =>
          exact ⟨by rw [goes.1, inductionHypothesis.1],
            List.forall_mem_cons.mpr ⟨goes.2, inductionHypothesis.2⟩⟩
    obtain ⟨rfl, stack⟩ := same
    exact ⟨rfl, stack, grounded.locals⟩

/-- An instruction that brings in grounded types keeps a state grounded. -/
theorem grounded_of_step
    (introduced : ∀ type, insn.Introduces context type → type.Grounded hierarchy)
    (grounded : state.Grounded hierarchy)
    (found : insn.step context offset state = .ok behind) :
    behind.Grounded hierarchy := by
  have treats :
      insn.Treats (fun type other => other = type ∧ type.Grounded hierarchy)
        (fun left right => right = left ∧ left.Grounded hierarchy) context context offset offset
        state state := {
    introduced := fun type introduces => ⟨rfl, introduced type introduces⟩
    created := ⟨rfl, trivial⟩
    widths := rfl
    element := by
      intro _ array otherArray held otherHeld
      cases held.symm.trans otherHeld
      exact ⟨rfl, (grounded.stack array (List.mem_of_getElem? held)).elementOf⟩
    transfers := fun access _ result found =>
      ⟨result, found, rfl, grounded_of_accessLocal grounded found⟩
    constructs := by
      intro count receiver otherReceiver _ held otherHeld
      cases held.symm.trans otherHeld
      refine ⟨Iff.rfl, fun owner introduces => ?_⟩
      rintro left _ ⟨rfl, grounded⟩
      exact ⟨rfl, grounded.replaceType receiver (introduced _ introduces)⟩ }
  obtain ⟨_, _, _, behindGrounded⟩ :=
    follows_step_of_treats (carries_grounded hierarchy) (.refl _) rfl treats ⟨rfl, grounded⟩
      behind found
  exact behindGrounded

end Steps

end Insn
end JvmClass
