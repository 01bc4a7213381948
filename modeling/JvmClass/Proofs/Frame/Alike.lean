import JvmClass.Proofs.Frame.Together

namespace JvmClass

/-!
# Steps from states that are alike

Two states that differ in the names of objects without a class only, and in local
variables that nothing loads, are stepped through alike.
-/

namespace SlotType

/-- Every value of the type is of the same kind wherever it is held. -/
def isPlain : SlotType → Bool
  | .uninitialized _ | .unmerged => false
  | _ => true

/-- A relation of types gives objects without a class other names. -/
structure Renames (related : SlotType → SlotType → Prop) : Prop where
  plain : ∀ type, type.isPlain = true → related type type
  known : ∀ left right, related left right → left ≠ .unmerged ∧ right ≠ .unmerged
  left : ∀ first second right, related first right → related second right → first = second
  right : ∀ left first second, related left first → related left second → first = second

namespace Renames

variable {related : SlotType → SlotType → Prop} {left right : SlotType}

theorem eq_of_plain
    (renames : Renames related)
    (goes : related left right)
    (plain : left.isPlain = true ∨ right.isPlain = true) :
    right = left := by
  rcases plain with plain | plain
  · exact renames.right left right left goes (renames.plain left plain)
  · exact renames.left right left right (renames.plain right plain) goes

/-- Related types are the same unless both are objects without a class. -/
theorem eq_or_uninitialized
    (renames : Renames related)
    (goes : related left right) :
    right = left ∨ ∃ offset other, left = .uninitialized offset ∧ right = .uninitialized other := by
  have leftKnown := (renames.known left right goes).1
  have rightKnown := (renames.known left right goes).2
  have uninitialized {type : SlotType} (known : type ≠ .unmerged) (isNew : ¬type.isPlain = true) :
      ∃ offset, type = .uninitialized offset := by
    cases type with
    | uninitialized offset => exact ⟨offset, rfl⟩
    | unmerged => exact absurd rfl known
    | _ => exact absurd rfl isNew
  by_cases plain : left.isPlain = true ∨ right.isPlain = true
  · exact .inl (renames.eq_of_plain goes plain)
  · obtain ⟨leftNew, rightNew⟩ := not_or.mp plain
    obtain ⟨offset, rfl⟩ := uninitialized leftKnown leftNew
    obtain ⟨other, rfl⟩ := uninitialized rightKnown rightNew
    exact .inr ⟨offset, other, rfl, rfl⟩

theorem isWide_eq
    (renames : Renames related)
    (goes : related left right) :
    right.isWide = left.isWide := by
  obtain rfl | ⟨_, _, rfl, rfl⟩ := renames.eq_or_uninitialized goes
  · rfl
  · rfl

theorem elementOf_eq
    (renames : Renames related)
    (goes : related left right) :
    right.elementOf = left.elementOf := by
  obtain rfl | ⟨_, _, rfl, rfl⟩ := renames.eq_or_uninitialized goes
  · rfl
  · rfl

end Renames

theorem isPlain_ofKind (kind : ValueKind) : (ofKind kind).isPlain = true := by
  cases kind <;> rfl

theorem isPlain_ofFieldType (type : FieldType) : (ofFieldType type).isPlain = true := by
  cases type <;> rfl

theorem isPlain_elementOf (type : SlotType) : type.elementOf.isPlain = true := by
  unfold elementOf
  repeat' split
  all_goals rfl

/-- A constant has a type of which every value is of the same kind. -/
theorem isPlain_ofConstant
    {pool : Pool}
    {index : UInt16}
    {type : SlotType}
    (found : ofConstant pool index = .ok type) :
    type.isPlain = true := by
  unfold ofConstant at found
  obtain ⟨entry, _, found⟩ := bind_eq_ok_iff.mp found
  cases entry with
  | dynamic bootstrap pair =>
      simp only [bind_eq_ok_iff, pure, Except.pure, Except.ok.injEq] at found
      obtain ⟨_, _, field, _, rfl⟩ := found
      exact isPlain_ofFieldType field
  | integer | float | long | double | string | classRef | methodType | methodHandle =>
      cases found
      rfl
  | _ => cases found

end SlotType

namespace FrameState

/-! ## Places of stored and replaced types -/

theorem getD_set
    (types : List SlotType)
    (place other : Nat)
    (type : SlotType)
    (inside : place < types.length) :
    (types.set place type).getD other .top = if place = other then type else types.getD other .top := by
  simp only [List.getD_eq_getElem?_getD, List.getElem?_set, if_pos inside]
  split <;> rfl

/-- A store loses a value that reaches into the place that it stores to. -/
theorem getD_torn
    (locals : List SlotType)
    (place other : Nat)
    (roomy : place ≤ locals.length) :
    (if 0 < place ∧ (locals.getD (place - 1) .top).isWide = true then locals.set (place - 1) .top
        else locals).getD other .top =
      if other + 1 = place ∧ (locals.getD other .top).isWide = true then .top
      else locals.getD other .top := by
  by_cases below : other + 1 = place
  · subst below
    by_cases torn : (locals.getD other .top).isWide = true
    · rw [Nat.add_sub_cancel, if_pos ⟨Nat.succ_pos _, torn⟩, if_pos ⟨rfl, torn⟩,
        getD_set _ _ _ _ (by omega), if_pos rfl]
    · rw [Nat.add_sub_cancel, if_neg fun both => torn both.2, if_neg fun both => torn both.2]
  · simp only [below, false_and, if_false]
    split
    · rw [getD_set _ _ _ _ (by omega), if_neg (by omega)]
    · rfl

/-- What a local variable holds behind a store. -/
theorem getD_storeLocal
    (locals : List SlotType)
    (index : UInt16)
    (value : SlotType)
    (place : Nat) :
    (storeLocal locals index value).getD place .top =
      if place = index.toNat then value
      else if place = index.toNat + 1 ∧ value.isWide = true then .top
      else if place + 1 = index.toNat ∧ (locals.getD place .top).isWide = true then .top
      else locals.getD place .top := by
  have narrow : 1 ≤ value.slots := by
    unfold SlotType.slots
    split <;> omega
  unfold storeLocal
  extract_lets low full cut stored
  have fullLength : full.length = max (low + value.slots) locals.length := length_padTo ..
  have cutLength : cut.length = full.length := by
    unfold cut
    split <;> simp
  have cutAt : cut.getD place .top =
      if place + 1 = index.toNat ∧ (locals.getD place .top).isWide = true then .top
      else locals.getD place .top := by
    have torn := getD_torn full low place (by omega)
    rwa [show full.getD place .top = locals.getD place .top from getD_padTo ..] at torn
  have storedAt : stored.getD place .top =
      if index.toNat = place then value else cut.getD place .top :=
    getD_set _ _ _ _ (by omega)
  have storedLength : stored.length = full.length := by simp [stored, cutLength]
  split
  · rename_i wide
    have two : value.slots = 2 := by simp [SlotType.slots, wide]
    rw [getD_set _ _ _ _ (by omega), storedAt, cutAt]
    by_cases here : place = index.toNat
    · rw [if_neg (by omega), if_pos here.symm, if_pos here]
    · by_cases behind : place = index.toNat + 1
      · rw [if_pos (by omega), if_neg here, if_pos ⟨behind, wide⟩]
      · rw [if_neg (by omega), if_neg (Ne.symm here)]
        simp only [here, behind, false_and, if_false]
  · rename_i notWide
    rw [storedAt, cutAt]
    by_cases here : place = index.toNat
    · rw [if_pos here.symm, if_pos here]
    · rw [if_neg (Ne.symm here)]
      simp only [here, notWide, Bool.false_eq_true, and_false, if_false]

theorem length_storeLocal_eq
    (locals : List SlotType)
    (index : UInt16)
    (value : SlotType) :
    (storeLocal locals index value).length = max locals.length (index.toNat + value.slots) := by
  unfold storeLocal
  extract_lets low full cut stored
  have fullLength : full.length = max (low + value.slots) locals.length := length_padTo ..
  have storedLength : stored.length = full.length := by
    simp only [stored, cut, List.length_set]
    split <;> simp
  split
  · rw [List.length_set, storedLength, fullLength, Nat.max_comm]
  · rw [storedLength, fullLength, Nat.max_comm]

theorem length_storeLocal
    (locals : List SlotType)
    (index : UInt16)
    (value : SlotType) :
    locals.length ≤ (storeLocal locals index value).length := by
  rw [length_storeLocal_eq]
  exact Nat.le_max_left ..

theorem getD_map_replace
    {old new : SlotType}
    (types : List SlotType)
    (place : Nat)
    (inside : place < types.length) :
    (types.map fun type => if type = old then new else type).getD place .top =
      if types.getD place .top = old then new else types.getD place .top := by
  simp only [List.getD_eq_getElem?_getD, List.getElem?_map, List.getElem?_eq_getElem inside,
    Option.map_some, Option.getD_some]

/-- Any type but `top` is replaced in every place. -/
theorem getD_map_replace_of_ne
    {old new : SlotType}
    (known : old ≠ .top)
    (types : List SlotType)
    (place : Nat) :
    (types.map fun type => if type = old then new else type).getD place .top =
      if types.getD place .top = old then new else types.getD place .top := by
  by_cases inside : place < types.length
  · exact getD_map_replace types place inside
  · rw [List.getD_eq_default _ _ (by simpa using inside), List.getD_eq_default _ _ (by omega),
      if_neg known.symm]

/-! ## States that are alike -/

/-- Stacks go together type by type, and so do the local variables below a bound. -/
structure Alike
    (related : SlotType → SlotType → Prop)
    (bound : Nat)
    (left right : FrameState) : Prop where
  stack : List.Forall₂ related left.stack right.stack
  room : bound ≤ left.locals.length ∧ bound ≤ right.locals.length
  locals :
    ∀ place < bound, related (left.locals.getD place .top) (right.locals.getD place .top)

section Alike

variable {related : SlotType → SlotType → Prop} {bound : Nat} {left right : FrameState}

theorem Alike.withStack
    {first second : List SlotType}
    (alike : Alike related bound left right)
    (sameStacks : List.Forall₂ related first second) :
    Alike related bound { left with stack := first } { right with stack := second } :=
  ⟨sameStacks, alike.room, alike.locals⟩

theorem Alike.push
    {value other : SlotType}
    (alike : Alike related bound left right)
    (goes : related value other) :
    Alike related bound { left with stack := value :: left.stack }
      { right with stack := other :: right.stack } :=
  alike.withStack (.cons goes alike.stack)

/-- Storing related types keeps states alike. -/
theorem Alike.storeLocal
    {value other : SlotType}
    (index : UInt16)
    (renames : SlotType.Renames related)
    (alike : Alike related bound left right)
    (goes : related value other) :
    Alike related bound { left with locals := storeLocal left.locals index value }
      { right with locals := FrameState.storeLocal right.locals index other } := by
  have top : related .top .top := renames.plain _ rfl
  refine ⟨alike.stack, ⟨?_, ?_⟩, fun place below => ?_⟩
  · exact Nat.le_trans alike.room.1 (length_storeLocal ..)
  · exact Nat.le_trans alike.room.2 (length_storeLocal ..)
  · have held := alike.locals place below
    simp only [getD_storeLocal, renames.isWide_eq goes, renames.isWide_eq held]
    split
    · exact goes
    · split
      · exact top
      · split
        · exact top
        · exact held

/-- Replacing related types keeps states alike. -/
theorem Alike.replaceType
    {old other new : SlotType}
    (renames : SlotType.Renames related)
    (alike : Alike related bound left right)
    (goes : related old other)
    (plain : new.isPlain = true) :
    Alike related bound (replaceType old new left) (FrameState.replaceType other new right) := by
  have replaced {first second : SlotType} (held : related first second) :
      related (if first = old then new else first) (if second = other then new else second) := by
    by_cases here : first = old
    · subst here
      rw [if_pos rfl, if_pos (renames.right first second other held goes)]
      exact renames.plain new plain
    · have there : second ≠ other := by
        rintro rfl
        exact here (renames.left first old second held goes)
      rw [if_neg here, if_neg there]
      exact held
  refine ⟨?_, ?_, fun place below => ?_⟩
  · exact List.forall₂_map_left_iff.mpr
      (List.forall₂_map_right_iff.mpr (alike.stack.imp fun _ _ => replaced))
  · simpa [FrameState.replaceType] using alike.room
  · have inside := alike.room
    simp only [FrameState.replaceType]
    rw [getD_map_replace _ _ (by omega), getD_map_replace _ _ (by omega)]
    exact replaced (alike.locals place below)

theorem follows_accessLocal
    {context otherContext : StepContext}
    {offset other : UInt16}
    {access : SlotAccess}
    (renames : SlotType.Renames related)
    (alike : Alike related bound left right)
    (inside : access.isStore = false → access.index.toNat < bound) :
    Follows (Alike related bound) (accessLocal context offset left access)
      (accessLocal otherContext other right access) := by
  unfold accessLocal
  split
  · exact (follows_pop alike.stack).mapError.bind fun _ _ popped =>
      follows_ok ((alike.withStack popped.2).storeLocal access.index renames popped.1)
  · rename_i loads
    have held := alike.locals access.index.toNat (inside (by simpa using loads))
    have known := renames.known _ _ held
    rw [loadLocal_of_known _ _ known.1, loadLocal_of_known _ _ known.2]
    exact follows_ok (alike.push held)

/-- States that are alike go together in their stacks and in the rest. -/
theorem carries_alike
    (renames : SlotType.Renames related)
    (bound : Nat) :
    Carries related (Alike related bound) where
  narrow type other goes narrow := by rw [renames.isWide_eq goes, narrow]
  stack _ _ alike := alike.stack
  withStack _ _ _ _ alike sameStacks := alike.withStack sameStacks

end Alike

end FrameState

namespace Insn

open FrameState

/-- An instruction brings in types of which every value is of the same kind. -/
theorem Introduces.isPlain
    {context : StepContext}
    {insn : Insn}
    {type : SlotType}
    (introduces : insn.Introduces context type) :
    type.isPlain = true := by
  cases introduces with
  | null | aClass | array | multiArray | constructed | text => rfl
  | kind insn kind => exact SlotType.isPlain_ofKind kind
  | primitives found =>
      obtain ⟨name, _, rfl⟩ := Option.map_eq_some_iff.mp found
      rfl
  | field | result => exact SlotType.isPlain_ofFieldType _
  | constant found => exact SlotType.isPlain_ofConstant found

/--
States that are alike are stepped through alike, also at another offset and with a
pool that has grown.
-/
theorem follows_step
    {related : SlotType → SlotType → Prop}
    {bound : Nat}
    {left right : FrameState}
    {context otherContext : StepContext}
    {offset other : UInt16}
    {insn : Insn}
    (renames : SlotType.Renames related)
    (kept : Entry.Extends context.pool.entries otherContext.pool.entries)
    (sameClass : otherContext.method.className = context.method.className)
    (fresh : related (.uninitialized offset) (.uninitialized other))
    (inside :
      ∀ access,
        insn.access? = some access → access.isStore = false → access.index.toNat < bound)
    (alike : Alike related bound left right) :
    Follows (Alike related bound) (insn.step context offset left)
      (insn.step otherContext other right) := by
  refine follows_step_of_treats (carries_alike renames bound) kept sameClass ?_ alike
  exact {
    introduced := fun type introduced => renames.plain type introduced.isPlain
    created := fresh
    widths := by
      refine map_isWide_measured insn ?_
      rw [← List.forall₂_eq_eq_eq, List.forall₂_map_left_iff, List.forall₂_map_right_iff]
      exact alike.stack.imp fun _ _ goes => (renames.isWide_eq goes).symm
    element := by
      intro _ array otherArray held otherHeld
      rw [renames.elementOf_eq (related_of_getElem? alike.stack held otherHeld)]
      exact renames.plain _ (SlotType.isPlain_elementOf _)
    transfers := fun access transfers =>
      follows_accessLocal renames alike (inside access (access?_of_transfer? transfers))
    constructs := by
      intro count receiver otherReceiver _ held otherHeld
      have goes := related_of_getElem? alike.stack held otherHeld
      refine ⟨⟨?_, ?_⟩, fun owner _ _ _ alike => alike.replaceType renames goes rfl⟩
      · rintro rfl
        exact (renames.eq_of_plain goes (.inr rfl)).symm
      · rintro rfl
        exact renames.eq_of_plain goes (.inl rfl) }

end Insn
end JvmClass
