import JvmClass.Frame.Merge
import JvmClass.Proofs.Frame.Supertype
import JvmClass.Proofs.Steps
import Mathlib.Data.List.GetD

namespace JvmClass

/-!
# States that cover other states

A state covers another if every place of the other fits the same place of it.
Merging widens: whatever fitted one of two states fits what they merge to.  Only
the places that a declared frame fixes are exempt, and those hold the declared
type.
-/

namespace SlotType

/-- A value of the first type may stand where the second type is expected. -/
inductive Fits (hierarchy : Hierarchy) : SlotType → SlotType → Prop where
  | same (type : SlotType) : Fits hierarchy type type
  | top (type : SlotType) : Fits hierarchy type .top
  | unmerged (type : SlotType) : Fits hierarchy type .unmerged
  | null (name : String) : Fits hierarchy .null (.object name)
  | super {left right : String} :
      hierarchy.Supertype left.toList right.toList →
      Fits hierarchy (.object left) (.object right)

/-- Whatever fits the first type fits the second. -/
def WidensTo
    (hierarchy : Hierarchy)
    (narrow wide : SlotType) : Prop :=
  ∀ type, Fits hierarchy type narrow → Fits hierarchy type wide

section Merge

variable {hierarchy : Hierarchy}

/-- Whatever fits a class fits every supertype of it. -/
theorem widensTo_object
    {left right : String}
    (above :
      ∀ name,
        hierarchy.Supertype name left.toList →
          hierarchy.Supertype name right.toList) :
    WidensTo hierarchy (.object left) (.object right) := by
  intro type fits
  cases fits with
  | same => exact .super (above _ (.refl _))
  | null => exact .null right
  | super below => exact .super (above _ below)

/-- Only the absent reference fits the absent reference. -/
theorem widensTo_of_null
    (name : String) :
    WidensTo hierarchy .null (.object name) := by
  intro type fits
  cases fits
  exact .null name

/-- Two types are widened to what they merge to. -/
theorem widensTo_of_merge?
    {left right merged : SlotType}
    (found : merge? hierarchy left right = some merged) :
    WidensTo hierarchy left merged ∧ WidensTo hierarchy right merged := by
  unfold merge? at found
  split at found
  · rename_i same
    cases found
    exact ⟨fun _ fits => fits, fun _ fits => same ▸ fits⟩
  · split at found
    · cases found
      exact ⟨widensTo_of_null _, fun _ fits => fits⟩
    · cases found
      exact ⟨fun _ fits => fits, widensTo_of_null _⟩
    · rename_i left right _
      obtain ⟨name, common, rfl⟩ := Option.map_eq_some_iff.mp found
      obtain ⟨chars, charsCommon, rfl⟩ := Option.map_eq_some_iff.mp common
      obtain ⟨leftWidens, rightWidens⟩ := Hierarchy.widens_of_commonName? charsCommon
      exact
        ⟨widensTo_object (by simpa using leftWidens),
          widensTo_object (by simpa using rightWidens)⟩
    all_goals
      cases found
    exact ⟨fun type _ => .top type, fun type _ => .top type⟩

/-- Two types that do not merge are classes, unless one is not known any more. -/
theorem isObject_of_merge?_eq_none
    {left right : SlotType}
    (missing : merge? hierarchy left right = none)
    (leftKnown : left ≠ .unmerged)
    (rightKnown : right ≠ .unmerged) :
    (∃ name, left = .object name) ∧ ∃ name, right = .object name := by
  unfold merge? at missing
  split at missing
  · cases missing
  · split at missing <;> simp_all

/-- Two locals are widened to what they merge to. -/
theorem widensTo_mergeLocal
    (rules : TypeRules)
    (left right : SlotType) :
    WidensTo rules.hierarchy left (mergeLocal rules left right) ∧
      WidensTo rules.hierarchy right (mergeLocal rules left right) := by
  unfold mergeLocal
  cases found : merge? rules.hierarchy left right with
  | none => exact ⟨fun type _ => .unmerged type, fun type _ => .unmerged type⟩
  | some merged => exact widensTo_of_merge? found

theorem mergeStackValue_self
    (rules : TypeRules)
    (type : SlotType) :
    mergeStackValue rules type type = .ok type := by
  simp [mergeStackValue, merge?, pure, Except.pure, bind, Except.bind]

theorem mergeLocal_self
    (rules : TypeRules)
    (type : SlotType) :
    mergeLocal rules type type = type := by
  simp [mergeLocal, merge?]

/-- Two stack values merge as types do; without frames unrelated classes give the root. -/
theorem merge?_of_mergeStackValue
    {rules : TypeRules}
    {left right merged : SlotType}
    (found : mergeStackValue rules left right = .ok merged) :
    merge? rules.hierarchy left right = some merged ∨
      rules.emitFrames = false ∧ merge? rules.hierarchy left right = none ∧
        merged = .object objectName := by
  unfold mergeStackValue at found
  simp only [bind, Except.bind, pure, Except.pure] at found
  split at found
  · rename_i value valueFound
    split at found
    · cases found
    · cases found
      exact .inl valueFound
  · rename_i missing
    split at found
    · cases found
    · rename_i noFrames
      simp only [reduceCtorEq, false_and, ↓reduceIte, Except.ok.injEq] at found
      exact .inr ⟨by simpa using noFrames, missing, found.symm⟩

/-- Two stack values are widened to what they merge to. -/
theorem widensTo_of_mergeStackValue
    {rules : TypeRules}
    {left right merged : SlotType}
    (found : mergeStackValue rules left right = .ok merged)
    (leftKnown : rules.emitFrames = false → left ≠ .unmerged)
    (rightKnown : rules.emitFrames = false → right ≠ .unmerged) :
    WidensTo rules.hierarchy left merged ∧ WidensTo rules.hierarchy right merged := by
  rcases merge?_of_mergeStackValue found with mergedFound | ⟨noFrames, missing, rfl⟩
  · exact widensTo_of_merge? mergedFound
  · obtain ⟨⟨leftName, rfl⟩, rightName, rfl⟩ :=
      isObject_of_merge?_eq_none missing (leftKnown noFrames) (rightKnown noFrames)
    exact
      ⟨widensTo_object fun name _ => .root name,
        widensTo_object fun name _ => .root name⟩

/-- What a known type merges to is known. -/
theorem ne_unmerged_of_merge?
    {left right merged : SlotType}
    (found : merge? hierarchy left right = some merged)
    (leftKnown : left ≠ .unmerged) :
    merged ≠ .unmerged := by
  unfold merge? at found
  split at found
  · cases found
    exact leftKnown
  · split at found
    · cases found
      simp
    · cases found
      simp
    · obtain ⟨name, _, rfl⟩ := Option.map_eq_some_iff.mp found
      simp
    all_goals
      cases found
    simp

/-- What two known stack values merge to is known. -/
theorem ne_unmerged_of_mergeStackValue
    {rules : TypeRules}
    {left right merged : SlotType}
    (found : mergeStackValue rules left right = .ok merged)
    (leftKnown : left ≠ .unmerged) :
    merged ≠ .unmerged := by
  rcases merge?_of_mergeStackValue found with mergedFound | ⟨_, _, rfl⟩
  · exact ne_unmerged_of_merge? mergedFound leftKnown
  · simp

end Merge

end SlotType

namespace FrameState

/-- The type that a declared frame fixes at a place. -/
def fixedAt (declared : List SlotType) (place : Nat) : Option SlotType :=
  declared[place]?.filter SlotType.isFixed

/-- A type fits a place of a state, or the place is fixed to the type it holds. -/
def PlaceFits
    (hierarchy : Hierarchy)
    (fixed : Option SlotType)
    (type held : SlotType) : Prop :=
  SlotType.Fits hierarchy type held ∨ fixed = some held

/-- Every type fits its place; a place that is missing holds `top`. -/
def TypesFit
    (hierarchy : Hierarchy)
    (declared types held : List SlotType) : Prop :=
  ∀ place,
    PlaceFits hierarchy (fixedAt declared place)
      (types.getD place .top) (held.getD place .top)

/-- Every place that is fixed holds the declared type. -/
def HoldsTypes (declared held : List SlotType) : Prop :=
  ∀ place type,
    place < held.length →
      fixedAt declared place = some type → held.getD place .top = type

/-! ## Places of merged and overlaid types -/

/-- What holds of `top` and of all types holds of every place. -/
theorem getD_of_forall
    {good : SlotType → Prop}
    {types : List SlotType}
    (top : good .top)
    (each : ∀ type ∈ types, good type)
    (place : Nat) :
    good (types.getD place .top) := by
  rw [List.getD_eq_getElem?_getD]
  cases found : types[place]? with
  | none => exact top
  | some type => exact each type (List.mem_of_getElem? found)

/-- Filling up with `top` changes no place. -/
@[simp] theorem getD_padTo
    (size : Nat)
    (types : List SlotType)
    (place : Nat) :
    (SlotType.padTo size types).getD place .top = types.getD place .top := by
  simp only [SlotType.padTo, List.getD_eq_getElem?_getD]
  by_cases inside : place < types.length
  · rw [List.getElem?_append_left inside]
  · rw [List.getElem?_append_right (by omega), List.getElem?_eq_none (l := types) (by omega),
      List.getElem?_replicate]
    split <;> rfl

theorem length_padTo
    (size : Nat)
    (types : List SlotType) :
    (SlotType.padTo size types).length = max size types.length := by
  simp only [SlotType.padTo, List.length_append, List.length_replicate]
  omega

/-- Whether a place is fixed is read off the declared types. -/
theorem getElem?_fixedPlaces
    {size place : Nat}
    (declared : List SlotType)
    (inside : place < size) :
    (fixedPlaces size declared)[place]? = some (fixedAt declared place).isSome := by
  unfold fixedPlaces fixedAt
  by_cases listed : place < declared.length
  · rw [List.getElem?_append_left (by simpa using listed)]
    simp [listed, Option.isSome_filter]
  · rw [List.getElem?_append_right (by simpa using listed),
      List.getElem?_eq_none (l := declared) (by omega), List.getElem?_replicate]
    simp only [List.length_map, Option.filter_none, Option.isSome_none]
    rw [if_pos (by omega)]

/-- What merged locals hold at a place. -/
theorem getD_mergeLocals
    (rules : TypeRules)
    (declared left right : List SlotType)
    (place : Nat) :
    (mergeLocals rules declared left right).getD place .top =
      if place < max left.length right.length ∧ (fixedAt declared place).isSome then
        left.getD place .top
      else
        SlotType.mergeLocal rules (left.getD place .top) (right.getD place .top) := by
  unfold mergeLocals
  by_cases inside : place < max left.length right.length
  · have leftInside : place < (SlotType.padTo (max left.length right.length) left).length := by
      rw [length_padTo]
      omega
    have rightInside : place < (SlotType.padTo (max left.length right.length) right).length := by
      rw [length_padTo]
      omega
    have leftPlace := getD_padTo (max left.length right.length) left place
    have rightPlace := getD_padTo (max left.length right.length) right place
    simp only [List.getD_eq_getElem?_getD, List.getElem?_eq_getElem leftInside,
      Option.getD_some] at leftPlace
    simp only [List.getD_eq_getElem?_getD, List.getElem?_eq_getElem rightInside,
      Option.getD_some] at rightPlace
    simp only [List.getD_eq_getElem?_getD, List.getElem?_map, List.zip, List.getElem?_zipWith, 
      getElem?_fixedPlaces declared inside,
      List.getElem?_eq_getElem leftInside, List.getElem?_eq_getElem rightInside,
      Option.map_some, Option.getD_some, leftPlace, rightPlace, inside, true_and]
  · rw [if_neg (by tauto)]
    have leftMissing : left.getD place .top = .top := by
      rw [List.getD_eq_default _ _ (by omega)]
    have rightMissing : right.getD place .top = .top := by
      rw [List.getD_eq_default _ _ (by omega)]
    rw [leftMissing, rightMissing, List.getD_eq_default]
    · simp [SlotType.mergeLocal, SlotType.merge?]
    · simp only [List.length_map, List.length_zip, length_padTo]
      omega

/-- What overlaid types hold at a place. -/
theorem getD_overlayTypes
    (types declared : List SlotType)
    (place : Nat) :
    (overlayTypes types declared).getD place .top =
      if place < types.length then
        (fixedAt declared place).getD (types.getD place .top)
      else
        .top := by
  unfold overlayTypes fixedAt
  simp only [List.getD_eq_getElem?_getD]
  by_cases typed : place < types.length
  · rw [if_pos typed]
    by_cases listed : place < declared.length
    · rw [List.getElem?_append_left (by simp; omega)]
      simp only [List.getElem?_map, List.zip, List.getElem?_zipWith,
        List.getElem?_eq_getElem typed, List.getElem?_eq_getElem listed, Option.map_some,
        Option.getD_some, Option.filter_some]
      split <;> rfl
    · rw [List.getElem?_append_right (by simp; omega), List.getElem?_drop,
        List.getElem?_eq_none (l := declared) (by omega)]
      simp only [List.length_map, List.length_zip, Option.filter_none, Option.getD_none]
      congr 2
      omega
  · rw [if_neg typed, List.getElem?_eq_none]
    · rfl
    · simp only [List.length_append, List.length_map, List.length_zip, List.length_drop]
      omega

theorem length_overlayTypes
    (types declared : List SlotType) :
    (overlayTypes types declared).length = types.length := by
  simp only [overlayTypes, List.length_append, List.length_map, List.length_zip,
    List.length_drop]
  omega

/-- Merged locals are as many as there are on the longer side. -/
theorem length_mergeLocals
    (rules : TypeRules)
    (declared left right : List SlotType) :
    (mergeLocals rules declared left right).length = max left.length right.length := by
  simp only [mergeLocals, List.length_map, List.length_zip, length_padTo, fixedPlaces,
    List.length_append, List.length_replicate]
  omega

/-- Stacks merge value by value. -/
theorem mergeStacks_eq_ok_iff
    {rules : TypeRules}
    {fixed : List Bool}
    {left right merged : List SlotType} :
    mergeStacks rules fixed left right = .ok merged ↔
      List.Forall₂
        (fun pair value =>
          (if pair.2 = true then .ok pair.1.1
            else SlotType.mergeStackValue rules pair.1.1 pair.1.2) = .ok value)
        ((left.zip right).zip fixed) merged := by
  unfold mergeStacks
  simp only [bind_eq_ok_iff, mapM_eq_ok_iff, pure, Except.pure, Except.ok.injEq]
  constructor
  · rintro ⟨values, paired, rfl⟩
    simpa using List.forall₂_reverse_iff.mpr paired
  · intro paired
    exact ⟨merged.reverse, List.forall₂_reverse_iff.mpr paired, List.reverse_reverse _⟩

/-- Merged stacks are as high as both, and what they hold at a place is fixed or merged. -/
theorem getD_of_mergeStacks
    {rules : TypeRules}
    {declared left right merged : List SlotType}
    (found :
      mergeStacks rules (fixedPlaces left.length declared) left right = .ok merged)
    (heights : left.length = right.length) :
    merged.length = left.length ∧
      ∀ place,
        place < left.length →
          if (fixedAt declared place).isSome then
            merged.getD place .top = left.getD place .top
          else
            SlotType.mergeStackValue rules (left.getD place .top) (right.getD place .top) =
              .ok (merged.getD place .top) := by
  unfold mergeStacks at found
  obtain ⟨values, valuesFound, reversed⟩ := bind_eq_ok_iff.mp found
  cases reversed
  have paired := List.forall₂_reverse_iff.mpr (mapM_eq_ok_iff.mp valuesFound)
  simp only [List.reverse_reverse] at paired
  obtain ⟨lengths, placewise⟩ := List.forall₂_iff_get.mp paired
  have fixedLength : left.length ≤ (fixedPlaces left.length declared).length := by
    simp only [fixedPlaces, List.length_append, List.length_map, List.length_replicate]
    omega
  have zipLength :
      ((left.zip right).zip (fixedPlaces left.length declared)).length = left.length := by
    simp only [List.length_zip]
    omega
  refine ⟨lengths.symm.trans zipLength, ?_⟩
  intro place inside
  have rightInside : place < right.length := heights ▸ inside
  have mergedInside : place < values.reverse.length := by
    rw [← lengths, zipLength]
    exact inside
  have stepped := placewise place (by rw [zipLength]; exact inside) mergedInside
  have fixedShape := getElem?_fixedPlaces declared inside
  rw [List.getElem?_eq_getElem (by omega), Option.some.injEq] at fixedShape
  simp only [List.get_eq_getElem, List.getElem_zip, fixedShape] at stepped
  simp only [List.getD_eq_getElem?_getD, List.getElem?_eq_getElem inside,
    List.getElem?_eq_getElem rightInside, List.getElem?_eq_getElem mergedInside,
    Option.getD_some]
  split at stepped
  · rename_i isFixed
    rw [if_pos isFixed]
    simpa [eq_comm] using stepped
  · rename_i notFixed
    rw [if_neg notFixed]
    exact stepped

/-! ## Covering states -/

/-- A state fits another: stacks of one height, and types that fit their places. -/
structure Fits
    (hierarchy : Hierarchy)
    (declared : Option FrameState)
    (incoming held : FrameState) : Prop where
  height : incoming.stack.length = held.stack.length
  locals :
    TypesFit hierarchy ((declared.map FrameState.locals).getD [])
      incoming.locals held.locals
  stack :
    TypesFit hierarchy ((declared.map FrameState.stack).getD [])
      incoming.stack held.stack

/-- A state fits as it does with its locals filled up. -/
theorem Fits.of_padTo
    {hierarchy : Hierarchy}
    {declared : Option FrameState}
    {size : Nat}
    {locals stack : List SlotType}
    {held : FrameState}
    (fits : Fits hierarchy declared ⟨SlotType.padTo size locals, stack⟩ held) :
    Fits hierarchy declared ⟨locals, stack⟩ held :=
  ⟨fits.height, fun place => by simpa only [getD_padTo] using fits.locals place, fits.stack⟩

/-- A state holds the declared type in every place that a declared frame fixes. -/
structure Holds
    (declared : Option FrameState)
    (held : FrameState) : Prop where
  locals : HoldsTypes ((declared.map FrameState.locals).getD []) held.locals
  stack : HoldsTypes ((declared.map FrameState.stack).getD []) held.stack

/-- Every stack value is known. -/
def KnownStack (state : FrameState) : Prop :=
  .unmerged ∉ state.stack

section Absorb

variable {hierarchy : Hierarchy}

/-- Types fit a state that has been widened. -/
theorem TypesFit.trans
    {declared types held wider : List SlotType}
    (fits : TypesFit hierarchy declared types held)
    (widened :
      ∀ place,
        SlotType.WidensTo hierarchy (held.getD place .top) (wider.getD place .top) ∨
          fixedAt declared place = some (wider.getD place .top))
    (kept :
      ∀ place,
        fixedAt declared place = some (held.getD place .top) →
          wider.getD place .top = held.getD place .top) :
    TypesFit hierarchy declared types wider := by
  intro place
  rcases fits place with fitsHeld | fixed
  · rcases widened place with widens | fixed
    · exact .inl (widens _ fitsHeld)
    · exact .inr fixed
  · exact .inr (kept place fixed ▸ fixed)

/-- Everything fits its own place. -/
theorem TypesFit.refl
    (declared types : List SlotType) :
    TypesFit hierarchy declared types types :=
  fun _ => .inl (.same _)

/-- A state fits itself. -/
theorem Fits.refl
    (declared : Option FrameState)
    (state : FrameState) :
    Fits hierarchy declared state state :=
  ⟨rfl, .refl _ _, .refl _ _⟩

/-- What fitted types fits them once declared types are taken over. -/
theorem TypesFit.overlayTypes
    {declared types held : List SlotType}
    (fits : TypesFit hierarchy declared types held) :
    TypesFit hierarchy declared types (overlayTypes held declared) := by
  intro place
  rw [getD_overlayTypes]
  by_cases inside : place < held.length
  · rw [if_pos inside]
    cases fixed : fixedAt declared place with
    | none =>
        have placeFits := fits place
        rw [fixed] at placeFits
        simpa using placeFits
    | some type => exact .inr (by simp)
  · rw [if_neg inside]
    exact .inl (.top _)

/-- Types with declared types taken over hold them. -/
theorem holdsTypes_overlayTypes
    (types declared : List SlotType) :
    HoldsTypes declared (FrameState.overlayTypes types declared) := by
  intro place type inside fixed
  rw [length_overlayTypes] at inside
  rw [getD_overlayTypes, if_pos inside, fixed, Option.getD_some]

/-- A place beyond both lists of locals holds `top` once they are merged. -/
theorem getD_mergeLocals_of_le
    (rules : TypeRules)
    (declared left right : List SlotType)
    {place : Nat}
    (outside : max left.length right.length ≤ place) :
    (mergeLocals rules declared left right).getD place .top = .top := by
  rw [getD_mergeLocals, if_neg (by omega), List.getD_eq_default _ _ (by omega),
    List.getD_eq_default _ _ (by omega)]
  simp [SlotType.mergeLocal, SlotType.merge?]

/-- What fitted the left locals fits the merged ones. -/
theorem TypesFit.mergeLocals_left
    {rules : TypeRules}
    {declared types left : List SlotType}
    (fits : TypesFit rules.hierarchy declared types left)
    (right : List SlotType) :
    TypesFit rules.hierarchy declared types (mergeLocals rules declared left right) := by
  refine fits.trans ?_ ?_
  · intro place
    rw [getD_mergeLocals]
    split
    · exact .inl fun _ fitsHeld => fitsHeld
    · exact .inl (SlotType.widensTo_mergeLocal rules _ _).1
  · intro place fixed
    by_cases inside : place < max left.length right.length
    · rw [getD_mergeLocals, if_pos ⟨inside, by simp [fixed]⟩]
    · rw [getD_mergeLocals_of_le rules declared left right (by omega),
        List.getD_eq_default _ _ (by omega)]

/-- The right locals fit the merged ones if the left ones hold the declared types. -/
theorem typesFit_mergeLocals_right
    {rules : TypeRules}
    {declared left : List SlotType}
    (holds : HoldsTypes declared left)
    (right : List SlotType) :
    TypesFit rules.hierarchy declared right (mergeLocals rules declared left right) := by
  intro place
  rw [getD_mergeLocals]
  split
  · rename_i fixedInside
    obtain ⟨type, fixed⟩ := Option.isSome_iff_exists.mp fixedInside.2
    by_cases inside : place < left.length
    · exact .inr (by rw [fixed, holds place type inside fixed])
    · rw [List.getD_eq_default left _ (by omega)]
      exact .inl (.top _)
  · exact .inl ((SlotType.widensTo_mergeLocal rules _ _).2 _ (.same _))

/-- Places of a stack without unknown values are known. -/
theorem getD_ne_unmerged
    {types : List SlotType}
    (known : .unmerged ∉ types)
    (place : Nat) :
    types.getD place .top ≠ .unmerged := by
  refine @getD_of_forall (· ≠ .unmerged) types (by simp) (fun type member => ?_) place
  rintro rfl
  exact known member

section Stacks

variable {rules : TypeRules} {declared left right merged : List SlotType}

/-- What fitted the left stack fits the merged one. -/
theorem TypesFit.mergeStacks_left
    {types : List SlotType}
    (fits : TypesFit rules.hierarchy declared types left)
    (found : mergeStacks rules (fixedPlaces left.length declared) left right = .ok merged)
    (heights : left.length = right.length)
    (leftKnown : rules.emitFrames = false → .unmerged ∉ left)
    (rightKnown : rules.emitFrames = false → .unmerged ∉ right) :
    TypesFit rules.hierarchy declared types merged := by
  obtain ⟨mergedHeight, placewise⟩ := getD_of_mergeStacks found heights
  refine fits.trans ?_ ?_
  · intro place
    by_cases inside : place < left.length
    · have placeMerged := placewise place inside
      split at placeMerged
      · rw [placeMerged]
        exact .inl fun _ fitsHeld => fitsHeld
      · exact .inl
          (SlotType.widensTo_of_mergeStackValue placeMerged
            (fun noFrames => getD_ne_unmerged (leftKnown noFrames) place)
            fun noFrames => getD_ne_unmerged (rightKnown noFrames) place).1
    · rw [List.getD_eq_default merged _ (by omega)]
      exact .inl fun type _ => .top type
  · intro place fixed
    by_cases inside : place < left.length
    · have placeMerged := placewise place inside
      rwa [if_pos (by simp [fixed])] at placeMerged
    · rw [List.getD_eq_default _ _ (by omega), List.getD_eq_default _ _ (by omega)]

/-- The right stack fits the merged one if the left one holds the declared types. -/
theorem typesFit_mergeStacks_right
    (holds : HoldsTypes declared left)
    (found : mergeStacks rules (fixedPlaces left.length declared) left right = .ok merged)
    (heights : left.length = right.length)
    (leftKnown : rules.emitFrames = false → .unmerged ∉ left)
    (rightKnown : rules.emitFrames = false → .unmerged ∉ right) :
    TypesFit rules.hierarchy declared right merged := by
  obtain ⟨mergedHeight, placewise⟩ := getD_of_mergeStacks found heights
  intro place
  by_cases inside : place < left.length
  · have placeMerged := placewise place inside
    split at placeMerged
    · rename_i isFixed
      obtain ⟨type, fixed⟩ := Option.isSome_iff_exists.mp isFixed
      exact .inr (by rw [placeMerged, fixed, holds place type inside fixed])
    · exact .inl
        ((SlotType.widensTo_of_mergeStackValue placeMerged
          (fun noFrames => getD_ne_unmerged (leftKnown noFrames) place)
            fun noFrames => getD_ne_unmerged (rightKnown noFrames) place).2 _
            (.same _))
  · rw [List.getD_eq_default merged _ (by omega)]
    exact .inl (.top _)

/-- A stack merged from known values has known values. -/
theorem known_of_mergeStacks
    (found : mergeStacks rules (fixedPlaces left.length declared) left right = .ok merged)
    (heights : left.length = right.length)
    (leftKnown : .unmerged ∉ left) :
    .unmerged ∉ merged := by
  obtain ⟨mergedHeight, placewise⟩ := getD_of_mergeStacks found heights
  intro unknown
  obtain ⟨place, placeInside, placeUnknown⟩ := List.mem_iff_getElem.mp unknown
  have placeMerged := placewise place (by omega)
  rw [List.getD_eq_getElem (l := merged) _ placeInside, placeUnknown] at placeMerged
  split at placeMerged
  · exact getD_ne_unmerged leftKnown place placeMerged.symm
  · exact
      SlotType.ne_unmerged_of_mergeStackValue placeMerged
        (getD_ne_unmerged leftKnown place) rfl

end Stacks

/-- What fitted one state fits the state that it is merged to, and so does the other state. -/
theorem fits_of_merge
    {rules : TypeRules}
    {declared : Option FrameState}
    {left right merged : FrameState}
    (found : merge rules declared left right = .ok merged)
    (holds : Holds declared left)
    (leftKnown : rules.emitFrames = false → left.KnownStack)
    (rightKnown : rules.emitFrames = false → right.KnownStack) :
    (∀ state,
        Fits rules.hierarchy declared state left →
          Fits rules.hierarchy declared state merged) ∧
      Fits rules.hierarchy declared right merged ∧
        (left.KnownStack → merged.KnownStack) := by
  unfold merge at found
  split at found
  · cases found
  · rename_i heights
    have heights : left.stack.length = right.stack.length := by simpa using heights
    obtain ⟨stack, stackFound, built⟩ := bind_eq_ok_iff.mp found
    cases built
    have stackHeight := (getD_of_mergeStacks stackFound heights).1
    refine ⟨?_, ?_, known_of_mergeStacks stackFound heights⟩
    · intro state fits
      exact
        ⟨fits.height.trans stackHeight.symm,
          fits.locals.mergeLocals_left right.locals,
          fits.stack.mergeStacks_left stackFound heights leftKnown rightKnown⟩
    · exact
        ⟨heights.symm.trans stackHeight.symm,
          typesFit_mergeLocals_right holds.locals right.locals,
          typesFit_mergeStacks_right holds.stack stackFound heights leftKnown rightKnown⟩

/-- Taking a declared state over gives a state that holds it and that the old one fits. -/
theorem fits_of_overlay
    (hierarchy : Hierarchy)
    {state declared overlaid : FrameState}
    (found : overlay state declared = .ok overlaid) :
    (∀ other,
        Fits hierarchy (some declared) other state →
          Fits hierarchy (some declared) other overlaid) ∧
      Holds (some declared) overlaid ∧
        (state.KnownStack → declared.KnownStack → overlaid.KnownStack) := by
  unfold overlay at found
  split at found
  · cases found
  · cases found
    refine ⟨?_, ⟨holdsTypes_overlayTypes _ _, holdsTypes_overlayTypes _ _⟩, ?_⟩
    · intro other fits
      exact
        ⟨fits.height.trans (length_overlayTypes _ _).symm,
          fits.locals.overlayTypes, fits.stack.overlayTypes⟩
    · intro known declaredKnown unknown
      simp only [overlayTypes, List.mem_append, List.mem_map, Prod.exists] at unknown
      rcases unknown with ⟨type, declaredType, zipped, chosen⟩ | dropped
      · obtain ⟨typeMember, declaredMember⟩ := List.of_mem_zip zipped
        split at chosen
        · exact declaredKnown (chosen ▸ declaredMember)
        · exact known (chosen ▸ typeMember)
      · exact known (List.mem_of_mem_drop dropped)

/--
What the state of an instruction is once one more path has reached it.  Stack
values are known where `strict` asks for it.
-/
structure Absorbed
    (strict : Prop)
    (rules : TypeRules)
    (offset : UInt16)
    (existing : Option FrameState)
    (incoming merged : FrameState) : Prop where
  incoming : Fits rules.hierarchy rules.declared[offset]? incoming merged
  earlier :
    ∀ old state,
      existing = some old →
        Fits rules.hierarchy rules.declared[offset]? state old →
          Fits rules.hierarchy rules.declared[offset]? state merged
  holds : Holds rules.declared[offset]? merged
  known : strict → merged.KnownStack

/--
The declared states of a body have known stack values where `strict` asks for
it, which it has to where no frames are written.
-/
structure KnownDeclared (strict : Prop) (rules : TypeRules) : Prop where
  required : rules.emitFrames = false → strict
  known :
    ∀ (offset : UInt16) (state : FrameState),
      rules.declared[offset]? = some state → strict → state.KnownStack

theorem overlaid_of_declared
    {declared : Option FrameState}
    {state overlaid : FrameState}
    (taken :
      (match declared with
        | none => pure state
        | some declared => overlay state declared) = Except.ok overlaid) :
    declared = none ∧ overlaid = state ∨
      ∃ found, declared = some found ∧ overlay state found = .ok overlaid := by
  cases declared with
  | none => exact .inl ⟨rfl, (Except.ok.inj taken).symm⟩
  | some found => exact .inr ⟨found, rfl, taken⟩

/-- Absorbing a state is merging it in and then taking the declared state over. -/
theorem merged_overlaid_of_absorb
    {rules : TypeRules}
    {offset : UInt16}
    {existing : Option FrameState}
    {incoming merged : FrameState}
    (found : absorb rules offset existing incoming = .ok merged) :
    ∃ state,
      (existing = none ∧ state = incoming ∨
        ∃ old,
          existing = some old ∧
            merge rules rules.declared[offset]? old incoming = .ok state) ∧
        (rules.declared[offset]? = none ∧ merged = state ∨
          ∃ declared,
            rules.declared[offset]? = some declared ∧
              overlay state declared = .ok merged) := by
  unfold absorb at found
  have found := mapError_eq_ok_iff.mp found
  cases existing with
  | none =>
      exact ⟨incoming, .inl ⟨rfl, rfl⟩, overlaid_of_declared found⟩
  | some old =>
      obtain ⟨state, mergedFound, taken⟩ := bind_eq_ok_iff.mp found
      exact ⟨state, .inr ⟨old, rfl, mergedFound⟩, overlaid_of_declared taken⟩

/-- Absorbing a state widens the state that was there to one that covers both. -/
theorem absorbed_of_absorb
    {strict : Prop}
    {rules : TypeRules}
    {offset : UInt16}
    {existing : Option FrameState}
    {incoming merged : FrameState}
    (declaredKnown : KnownDeclared strict rules)
    (found : absorb rules offset existing incoming = .ok merged)
    (incomingKnown : strict → incoming.KnownStack)
    (existingHolds :
      ∀ old,
        existing = some old →
          Holds rules.declared[offset]? old ∧ (strict → old.KnownStack)) :
    Absorbed strict rules offset existing incoming merged := by
  obtain ⟨state, reached, overlaid⟩ := merged_overlaid_of_absorb found
  have covers :
      (∀ old other,
          existing = some old →
            Fits rules.hierarchy rules.declared[offset]? other old →
              Fits rules.hierarchy rules.declared[offset]? other state) ∧
        Fits rules.hierarchy rules.declared[offset]? incoming state ∧
          (strict → state.KnownStack) := by
    rcases reached with ⟨missing, rfl⟩ | ⟨old, existed, mergedFound⟩
    · exact ⟨by simp [missing], .refl _ _, incomingKnown⟩
    · obtain ⟨oldHolds, oldKnown⟩ := existingHolds old existed
      obtain ⟨earlier, incomingFits, stateKnown⟩ :=
        fits_of_merge mergedFound oldHolds
          (fun noFrames => oldKnown (declaredKnown.required noFrames))
          fun noFrames => incomingKnown (declaredKnown.required noFrames)
      refine ⟨?_, incomingFits, fun asked => stateKnown (oldKnown asked)⟩
      intro other state otherExisted fits
      obtain rfl : old = other := by simpa [existed] using otherExisted
      exact earlier state fits
  obtain ⟨earlier, incomingFits, stateKnown⟩ := covers
  rcases overlaid with ⟨missing, rfl⟩ | ⟨declared, declaredFound, overlaidFound⟩
  · refine ⟨incomingFits, earlier, ?_, stateKnown⟩
    rw [missing]
    exact ⟨by simp [HoldsTypes, fixedAt], by simp [HoldsTypes, fixedAt]⟩
  · obtain ⟨widens, holds, known⟩ :=
      fits_of_overlay rules.hierarchy overlaidFound
    rw [declaredFound] at earlier incomingFits
    refine ⟨?_, ?_, ?_, fun asked =>
      known (stateKnown asked) (declaredKnown.known offset declared declaredFound asked)⟩
    · rw [declaredFound]
      exact widens incoming incomingFits
    · rw [declaredFound]
      intro old other existed fits
      exact widens other (earlier old other existed fits)
    · rw [declaredFound]
      exact holds

end Absorb

end FrameState
end JvmClass
