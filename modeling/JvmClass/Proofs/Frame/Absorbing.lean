import JvmClass.Frame.Analysis
import JvmClass.Proofs.Frame.Fits
import JvmClass.Proofs.Hierarchy.Absorbing

namespace JvmClass

/-!
# Absorbed states stay absorbed

A state that has absorbed another does not change when it meets it again, whatever
it has absorbed in between.  Place by place this is what common superclasses do, so
the classes of the state that is met again have to be rooted; nothing is asked of
the others.
-/

namespace Hierarchy

/-- What the first class has in common with the second is the first. -/
theorem absorbs_iff
    {hierarchy : Hierarchy}
    {wide name : String} :
    hierarchy.Absorbs wide.toList name.toList ↔
      hierarchy.commonSuperclass? wide name = some wide := by
  unfold Absorbs commonSuperclass?
  constructor
  · intro found
    rw [found, Option.map_some, String.ofList_toList]
  · intro found
    obtain ⟨common, commonFound, same⟩ := Option.map_eq_some_iff.mp found
    rw [commonFound, ← same, String.toList_ofList]

/--
The common superclass of two names, if there is one, has itself in common with each of
the two that is rooted, and with both if it is neither the root nor an array of it.
-/
theorem absorbs_of_commonSuperclass?
    {hierarchy : Hierarchy}
    {left right common : String}
    (classes : hierarchy.RelatesClasses)
    (found : hierarchy.commonSuperclass? left right = some common) :
    ∀ name ∈ [left, right],
      hierarchy.Rooted name.toList ∨ ¬ OfRoot common.toList →
        hierarchy.commonSuperclass? common name = some common := by
  obtain ⟨chars, charsFound, rfl⟩ := Option.map_eq_some_iff.mp found
  obtain ⟨leftAbsorbed, rightAbsorbed⟩ := absorbs_of_commonName? classes charsFound
  intro name member told
  rw [← absorbs_iff, String.toList_ofList]
  rw [String.toList_ofList] at told
  simp only [List.mem_cons, List.not_mem_nil, or_false] at member
  rcases member with rfl | rfl
  · exact leftAbsorbed told
  · exact rightAbsorbed told

end Hierarchy

/-! ## Types -/

namespace SlotType

/-- The class of a type is rooted, if it has one. -/
def Rooted (hierarchy : Hierarchy) : SlotType → Prop
  | .object name => hierarchy.Rooted name.toList
  | _ => True

section Types

variable {hierarchy : Hierarchy} {rules : TypeRules}

/-- Classes merge to their common superclass. -/
theorem merge?_objects (left right : String) :
    merge? hierarchy (.object left) (.object right) =
      (hierarchy.commonSuperclass? left right).map .object := by
  by_cases same : left = right
  · simp [merge?, same, Hierarchy.commonSuperclass?]
  · simp [merge?, same]

theorem merge?_top (type : SlotType) : merge? hierarchy .top type = some .top := by
  cases type <;> simp [merge?]

/-- The root merges to itself or to an unusable value. -/
theorem eq_of_merge?_root
    {type merged : SlotType}
    (found : merge? hierarchy (.object objectName) type = some merged) :
    merged = .object objectName ∨ merged = .top := by
  cases type with
  | object name =>
      rw [merge?_objects] at found
      obtain ⟨common, commonFound, rfl⟩ := Option.map_eq_some_iff.mp found
      obtain ⟨chars, charsFound, rfl⟩ := Option.map_eq_some_iff.mp commonFound
      left
      rw [Hierarchy.eq_of_commonName?_root charsFound, String.ofList_toList]
  | unmerged => simp [merge?] at found
  | _ => simp_all [merge?]

/-- What two types merge to has absorbed the second. -/
theorem merge?_again
    {left right merged : SlotType}
    (classes : hierarchy.RelatesClasses)
    (rooted : right.Rooted hierarchy)
    (found : merge? hierarchy left right = some merged) :
    merge? hierarchy merged right = some merged := by
  unfold merge? at found
  split at found
  · rename_i same
    cases found
    rw [same]
    exact if_pos rfl
  · split at found
    · cases found
      exact if_pos rfl
    · cases found
      simp [merge?]
    · rename_i left right _
      obtain ⟨common, commonFound, rfl⟩ := Option.map_eq_some_iff.mp found
      rw [merge?_objects,
        Hierarchy.absorbs_of_commonSuperclass? classes commonFound right (by simp) (.inl rooted)]
      rfl
    all_goals cases found
    exact merge?_top right

/-- What has absorbed a type has still absorbed it when it is merged further. -/
theorem merge?_onward
    {held type other merged : SlotType}
    (classes : hierarchy.RelatesClasses)
    (rooted : type.Rooted hierarchy)
    (absorbed : merge? hierarchy held type = some held)
    (found : merge? hierarchy held other = some merged) :
    merge? hierarchy merged type = some merged := by
  unfold merge? at found
  split at found
  · cases found
    exact absorbed
  · rename_i different
    split at found
    · cases found
      cases type <;> simp_all [merge?]
    · cases found
      exact absorbed
    · rename_i wide other
      obtain ⟨common, commonFound, rfl⟩ := Option.map_eq_some_iff.mp found
      cases type with
      | object name =>
          rw [merge?_objects] at absorbed ⊢
          obtain ⟨shared, sharedFound, same⟩ := Option.map_eq_some_iff.mp absorbed
          cases same
          obtain ⟨chars, charsFound, rfl⟩ := Option.map_eq_some_iff.mp commonFound
          have further :=
            (Hierarchy.absorbs_iff.mpr sharedFound).onward classes rooted charsFound
          rw [← String.toList_ofList (l := chars), Hierarchy.absorbs_iff] at further
          rw [further]
          rfl
      | null => simp [merge?]
      | _ => simp [merge?] at absorbed
    all_goals cases found
    exact merge?_top type

/-! ## References -/

/-- A type of references, also one that is not known any more. -/
def isReference : SlotType → Bool
  | .null | .object _ | .unmerged => true
  | _ => false

/-- Only references do not merge. -/
theorem isReference_of_merge?_eq_none
    {left right : SlotType}
    (missing : merge? hierarchy left right = none) :
    left.isReference = true ∧ right.isReference = true := by
  unfold merge? at missing
  split at missing
  · cases missing
  · split at missing <;> first | exact ⟨rfl, rfl⟩ | cases missing

/-- References have absorbed references only. -/
theorem isReference_of_absorbed
    {held type : SlotType}
    (absorbed : merge? hierarchy held type = some held)
    (reference : held.isReference = true) :
    type.isReference = true := by
  unfold merge? at absorbed
  split at absorbed
  · rename_i same
    rwa [← same]
  · split at absorbed
    · rfl
    · rfl
    · rfl
    all_goals cases absorbed
    cases reference

theorem mergeLocal_unmerged
    {type : SlotType}
    (reference : type.isReference = true) :
    mergeLocal rules .unmerged type = .unmerged := by
  cases type with
  | null | object _ | unmerged => rfl
  | _ => cases reference

theorem mergeLocal_top (type : SlotType) : mergeLocal rules .top type = .top := by
  rw [mergeLocal, merge?_top, Option.getD_some]

/-- What two locals merge to has absorbed the second. -/
theorem mergeLocal_again
    {right : SlotType}
    (classes : rules.hierarchy.RelatesClasses)
    (rooted : right.Rooted rules.hierarchy)
    (left : SlotType) :
    mergeLocal rules (mergeLocal rules left right) right = mergeLocal rules left right := by
  cases found : merge? rules.hierarchy left right with
  | some merged =>
      have shape : mergeLocal rules left right = merged := by simp [mergeLocal, found]
      rw [shape, mergeLocal, merge?_again classes rooted found, Option.getD_some]
  | none =>
      have shape : mergeLocal rules left right = .unmerged := by simp [mergeLocal, found]
      rw [shape, mergeLocal_unmerged (isReference_of_merge?_eq_none found).2]

/-- A local that has absorbed a type has still absorbed it when it is merged further. -/
theorem mergeLocal_onward
    {held type : SlotType}
    (classes : rules.hierarchy.RelatesClasses)
    (rooted : type.Rooted rules.hierarchy)
    (absorbed : mergeLocal rules held type = held)
    (other : SlotType) :
    mergeLocal rules (mergeLocal rules held other) type = mergeLocal rules held other := by
  cases heldFound : merge? rules.hierarchy held type with
  | some merged =>
      obtain rfl : merged = held := by simpa [mergeLocal, heldFound] using absorbed
      cases found : merge? rules.hierarchy merged other with
      | some further =>
          have shape : mergeLocal rules merged other = further := by simp [mergeLocal, found]
          rw [shape, mergeLocal, merge?_onward classes rooted heldFound found, Option.getD_some]
      | none =>
          have shape : mergeLocal rules merged other = .unmerged := by simp [mergeLocal, found]
          have reference := (isReference_of_merge?_eq_none found).1
          rw [shape, mergeLocal_unmerged (isReference_of_absorbed heldFound reference)]
  | none =>
      obtain rfl : .unmerged = held := by simpa [mergeLocal, heldFound] using absorbed
      by_cases reference : other.isReference = true
      · rw [mergeLocal_unmerged reference, absorbed]
      · have shape : mergeLocal rules .unmerged other = .top := by
          cases other <;> first | rfl | exact absurd rfl reference
        rw [shape, mergeLocal_top]

/-- Two stack values merge as types do; without frames unrelated references give the root. -/
theorem mergeStackValue_eq_ok_iff
    {left right merged : SlotType} :
    mergeStackValue rules left right = .ok merged ↔
      (merge? rules.hierarchy left right = some merged ∧
          (merged = .top → left = .top ∨ right = .top)) ∨
        rules.emitFrames = false ∧ merge? rules.hierarchy left right = none ∧
          merged = .object objectName := by
  unfold mergeStackValue
  cases found : merge? rules.hierarchy left right with
  | some value =>
      simp only [pure, Except.pure, bind, Except.bind, Option.some.injEq, reduceCtorEq, false_and,
        and_false, or_false]
      split
      · rename_i incompatible
        obtain ⟨isTop, leftKnown, rightKnown⟩ := incompatible
        simp only [reduceCtorEq, false_iff]
        rintro ⟨rfl, either⟩
        exact (either isTop).elim leftKnown rightKnown
      · rename_i compatible
        simp only [Except.ok.injEq]
        constructor
        · rintro rfl
          exact ⟨rfl, fun isTop => by tauto⟩
        · exact fun both => both.1
  | none =>
      cases emits : rules.emitFrames with
      | true => simp [bind, Except.bind]
      | false => simp [bind, Except.bind, pure, Except.pure, eq_comm]

/-- The root absorbs references as a stack value. -/
theorem mergeStackValue_root
    {type : SlotType}
    (noFrames : rules.emitFrames = false)
    (rooted : type.Rooted rules.hierarchy)
    (reference : type.isReference = true) :
    mergeStackValue rules (.object objectName) type = .ok (.object objectName) := by
  rw [mergeStackValue_eq_ok_iff]
  cases type with
  | null => exact .inl ⟨by simp [merge?], nofun⟩
  | object name =>
      have absorbed := Hierarchy.absorbs_iff.mp (Hierarchy.absorbs_root rooted)
      exact .inl ⟨by rw [merge?_objects, absorbed]; rfl, nofun⟩
  | unmerged => exact .inr ⟨noFrames, rfl, rfl⟩
  | _ => cases reference

/-- What two stack values merge to has absorbed the second. -/
theorem mergeStackValue_again
    {left right merged : SlotType}
    (classes : rules.hierarchy.RelatesClasses)
    (rooted : right.Rooted rules.hierarchy)
    (found : mergeStackValue rules left right = .ok merged) :
    mergeStackValue rules merged right = .ok merged := by
  rcases mergeStackValue_eq_ok_iff.mp found with ⟨found, _⟩ | ⟨noFrames, missing, rfl⟩
  · exact mergeStackValue_eq_ok_iff.mpr (.inl ⟨merge?_again classes rooted found, .inl⟩)
  · exact mergeStackValue_root noFrames rooted (isReference_of_merge?_eq_none missing).2

/-- A stack value that has absorbed a type has still absorbed it when it is merged further. -/
theorem mergeStackValue_onward
    {held type other merged : SlotType}
    (classes : rules.hierarchy.RelatesClasses)
    (rooted : type.Rooted rules.hierarchy)
    (absorbed : mergeStackValue rules held type = .ok held)
    (found : mergeStackValue rules held other = .ok merged) :
    mergeStackValue rules merged type = .ok merged := by
  rcases mergeStackValue_eq_ok_iff.mp absorbed with ⟨absorbed, _⟩ | ⟨noFrames, missing, rfl⟩
  · rcases mergeStackValue_eq_ok_iff.mp found with ⟨found, _⟩ | ⟨noFrames, missing, rfl⟩
    · exact mergeStackValue_eq_ok_iff.mpr
        (.inl ⟨merge?_onward classes rooted absorbed found, .inl⟩)
    · have reference := (isReference_of_merge?_eq_none missing).1
      exact mergeStackValue_root noFrames rooted (isReference_of_absorbed absorbed reference)
  · have reference := (isReference_of_merge?_eq_none missing).2
    rcases mergeStackValue_eq_ok_iff.mp found with ⟨found, known⟩ | ⟨_, _, rfl⟩
    · rcases eq_of_merge?_root found with rfl | rfl
      · exact mergeStackValue_root noFrames rooted reference
      · exact mergeStackValue_eq_ok_iff.mpr (.inl ⟨merge?_top type, .inl⟩)
    · exact mergeStackValue_root noFrames rooted reference

end Types

end SlotType

/-! ## States -/

namespace FrameState

/-- A state holds what two states merge to in every place that a declared frame does not fix. -/
structure Merges
    (rules : TypeRules)
    (declared : Option FrameState)
    (left right merged : FrameState) : Prop where
  heights : left.stack.length = right.stack.length
  height : merged.stack.length = left.stack.length
  width : merged.locals.length = max left.locals.length right.locals.length
  stack :
    ∀ place,
      place < left.stack.length →
        fixedAt ((declared.map FrameState.stack).getD []) place = none →
          SlotType.mergeStackValue rules (left.stack.getD place .top)
            (right.stack.getD place .top) = .ok (merged.stack.getD place .top)
  locals :
    ∀ place,
      fixedAt ((declared.map FrameState.locals).getD []) place = none →
        SlotType.mergeLocal rules (left.locals.getD place .top) (right.locals.getD place .top) =
          merged.locals.getD place .top

/-- A state holds what a declared frame fixes, and its stack has the declared height. -/
structure Settled
    (declared : Option FrameState)
    (state : FrameState) : Prop where
  holds : Holds declared state
  height : ∀ frame ∈ declared, state.stack.length = frame.stack.length

/-- Every class that a state names is rooted. -/
def Rooted (hierarchy : Hierarchy) (state : FrameState) : Prop :=
  ∀ type ∈ state.locals ++ state.stack, type.Rooted hierarchy

section States

variable {rules : TypeRules} {declared : Option FrameState} {offset : UInt16}
  {held incoming other merged : FrameState}

theorem eq_of_getD
    {types others : List SlotType}
    (lengths : types.length = others.length)
    (places : ∀ place, place < types.length → types.getD place .top = others.getD place .top) :
    types = others := by
  refine List.ext_getElem lengths fun place inside otherInside => ?_
  simpa [List.getD_eq_getElem?_getD, inside, otherInside] using places place inside

/-- Types that hold the declared ones are not changed by them. -/
theorem overlayTypes_of_holdsTypes
    {types declared : List SlotType}
    (holds : HoldsTypes declared types) :
    overlayTypes types declared = types := by
  refine eq_of_getD (length_overlayTypes _ _) fun place inside => ?_
  rw [length_overlayTypes] at inside
  rw [getD_overlayTypes, if_pos inside]
  cases fixed : fixedAt declared place with
  | none => rfl
  | some type => exact (holds place type inside fixed).symm

/-- States are merged place by place. -/
theorem merges_of_merge
    (found : merge rules declared held incoming = .ok merged) :
    Merges rules declared held incoming merged := by
  unfold merge at found
  split at found
  · cases found
  · rename_i heights
    have heights : held.stack.length = incoming.stack.length := by simpa using heights
    obtain ⟨stack, stackFound, built⟩ := bind_eq_ok_iff.mp found
    cases built
    obtain ⟨height, places⟩ := getD_of_mergeStacks stackFound heights
    refine ⟨heights, height, length_mergeLocals _ _ _ _, fun place inside unfixed => ?_,
      fun place unfixed => ?_⟩
    · simpa [unfixed] using places place inside
    · rw [getD_mergeLocals, unfixed]
      simp

/-- Taking over a declared frame leaves the other places alone. -/
theorem Merges.overlaid
    {frame state : FrameState}
    (merges : Merges rules (some frame) held incoming state)
    (taken : overlay state frame = .ok merged) :
    Merges rules (some frame) held incoming merged := by
  unfold overlay at taken
  split at taken
  · cases taken
  · cases taken
    refine
      ⟨merges.heights, (length_overlayTypes _ _).trans merges.height,
        (length_overlayTypes _ _).trans merges.width, fun place inside unfixed => ?_,
        fun place unfixed => ?_⟩
    · have value := merges.stack place inside unfixed
      simp only [Option.map_some, Option.getD_some] at unfixed
      rw [getD_overlayTypes, if_pos (merges.height ▸ inside), unfixed, Option.getD_none, value]
    · have type := merges.locals place unfixed
      simp only [Option.map_some, Option.getD_some] at unfixed
      rw [getD_overlayTypes, unfixed, Option.getD_none, type]
      split
      · rfl
      · rw [List.getD_eq_default _ _ (by omega)]

/-- An absorbed state is merged with the one that was there. -/
theorem merges_of_absorb
    (found : absorb rules offset (some held) incoming = .ok merged) :
    Merges rules rules.declared[offset]? held incoming merged := by
  obtain ⟨state, reached, overlaid⟩ := merged_overlaid_of_absorb found
  obtain ⟨missing, _⟩ | ⟨old, existed, mergedFound⟩ := reached
  · cases missing
  · cases existed
    have merges := merges_of_merge mergedFound
    rcases overlaid with ⟨_, rfl⟩ | ⟨frame, declaredFound, taken⟩
    · exact merges
    · rw [declaredFound] at merges ⊢
      exact merges.overlaid taken

/-- A state is merged with itself where nothing was there. -/
theorem merges_of_absorb_none
    (found : absorb rules offset none incoming = .ok merged) :
    Merges rules rules.declared[offset]? merged incoming merged := by
  have self (declared : Option FrameState) : Merges rules declared incoming incoming incoming :=
    ⟨rfl, rfl, (Nat.max_self _).symm, fun _ _ _ => SlotType.mergeStackValue_self rules _,
      fun _ _ => SlotType.mergeLocal_self rules _⟩
  obtain ⟨state, reached, overlaid⟩ := merged_overlaid_of_absorb found
  obtain ⟨_, rfl⟩ | ⟨_, existed, _⟩ := reached
  · rcases overlaid with ⟨_, rfl⟩ | ⟨frame, declaredFound, taken⟩
    · exact self _
    · rw [declaredFound]
      have merges := (self (some frame)).overlaid taken
      refine ⟨merges.height.trans merges.heights, rfl, ?_, fun place inside unfixed => ?_,
        fun place unfixed => ?_⟩
      · have := merges.width
        omega
      · have value := merges.stack place (merges.height ▸ inside) unfixed
        rw [SlotType.mergeStackValue_self, Except.ok.injEq] at value
        rw [← value, SlotType.mergeStackValue_self]
      · have type := merges.locals place unfixed
        rw [SlotType.mergeLocal_self] at type
        rw [← type, SlotType.mergeLocal_self]
  · cases existed

/-- What a state has absorbed leaves it settled. -/
theorem settled_of_absorb
    {existing : Option FrameState}
    (found : absorb rules offset existing incoming = .ok merged) :
    Settled rules.declared[offset]? merged := by
  obtain ⟨state, _, ⟨missing, rfl⟩ | ⟨frame, declaredFound, taken⟩⟩ :=
    merged_overlaid_of_absorb found
  · rw [missing]
    exact ⟨⟨by simp [HoldsTypes, fixedAt], by simp [HoldsTypes, fixedAt]⟩, by simp⟩
  · rw [declaredFound]
    refine ⟨(fits_of_overlay rules.hierarchy taken).2.1, ?_⟩
    rintro frame ⟨⟩
    unfold overlay at taken
    split at taken
    · cases taken
    · rename_i heights
      cases taken
      rw [length_overlayTypes]
      simpa using heights

/-- A state that merges to itself stays as it is when it absorbs the other. -/
theorem Merges.absorb_eq
    (merges : Merges rules rules.declared[offset]? held incoming held)
    (settled : Settled rules.declared[offset]? held) :
    absorb rules offset (some held) incoming = .ok held := by
  have locals :
      mergeLocals rules ((rules.declared[offset]?.map FrameState.locals).getD []) held.locals
        incoming.locals = held.locals := by
    refine eq_of_getD ((length_mergeLocals _ _ _ _).trans merges.width.symm) fun place _ => ?_
    rw [getD_mergeLocals]
    split
    · rfl
    · rename_i unfixed
      by_cases inside : place < max held.locals.length incoming.locals.length
      · exact merges.locals place (by simpa [inside] using unfixed)
      · rw [List.getD_eq_default held.locals _ (by omega),
          List.getD_eq_default incoming.locals _ (by omega), SlotType.mergeLocal_top]
  have stack :
      mergeStacks rules
          (fixedPlaces held.stack.length ((rules.declared[offset]?.map FrameState.stack).getD []))
          held.stack incoming.stack = .ok held.stack := by
    refine mergeStacks_eq_ok_iff.mpr (List.forall₂_iff_get.mpr ⟨?_, ?_⟩)
    · simp only [List.length_zip, ← merges.heights, fixedPlaces, List.length_append,
        List.length_map, List.length_replicate]
      omega
    · intro place zipped inside
      have fixedShape := getElem?_fixedPlaces
        ((rules.declared[offset]?.map FrameState.stack).getD []) inside
      obtain ⟨_, fixedShape⟩ := List.getElem?_eq_some_iff.mp fixedShape
      simp only [List.get_eq_getElem, List.getElem_zip, fixedShape]
      split
      · rfl
      · rename_i unfixed
        have incomingInside : place < incoming.stack.length := merges.heights ▸ inside
        have value := merges.stack place inside (by simpa using unfixed)
        simpa [List.getD_eq_getElem?_getD, inside, incomingInside] using value
  have merged : merge rules rules.declared[offset]? held incoming = .ok held := by
    rw [merge, if_neg (not_not.mpr merges.heights)]
    simp only [stack, locals, bind, Except.bind, pure, Except.pure]
  unfold absorb
  simp only [merged, bind, Except.bind, pure, Except.pure]
  cases declaredFound : rules.declared[offset]? with
  | none => rfl
  | some frame =>
      rw [declaredFound] at settled
      have taken : overlay held frame = .ok held := by
        rw [overlay, if_neg (not_not.mpr (settled.height frame rfl))]
        congr 1
        exact
          FrameState.mk.injEq .. ▸
            ⟨overlayTypes_of_holdsTypes settled.holds.locals,
              overlayTypes_of_holdsTypes settled.holds.stack⟩
      simp only [taken]
      rfl

/-- What two states merge to has absorbed the second. -/
theorem Merges.again
    (classes : rules.hierarchy.RelatesClasses)
    (rooted : incoming.Rooted rules.hierarchy)
    (merges : Merges rules declared held incoming merged) :
    Merges rules declared merged incoming merged where
  heights := merges.height.trans merges.heights
  height := rfl
  width := by
    have := merges.width
    omega
  stack place inside unfixed :=
    SlotType.mergeStackValue_again classes
      (getD_of_forall trivial (fun type member => rooted type (List.mem_append_right _ member)) place)
      (merges.stack place (merges.height ▸ inside) unfixed)
  locals place unfixed := by
    rw [← merges.locals place unfixed]
    exact SlotType.mergeLocal_again classes
      (getD_of_forall trivial (fun type member => rooted type (List.mem_append_left _ member)) place) _

/-- A state that has absorbed another has still absorbed it when it is merged further. -/
theorem Merges.onward
    (classes : rules.hierarchy.RelatesClasses)
    (rooted : incoming.Rooted rules.hierarchy)
    (absorbed : Merges rules declared held incoming held)
    (merges : Merges rules declared held other merged) :
    Merges rules declared merged incoming merged where
  heights := merges.height.trans absorbed.heights
  height := rfl
  width := by
    have := merges.width
    have := absorbed.width
    omega
  stack place inside unfixed :=
    SlotType.mergeStackValue_onward classes
      (getD_of_forall trivial (fun type member => rooted type (List.mem_append_right _ member)) place)
      (absorbed.stack place (merges.height ▸ inside) unfixed)
      (merges.stack place (merges.height ▸ inside) unfixed)
  locals place unfixed := by
    rw [← merges.locals place unfixed]
    exact SlotType.mergeLocal_onward classes
      (getD_of_forall trivial (fun type member => rooted type (List.mem_append_left _ member)) place)
      (absorbed.locals place unfixed) _

/-- States that are absorbed one after the other leave what was absorbed before them absorbed. -/
theorem merges_of_absorbAll
    {others : List FrameState}
    (classes : rules.hierarchy.RelatesClasses)
    (rooted : incoming.Rooted rules.hierarchy)
    (absorbed : Merges rules rules.declared[offset]? held incoming held)
    (settled : Settled rules.declared[offset]? held)
    (found :
      others.foldlM (fun held other => absorb rules offset (some held) other) held = .ok merged) :
    Merges rules rules.declared[offset]? merged incoming merged ∧
      Settled rules.declared[offset]? merged := by
  induction others generalizing held with
  | nil =>
      cases found
      exact ⟨absorbed, settled⟩
  | cons other others inductionHypothesis =>
      obtain ⟨next, stepped, rest⟩ := bind_eq_ok_iff.mp found
      exact inductionHypothesis (absorbed.onward classes rooted (merges_of_absorb stepped))
        (settled_of_absorb stepped) rest

/-- An instruction is left alone by a state that its own state has absorbed. -/
theorem reach_of_absorb_eq
    {progress : FlowProgress}
    {position : Nat}
    (absorbed : absorb rules offset (some held) incoming = .ok held)
    (found : progress.states.getD position none = some held) :
    progress.reach rules position offset incoming = .ok progress := by
  simp [FlowProgress.reach, found, absorbed, sameAs, bind, Except.bind, pure, Except.pure]

/--
The common superclass of two names has itself in common with each of them that is
rooted, and with both if it is neither the root nor an array of it.  So a state whose
classes are rooted is absorbed for good: whatever else is absorbed behind it, meeting
it again neither fails nor changes what an instruction holds.
-/
theorem unchanged_of_absorbed
    (classes : rules.hierarchy.RelatesClasses) :
    (∀ left right common,
        rules.hierarchy.commonSuperclass? left right = some common →
          ∀ name ∈ [left, right],
            rules.hierarchy.Rooted name.toList ∨ ¬ Hierarchy.OfRoot common.toList →
              rules.hierarchy.commonSuperclass? common name = some common) ∧
      ∀ (offset : UInt16) (existing : Option FrameState) (incoming state : FrameState)
          (others : List FrameState) (held : FrameState),
        absorb rules offset existing incoming = .ok state →
          incoming.Rooted rules.hierarchy →
            others.foldlM (fun held other => absorb rules offset (some held) other) state =
                .ok held →
              absorb rules offset (some held) incoming = .ok held ∧
                ∀ (progress : FlowProgress) (position : Nat),
                  progress.states.getD position none = some held →
                    progress.reach rules position offset incoming = .ok progress := by
  refine ⟨fun _ _ _ => Hierarchy.absorbs_of_commonSuperclass? classes, ?_⟩
  intro offset existing incoming state others held first rooted rest
  have absorbed : Merges rules rules.declared[offset]? state incoming state := by
    cases existing with
    | none => exact merges_of_absorb_none first
    | some old => exact (merges_of_absorb first).again classes rooted
  obtain ⟨merges, settled⟩ :=
    merges_of_absorbAll classes rooted absorbed (settled_of_absorb first) rest
  have again := merges.absorb_eq settled
  exact ⟨again, fun progress position => reach_of_absorb_eq again⟩

end States

/-- Two classes with a common superclass below the root. -/
def siblings : Hierarchy :=
  [.table
    ⟨[("c/Base", .aClass objectName), ("c/Left", .aClass "c/Base"), ("c/Right", .aClass "c/Base")]⟩]

theorem relatesClasses_siblings : siblings.RelatesClasses :=
  Hierarchy.relatesClasses_of_table (by decide)

/-- A local that has met one of two siblings and then an unknown class is not changed by the sibling. -/
theorem unchanged_of_siblings :
    Hierarchy.RelatesClasses siblings ∧
      absorb ⟨siblings, ∅, true⟩ 0 (some ⟨[.object "c/Left"], []⟩) ⟨[.object "c/Right"], []⟩ =
        .ok ⟨[.object "c/Base"], []⟩ ∧
      [⟨[.object "c/Unknown"], []⟩].foldlM
          (fun held other => absorb ⟨siblings, ∅, true⟩ 0 (some held) other)
          ⟨[.object "c/Base"], []⟩ = .ok ⟨[.unmerged], []⟩ ∧
      absorb ⟨siblings, ∅, true⟩ 0 (some ⟨[.unmerged], []⟩) ⟨[.object "c/Right"], []⟩ =
        .ok ⟨[.unmerged], []⟩ := by
  have first :
      absorb ⟨siblings, ∅, true⟩ 0 (some ⟨[.object "c/Left"], []⟩) ⟨[.object "c/Right"], []⟩ =
        .ok ⟨[.object "c/Base"], []⟩ := by decide +kernel
  have rest :
      [⟨[.object "c/Unknown"], []⟩].foldlM
          (fun held other => absorb ⟨siblings, ∅, true⟩ 0 (some held) other)
          ⟨[.object "c/Base"], []⟩ = .ok ⟨[.unmerged], []⟩ := by decide +kernel
  have rooted : Rooted siblings ⟨[.object "c/Right"], []⟩ := by
    rintro type (_ | ⟨_, ⟨⟩⟩)
    exact .aClass (by simp) (.inr ⟨["c/Right", "c/Base", objectName], true, by decide, by decide⟩)
  exact
    ⟨relatesClasses_siblings, first, rest,
      ((unchanged_of_absorbed relatesClasses_siblings).2 0 _ _ _ _ _ first rooted rest).1⟩

/--
An array and an unknown class have the root in common, but the root and the unknown
class have nothing in common.
-/
theorem exists_not_absorbed :
    ∃ (hierarchy : Hierarchy) (left right common : String),
      (∀ name, hierarchy.ancestry name ≠ .circular) ∧
        hierarchy.commonSuperclass? left right = some common ∧
          hierarchy.commonSuperclass? common left = none := by
  refine ⟨[.table .empty], "c/Unknown", "[I", objectName, fun name => ?_, by decide +kernel,
    by decide +kernel⟩
  by_cases root : name = objectName
  · simp [Hierarchy.ancestry, Hierarchy.walk, root]
  · simp [Hierarchy.ancestry, Hierarchy.walk, root, SuperclassTable.empty, Hierarchy.lookup,
      HierarchyLayer.lookup, SuperclassTable.lookup]

end FrameState
end JvmClass
