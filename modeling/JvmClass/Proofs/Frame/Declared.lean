import JvmClass.Proofs.Frame.Analysis
import JvmClass.Proofs.Frame.Typing

namespace JvmClass

/-!
# States that frames declare

Frames without objects that have no class yet declare types that an analysis takes
over as they are.  They mean the same types at other offsets and in a pool that
has grown.
-/

/-- The types that a frame lists. -/
def StackMap.Frame.types : StackMap.Frame → List StackMap.TypeInfo
  | .same _ | .sameExtended _ | .chop _ _ => []
  | .oneStack _ value | .oneStackExtended _ value => [value]
  | .append _ locals => locals
  | .full _ locals stack => locals ++ stack

/-- A frame lists no object that has no class yet, by the instruction that created it. -/
def StackMap.Frame.IsSettled (frame : StackMap.Frame) : Prop :=
  ∀ offset, .uninitialized offset ∉ frame.types

/-- The type is that of an object that has no class yet, by the instruction that created it. -/
def StackMap.TypeInfo.isNew : StackMap.TypeInfo → Bool
  | .uninitialized _ => true
  | _ => false

instance (frame : StackMap.Frame) : Decidable frame.IsSettled :=
  decidable_of_iff (∀ info ∈ frame.types, info.isNew = false) <| by
    constructor
    · intro none offset member
      cases none _ member
    · intro settled info member
      cases info with
      | uninitialized offset => exact absurd member (settled offset)
      | _ => rfl

namespace SlotType

theorem isFixed_of_isPlain
    {type : SlotType}
    (plain : type.isPlain = true) :
    type.isFixed = true ∧ type ≠ .unmerged := by
  cases type with
  | uninitialized | unmerged => cases plain
  | _ => exact ⟨rfl, nofun⟩

/-- A type with an offset is the only one that is not plain. -/
theorem isPlain_of_ofTypeInfo
    {pool : Pool}
    {info : StackMap.TypeInfo}
    {type : SlotType}
    (settled : ∀ offset, info ≠ .uninitialized offset)
    (found : ofTypeInfo pool info = .ok type) :
    type.isPlain = true := by
  cases info with
  | uninitialized offset => exact absurd rfl (settled offset)
  | object index =>
      simp only [ofTypeInfo] at found
      split at found <;> cases found
      rfl
  | _ =>
      cases found
      rfl

theorem ofTypeInfo_of_extends
    {pool grown : Pool}
    {info : StackMap.TypeInfo}
    {type : SlotType}
    (kept : Entry.Extends pool.entries grown.entries)
    (found : ofTypeInfo pool info = .ok type) :
    ofTypeInfo grown info = .ok type := by
  cases info with
  | object index =>
      simp only [ofTypeInfo] at found ⊢
      split at found
      · rename_i name named
        rw [show grown.className index = .ok name from kept.classNameAt named]
        exact found
      · cases found
  | _ => exact found

theorem isPlain_expand
    {type other : SlotType}
    (plain : type.isPlain = true)
    (member : other ∈ type.expand) :
    other.isPlain = true := by
  unfold expand at member
  split at member
  · rcases List.mem_pair.mp member with rfl | rfl
    · exact plain
    · rfl
  · obtain rfl := List.mem_singleton.mp member
    exact plain

theorem isPlain_written {type : SlotType} (plain : type.isPlain = true) :
    type.written.isPlain = true := by
  cases type <;> trivial

/-- What locals are folded to is what they are written as. -/
theorem mem_fold
    {done locals : List SlotType}
    {type : SlotType}
    (member : type ∈ fold done locals) :
    type ∈ done ∨ ∃ held ∈ locals, type = held.written := by
  fun_induction fold done locals with
  | case1 done => exact .inl (by simpa using member)
  | case2 done held =>
      rcases List.mem_cons.mp (List.mem_reverse.mp member) with rfl | earlier
      · exact .inr ⟨held, by simp, rfl⟩
      · exact .inl earlier
  | case3 done held next rest folds inductionHypothesis =>
      rcases inductionHypothesis member with earlier | ⟨other, among, rfl⟩
      · rcases List.mem_cons.mp earlier with rfl | earlier
        · exact .inr ⟨held, by simp, rfl⟩
        · exact .inl earlier
      · exact .inr ⟨other, by simp [among], rfl⟩
  | case4 done held next rest folds inductionHypothesis =>
      rcases inductionHypothesis member with earlier | ⟨other, among, rfl⟩
      · rcases List.mem_cons.mp earlier with rfl | earlier
        · exact .inr ⟨held, by simp, rfl⟩
        · exact .inl earlier
      · exact .inr ⟨other, List.mem_cons_of_mem _ among, rfl⟩

/-- Compact locals are what locals are written as. -/
theorem mem_compact
    {locals : List SlotType}
    {type : SlotType}
    (member : type ∈ compact locals) :
    ∃ held ∈ locals, type = held.written := by
  have among := List.dropWhile_sublist _ |>.subset (List.mem_reverse.mp member)
  exact (mem_fold (List.mem_reverse.mp among)).resolve_left (by simp)

/-- Plain types are plain in the form of a frame. -/
theorem isPlain_compact
    {locals : List SlotType}
    (plain : ∀ type ∈ locals, type.isPlain = true) :
    ∀ type ∈ compact locals, type.isPlain = true := by
  intro type member
  obtain ⟨held, among, rfl⟩ := mem_compact member
  exact isPlain_written (plain held among)

end SlotType

namespace FrameState

section Frames

variable {pool grown : Pool} {offset other bound : UInt16} {previous locals stack : List SlotType}
  {frame : StackMap.Frame} {frames : List (UInt16 × StackMap.Frame)}
  {states result : Std.TreeMap UInt16 FrameState} {state initial : FrameState}

theorem isPlain_of_mapM
    {infos : List StackMap.TypeInfo}
    {types : List SlotType}
    (settled : ∀ offset, .uninitialized offset ∉ infos)
    (found : infos.mapM (SlotType.ofTypeInfo pool) = .ok types) :
    ∀ type ∈ types, type.isPlain = true := by
  have paired := mapM_eq_ok_iff.mp found
  clear found
  induction paired with
  | nil => simp
  | cons first _ inductionHypothesis =>
      simp only [List.mem_cons, not_or] at settled
      rw [List.forall_mem_cons]
      exact
        ⟨SlotType.isPlain_of_ofTypeInfo (fun offset same => (settled offset).1 same.symm) first,
          inductionHypothesis fun offset => (settled offset).2⟩

/-- A settled frame declares plain types. -/
theorem isPlain_of_expandFrame
    (settled : frame.IsSettled)
    (plain : ∀ type ∈ previous, type.isPlain = true)
    (found : expandFrame pool offset previous frame = .ok (locals, stack)) :
    (∀ type ∈ locals, type.isPlain = true) ∧ ∀ type ∈ stack, type.isPlain = true := by
  cases frame with
  | same | sameExtended =>
      cases found
      exact ⟨plain, nofun⟩
  | oneStack delta value | oneStackExtended delta value =>
      obtain ⟨type, typeFound, found⟩ := bind_eq_ok_iff.mp found
      cases found
      refine ⟨plain, fun other member => ?_⟩
      obtain rfl := List.mem_singleton.mp member
      refine SlotType.isPlain_of_ofTypeInfo (fun offset same => ?_) typeFound
      exact settled offset (by simp [StackMap.Frame.types, same])
  | chop delta count =>
      simp only [expandFrame] at found
      split at found
      · cases found
        exact ⟨fun type member => plain type (List.mem_of_mem_take member), nofun⟩
      · cases found
  | append delta added =>
      obtain ⟨types, typesFound, found⟩ := bind_eq_ok_iff.mp found
      cases found
      have addedPlain := isPlain_of_mapM settled typesFound
      refine ⟨fun type member => ?_, nofun⟩
      exact (List.mem_append.mp member).elim (plain type) (addedPlain type)
  | full delta locals values =>
      obtain ⟨localTypes, localsFound, found⟩ := bind_eq_ok_iff.mp found
      obtain ⟨types, typesFound, found⟩ := bind_eq_ok_iff.mp found
      cases found
      exact
        ⟨isPlain_of_mapM (fun offset member => settled offset (List.mem_append_left _ member))
            localsFound,
          isPlain_of_mapM (fun offset member => settled offset (List.mem_append_right _ member))
            typesFound⟩

/-- A state of plain types is taken over as it is. -/
theorem fixes_of_ofCompact
    (plainLocals : ∀ type ∈ locals, type.isPlain = true)
    (plainStack : ∀ type ∈ stack, type.isPlain = true)
    (found : ofCompact offset bound locals stack = .ok state) :
    Fixes bound.toNat state := by
  unfold ofCompact at found
  simp only at found
  split at found
  · cases found
  · rename_i short
    cases found
    refine ⟨fun type member => ?_, fun type member => ?_, ?_⟩
    · exact SlotType.isFixed_of_isPlain (plainStack type (List.mem_reverse.mp member))
    · apply SlotType.isFixed_of_isPlain
      rcases List.mem_append.mp member with expanded | filled
      · obtain ⟨held, listed, among⟩ := List.mem_flatMap.mp expanded
        exact SlotType.isPlain_expand (plainLocals held listed) among
      · rw [(List.mem_replicate.mp filled).2]
        rfl
    · rw [length_padTo]
      omega

/-- What settled frames declare is taken over as it is, and only at their offsets. -/
theorem cases_of_expandFrames
    (settled : ∀ row ∈ frames, row.2.IsSettled)
    (plain : ∀ type ∈ previous, type.isPlain = true)
    (found : expandFrames pool bound states previous frames = .ok result)
    (declared : result[offset]? = some state) :
    states[offset]? = some state ∨
      (∃ row ∈ frames, row.1 = offset) ∧ Fixes bound.toNat state := by
  induction frames generalizing states previous with
  | nil =>
      cases found
      exact .inl declared
  | cons first rest inductionHypothesis =>
      obtain ⟨⟨locals, stack⟩, expanded, found⟩ := bind_eq_ok_iff.mp found
      obtain ⟨held, heldFound, found⟩ := bind_eq_ok_iff.mp found
      rw [List.forall_mem_cons] at settled
      obtain ⟨plainLocals, plainStack⟩ := isPlain_of_expandFrame settled.1 plain expanded
      rcases inductionHypothesis settled.2 plainLocals found with before | ⟨⟨row, listed, here⟩, fixes⟩
      · rw [Std.TreeMap.getElem?_insert] at before
        split at before
        · rename_i same
          cases before
          exact .inr ⟨⟨first, by simp, Std.LawfulEqOrd.eq_of_compare same⟩,
            fixes_of_ofCompact plainLocals plainStack heldFound⟩
        · exact .inl before
      · exact .inr ⟨⟨row, List.mem_cons_of_mem _ listed, here⟩, fixes⟩

/-- Every frame declares a state. -/
theorem isSome_of_expandFrames
    (found : expandFrames pool bound states previous frames = .ok result)
    (declares : states[offset]?.isSome = true ∨ ∃ row ∈ frames, row.1 = offset) :
    result[offset]?.isSome = true := by
  induction frames generalizing states previous with
  | nil =>
      cases found
      simpa using declares
  | cons first rest inductionHypothesis =>
      obtain ⟨⟨locals, stack⟩, expanded, found⟩ := bind_eq_ok_iff.mp found
      obtain ⟨held, heldFound, found⟩ := bind_eq_ok_iff.mp found
      refine inductionHypothesis found ?_
      rw [Std.TreeMap.getElem?_insert]
      rcases declares with before | ⟨row, listed, here⟩
      · left
        split
        · rfl
        · exact before
      · rcases List.mem_cons.mp listed with rfl | later
        · left
          rw [if_pos (by rw [here]; exact Std.ReflCmp.compare_self)]
          rfl
        · exact .inr ⟨row, later, here⟩

/-! ## Frames that moved -/

theorem mapM_ofTypeInfo_of_extends
    {infos : List StackMap.TypeInfo}
    {types : List SlotType}
    (kept : Entry.Extends pool.entries grown.entries)
    (found : infos.mapM (SlotType.ofTypeInfo pool) = .ok types) :
    infos.mapM (SlotType.ofTypeInfo grown) = .ok types :=
  mapM_eq_ok_iff.mpr
    ((mapM_eq_ok_iff.mp found).imp fun _ _ => SlotType.ofTypeInfo_of_extends kept)

/-- A frame means the same at another offset and in a pool that has grown. -/
theorem expandFrame_of_extends
    {types : List SlotType × List SlotType}
    (kept : Entry.Extends pool.entries grown.entries)
    (found : expandFrame pool offset previous frame = .ok types) :
    expandFrame grown other previous frame = .ok types := by
  cases frame with
  | same | sameExtended => exact found
  | oneStack delta value | oneStackExtended delta value =>
      obtain ⟨type, typeFound, found⟩ := bind_eq_ok_iff.mp found
      exact bind_eq_ok_iff.mpr ⟨type, SlotType.ofTypeInfo_of_extends kept typeFound, found⟩
  | chop delta count =>
      simp only [expandFrame] at found ⊢
      split at found
      · rename_i enough
        rw [if_pos enough]
        exact found
      · cases found
  | append delta added =>
      obtain ⟨added, addedFound, found⟩ := bind_eq_ok_iff.mp found
      exact bind_eq_ok_iff.mpr ⟨added, mapM_ofTypeInfo_of_extends kept addedFound, found⟩
  | full delta locals values =>
      obtain ⟨locals, localsFound, found⟩ := bind_eq_ok_iff.mp found
      obtain ⟨values, valuesFound, found⟩ := bind_eq_ok_iff.mp found
      exact
        bind_eq_ok_iff.mpr
          ⟨locals, mapM_ofTypeInfo_of_extends kept localsFound,
            bind_eq_ok_iff.mpr
              ⟨values, mapM_ofTypeInfo_of_extends kept valuesFound, found⟩⟩

theorem ofCompact_of_ok
    (found : ofCompact offset bound locals stack = .ok state) :
    ofCompact other bound locals stack = .ok state := by
  unfold ofCompact at found ⊢
  simp only at found ⊢
  split at found
  · cases found
  · rename_i short
    rw [if_neg short]
    exact found

/-- Frames that were moved declare at their new offsets what they declared at the old ones. -/
theorem getElem?_eq_of_expandFrames
    {others : List (UInt16 × StackMap.Frame)}
    {otherStates otherResult : Std.TreeMap UInt16 FrameState}
    {moves : UInt16 → UInt16 → Prop}
    (kept : Entry.Extends pool.entries grown.entries)
    (apart : ∀ {first second third fourth}, moves first second → moves third fourth →
      (first = third ↔ second = fourth))
    (rows : List.Forall₂ (fun row other => moves row.1 other.1 ∧ other.2 = row.2) frames others)
    (same : ∀ {first second}, moves first second → otherStates[second]? = states[first]?)
    (found : expandFrames pool bound states previous frames = .ok result)
    (otherFound : expandFrames grown bound otherStates previous others = .ok otherResult)
    (moved : moves offset other) :
    otherResult[other]? = result[offset]? := by
  induction rows generalizing states otherStates previous with
  | nil =>
      cases found
      cases otherFound
      exact same moved
  | @cons row another frames others first _ inductionHypothesis =>
      obtain ⟨here, sameFrame⟩ := first
      obtain ⟨types, expanded, found⟩ := bind_eq_ok_iff.mp found
      obtain ⟨held, heldFound, found⟩ := bind_eq_ok_iff.mp found
      obtain ⟨otherTypes, otherExpanded, otherFound⟩ := bind_eq_ok_iff.mp otherFound
      obtain ⟨otherHeld, otherHeldFound, otherFound⟩ := bind_eq_ok_iff.mp otherFound
      rw [sameFrame, expandFrame_of_extends kept expanded] at otherExpanded
      cases otherExpanded
      rw [ofCompact_of_ok heldFound] at otherHeldFound
      cases otherHeldFound
      refine inductionHypothesis (fun {first second} goes => ?_) found otherFound
      have keys := apart here goes
      rw [Std.TreeMap.getElem?_insert, Std.TreeMap.getElem?_insert, same goes]
      have compares : compare another.1 second = .eq ↔ compare row.1 first = .eq := by
        rw [Std.LawfulEqCmp.compare_eq_iff_eq, Std.LawfulEqCmp.compare_eq_iff_eq, keys]
      simp only [compares]

/-! ## States on entry -/

/-- On entry no local variable holds an object by the instruction that created it. -/
theorem isPlain_of_initial
    {method : MethodContext}
    (found : FrameState.initial method = .ok initial) :
    ∀ type ∈ initial.locals, type.isPlain = true := by
  obtain ⟨type, _, found⟩ := bind_eq_ok_iff.mp found
  cases found
  intro held member
  rcases List.mem_append.mp member with receiver | param
  · split at receiver
    · cases receiver
    · split at receiver <;> obtain rfl := List.mem_singleton.mp receiver <;> rfl
  · obtain ⟨field, _, among⟩ := List.mem_flatMap.mp param
    exact SlotType.isPlain_expand (SlotType.isPlain_ofFieldType field) among

end Frames

end FrameState

end JvmClass
