import JvmClass.Body.Labeling
import Mathlib.Data.List.Sort

namespace JvmClass.Labeling

/-!
# Labels in ascending order

Labels number the marked offsets from zero in ascending order: label `n` is the
offset behind which exactly `n` marked offsets lie further down.
-/

theorem size_mark
    (size : Nat)
    (offsets : List Nat) :
    (mark size offsets).size = size + 1 := by
  suffices kept :
      ∀ marked : Array Bool,
        (offsets.foldl (fun marked offset => marked.setIfInBounds offset true) marked).size =
          marked.size by
    simpa [mark] using kept (Array.replicate (size + 1) false)
  intro marked
  induction offsets generalizing marked with
  | nil => rfl
  | cons offset offsets inductionHypothesis => simp [inductionHypothesis]

/-- The marked offsets are those of the list that lie in the body. -/
theorem mark_iff
    {size offset : Nat}
    {offsets : List Nat} :
    (mark size offsets).getD offset false = true ↔ offset ∈ offsets ∧ offset ≤ size := by
  suffices folded :
      ∀ marked : Array Bool, marked.size = size + 1 →
        ((offsets.foldl (fun marked offset => marked.setIfInBounds offset true) marked).getD
            offset false = true ↔
          (offset ∈ offsets ∧ offset ≤ size) ∨ marked.getD offset false = true) by
    rw [mark, folded _ (by simp)]
    simp [Array.getD_eq_getD_getElem?, Array.getElem?_replicate]
    split <;> simp
  intro marked bound
  induction offsets generalizing marked with
  | nil => simp
  | cons first offsets inductionHypothesis =>
      rw [List.foldl_cons, inductionHypothesis _ (by simpa using bound)]
      have set :
          (marked.setIfInBounds first true).getD offset false = true ↔
            (offset = first ∧ offset ≤ size) ∨ marked.getD offset false = true := by
        simp only [Array.getD_eq_getD_getElem?, Array.getElem?_setIfInBounds]
        by_cases same : first = offset
        · subst same
          by_cases inside : first < marked.size
          · have small : first ≤ size := by omega
            simp [inside, small]
          · have large : ¬ first ≤ size := by omega
            simp [inside, large]
        · simp only [if_neg same]
          constructor
          · exact .inr
          · rintro (⟨rfl, _⟩ | held)
            · exact absurd rfl same
            · exact held
      rw [set, List.mem_cons]
      tauto

/-- Counting from the left gives each place the number of marks in front of it. -/
theorem toList_countBelow
    (count : Nat)
    (done : Array Nat)
    (bits : List Bool) :
    (countBelow count done bits).toList =
      done.toList ++
        (List.range bits.length).map fun place => count + (bits.take place).count true := by
  induction bits generalizing count done with
  | nil => simp [countBelow]
  | cons bit bits inductionHypothesis =>
      rw [countBelow, inductionHypothesis, List.length_cons, List.range_succ_eq_map]
      have heads : bit.toNat = if bit = true then 1 else 0 := by cases bit <;> rfl
      simp only [Array.toList_push, List.append_assoc, List.singleton_append, List.map_cons,
        List.map_map, List.take_zero, List.count_nil, Nat.add_zero, List.append_cancel_left_eq,
        List.cons.injEq, true_and, List.map_inj_left, Function.comp_apply, List.take_succ_cons,
        List.count_cons, beq_true, heads]
      intro place _
      omega

section Ascending

variable {size : Nat} {offsets marks : List Nat}

/-- In an ascending row, those below a member are those in front of it. -/
theorem filter_lt_eq_take
    {place offset : Nat}
    (ascending : marks.Pairwise (· < ·))
    (placed : marks[place]? = some offset) :
    marks.filter (· < offset) = marks.take place := by
  obtain ⟨inside, rfl⟩ := List.getElem?_eq_some_iff.mp placed
  refine ((ascending.sublist List.filter_sublist).eq_of_mem_iff
    (ascending.sublist (List.take_sublist _ _)) ?_)
  intro other
  simp only [List.mem_filter, decide_eq_true_eq, List.mem_take_iff_getElem]
  constructor
  · rintro ⟨member, below⟩
    obtain ⟨position, bound, rfl⟩ := List.getElem_of_mem member
    refine ⟨position, ?_, rfl⟩
    by_contra behind
    have later : place ≤ position := by omega
    rcases Nat.eq_or_lt_of_le later with rfl | later
    · omega
    · have := List.pairwise_iff_getElem.mp ascending place position inside bound later
      omega
  · rintro ⟨position, bound, rfl⟩
    exact ⟨List.getElem_mem _,
      List.pairwise_iff_getElem.mp ascending position place (by omega) inside (by omega)⟩

/-- The number of marks below a marked offset is its place among the marks. -/
theorem getElem?_below
    {place offset : Nat}
    (ascending : marks.Pairwise (· < ·))
    (marked : ∀ offset, offset ∈ offsets ↔ offset ∈ marks)
    (bounded : ∀ offset ∈ marks, offset ≤ size)
    (placed : marks[place]? = some offset) :
    (ofOffsets size offsets).below[offset]? = some place := by
  have inside := bounded offset (List.mem_of_getElem? placed)
  have bits :
      (mark size offsets).toList = (List.range (size + 1)).map fun other => decide (other ∈ marks) := by
    refine List.ext_getElem (by simp [size_mark]) ?_
    intro position first second
    have short : position ≤ size := by simpa [Nat.lt_succ_iff] using second
    have held : (mark size offsets).getD position false = true ↔ _ := mark_iff
    rw [Array.getD_eq_getD_getElem?, Array.getElem?_eq_getElem (by simpa using first)] at held
    simp only [Option.getD_some, marked, short, and_true] at held
    rw [Array.getElem_toList, List.getElem_map, List.getElem_range, Bool.eq_iff_iff, held,
      decide_eq_true_eq]
  have front :
      (List.range offset).filter (fun other => decide (other ∈ marks)) = marks.take place := by
    rw [← filter_lt_eq_take ascending placed]
    refine (List.pairwise_lt_range.sublist List.filter_sublist).eq_of_mem_iff
      (ascending.sublist List.filter_sublist) ?_
    intro other
    simp only [List.mem_filter, List.mem_range, decide_eq_true_eq]
    exact and_comm
  have counted : ((mark size offsets).toList.take offset).count true = place := by
    rw [bits, ← List.map_take, List.take_range, Nat.min_eq_left (by omega), List.count_eq_countP,
      List.countP_map, List.countP_eq_length_filter]
    have same :
        ((fun bit => bit == true) ∘ fun other => decide (other ∈ marks)) =
          fun other => decide (other ∈ marks) := by
      funext other
      simp
    rw [same, front, List.length_take]
    exact Nat.min_eq_left (Nat.le_of_lt (List.getElem?_eq_some_iff.mp placed).1)
  have lengths : (mark size offsets).toList.length = size + 1 := by simp [size_mark]
  rw [ofOffsets, ← Array.getElem?_toList, toList_countBelow, lengths]
  simp only [List.nil_append, Nat.zero_add]
  rw [List.getElem?_map, List.getElem?_range (by omega), Option.map_some, counted]

/-- An offset carries the label that is its place among the marks. -/
theorem label?_eq_some_iff
    {offset : Nat}
    {label : Label}
    (ascending : marks.Pairwise (· < ·))
    (marked : ∀ offset, offset ∈ offsets ↔ offset ∈ marks)
    (bounded : ∀ offset ∈ marks, offset ≤ size) :
    (ofOffsets size offsets).label? offset = some label ↔ marks[label]? = some offset := by
  have isMarked :
      (ofOffsets size offsets).marked.getD offset false = true ↔ offset ∈ marks := by
    rw [← marked]
    constructor
    · intro held
      exact (mark_iff.mp held).1
    · intro member
      exact mark_iff.mpr ⟨member, bounded offset ((marked offset).mp member)⟩
  unfold label?
  constructor
  · intro found
    split at found
    · rename_i held
      obtain ⟨place, bound, same⟩ := List.getElem_of_mem (isMarked.mp held)
      have placed : marks[place]? = some offset := by rw [List.getElem?_eq_getElem bound, same]
      rw [getElem?_below ascending marked bounded placed] at found
      cases found
      exact placed
    · cases found
  · intro placed
    rw [if_pos (isMarked.mpr (List.mem_of_getElem? placed)),
      getElem?_below ascending marked bounded placed]

/-- A marked offset is referred to by the label that is its place among the marks. -/
theorem labelAt_eq
    {offset : Nat}
    {label : Label}
    (ascending : marks.Pairwise (· < ·))
    (marked : ∀ offset, offset ∈ offsets ↔ offset ∈ marks)
    (bounded : ∀ offset ∈ marks, offset ≤ size)
    (placed : marks[label]? = some offset) :
    (ofOffsets size offsets).labelAt offset = label := by
  rw [labelAt, Array.getD_eq_getD_getElem?, getElem?_below ascending marked bounded placed]
  rfl

end Ascending

end JvmClass.Labeling
