import JvmClass.Slots

namespace JvmClass

/-!
# Ranges of slots

What an allocator hands out lies without gaps between the slot that it started
at and its mark, so no two ranges share a slot, and an access is let through
exactly if it shares none with any of them.
-/

/-- Whether a slot lies in a range. -/
def InRange (slot : Nat) (range : Nat × Nat) : Prop :=
  range.1 ≤ slot ∧ slot < range.1 + range.2

/-- Whether an access touches a slot. -/
def SlotAccess.Touches (access : SlotAccess) (slot : Nat) : Prop :=
  InRange slot (access.index.toNat, access.width)

/-- An instruction that touches a local variable touches at least one slot. -/
theorem Insn.width_pos_of_access?
    {insn : Insn}
    {access : SlotAccess}
    (accessed : insn.access? = some access) :
    0 < access.width := by
  have positive (kind : ValueKind) : 0 < kind.width := by
    cases kind <;> decide
  unfold Insn.access? at accessed
  split at accessed
  · unfold Insn.slotAccess? at accessed
    split at accessed
    · cases accessed
      exact positive _
    · split at accessed
      · cases accessed
        exact positive _
      · split at accessed
        · cases accessed
          exact Nat.one_pos
        · cases accessed
  · cases accessed
    exact Nat.one_pos
  · split at accessed
    · cases accessed
      exact positive _
    · cases accessed
      exact positive _
    · cases accessed
  · cases accessed

namespace SlotAllocator

/-! ## Ranges in a row -/

/-- Ranges that follow one another without a gap, up to a slot. -/
def Tiles (first : Nat) : List (Nat × Nat) → Nat → Prop
  | [], next => first = next
  | range :: rest, next => range.1 = first ∧ 0 < range.2 ∧ Tiles (first + range.2) rest next

namespace Tiles

variable {first next : Nat} {ranges : List (Nat × Nat)}

theorem append_range
    (tiles : Tiles first ranges next)
    {width : Nat}
    (positive : 0 < width) :
    Tiles first (ranges ++ [(next, width)]) (next + width) := by
  induction ranges generalizing first with
  | nil =>
      cases tiles
      exact ⟨rfl, positive, rfl⟩
  | cons range ranges inductionHypothesis =>
      exact ⟨tiles.1, tiles.2.1, inductionHypothesis tiles.2.2⟩

theorem bounds
    (tiles : Tiles first ranges next) :
    first ≤ next ∧
      ∀ range ∈ ranges, first ≤ range.1 ∧ 0 < range.2 ∧ range.1 + range.2 ≤ next := by
  induction ranges generalizing first with
  | nil =>
      cases tiles
      exact ⟨Nat.le_refl _, fun _ member => nomatch member⟩
  | cons range ranges inductionHypothesis =>
      obtain ⟨starts, positive, rest⟩ := tiles
      obtain ⟨ordered, inside⟩ := inductionHypothesis rest
      refine ⟨by omega, ?_⟩
      rintro other (_ | ⟨_, member⟩)
      · omega
      · have := inside other member
        omega

/-- Of two ranges the earlier one ends before the later one starts. -/
theorem pairwise
    (tiles : Tiles first ranges next) :
    ranges.Pairwise fun earlier later => earlier.1 + earlier.2 ≤ later.1 := by
  induction ranges generalizing first with
  | nil => exact .nil
  | cons range ranges inductionHypothesis =>
      obtain ⟨starts, -, rest⟩ := tiles
      refine .cons (fun later member => ?_) (inductionHypothesis rest)
      have := (rest.bounds.2 later member).1
      omega

end Tiles

/-! ## Reservations in a row -/

/-- The allocator behind several requests in a row, whether there are slots for them or not. -/
def allotAll (allocator : SlotAllocator) (widths : List Nat) : SlotAllocator :=
  widths.foldl (fun allocator width => (allocator.allot width).2) allocator

theorem tiles_allot
    {allocator : SlotAllocator}
    {first width : Nat}
    (tiles : Tiles first allocator.reserved allocator.next)
    (positive : 0 < width) :
    Tiles first (allocator.allot width).2.reserved (allocator.allot width).2.next := by
  unfold allot
  by_cases fits : allocator.next + width < 0x10000
  · simp only [fits, if_true]
    exact tiles.append_range positive
  · simpa only [fits, if_false] using tiles

/-- A request that fails leaves the mark and the ranges as they were. -/
theorem allot_eq_of_error
    {allocator : SlotAllocator}
    {width : Nat}
    {conflict : SlotConflict}
    (failed : (allocator.allot width).1 = .error conflict) :
    (allocator.allot width).2 = allocator := by
  unfold allot at failed ⊢
  by_cases fits : allocator.next + width < 0x10000
  · simp only [fits, if_true, reduceCtorEq] at failed
  · simp only [fits, if_false]

theorem tiles_allotAll
    {allocator : SlotAllocator}
    {first : Nat}
    {widths : List Nat}
    (tiles : Tiles first allocator.reserved allocator.next)
    (positive : ∀ width ∈ widths, 0 < width) :
    Tiles first (allocator.allotAll widths).reserved (allocator.allotAll widths).next := by
  induction widths generalizing allocator with
  | nil => exact tiles
  | cons width widths inductionHypothesis =>
      rw [List.forall_mem_cons] at positive
      exact inductionHypothesis (tiles_allot tiles positive.1) positive.2

/-- What a new allocator hands out follows one another from the slot that it starts at. -/
theorem tiles_startingAt
    (first : Nat)
    {widths : List Nat}
    (positive : ∀ width ∈ widths, 0 < width) :
    Tiles first ((startingAt first).allotAll widths).reserved
      ((startingAt first).allotAll widths).next :=
  tiles_allotAll rfl positive

/-! ## Accesses -/

/-- An access overlaps a range if they share a slot. -/
theorem overlaps_iff
    {access : SlotAccess}
    {range : Nat × Nat}
    (accessWidth : 0 < access.width)
    (rangeWidth : 0 < range.2) :
    overlaps access range = true ↔ ∃ slot, access.Touches slot ∧ InRange slot range := by
  simp only [overlaps, Bool.and_eq_true, decide_eq_true_eq, SlotAccess.Touches, InRange]
  constructor
  · intro meets
    exact ⟨max access.index.toNat range.1, by omega⟩
  · rintro ⟨slot, touched, inside⟩
    omega

section Check

variable
  {allocator : SlotAllocator}
  {access : SlotAccess}
  (accessWidth : 0 < access.width)
  (rangeWidths : ∀ range ∈ allocator.reserved, 0 < range.2)

include accessWidth rangeWidths

theorem any_overlaps_iff :
    allocator.reserved.any (overlaps access) = true ↔
      ∃ range ∈ allocator.reserved, ∃ slot, access.Touches slot ∧ InRange slot range := by
  rw [List.any_eq_true]
  exact exists_congr fun range => and_congr_right fun member =>
    overlaps_iff accessWidth (rangeWidths range member)

/-- An access is refused exactly if it shares a slot with a range that was handed out. -/
theorem checkAccess_eq_error_iff :
    allocator.checkAccess access = .error ⟨access.index, access.width⟩ ↔
      ∃ range ∈ allocator.reserved, ∃ slot, access.Touches slot ∧ InRange slot range := by
  rw [← any_overlaps_iff accessWidth rangeWidths]
  unfold checkAccess
  split <;> simp_all

/-- An access is let through exactly if it shares no slot with any range that was handed out. -/
theorem checkAccess_eq_ok_iff :
    allocator.checkAccess access = .ok () ↔
      ∀ range ∈ allocator.reserved, ∀ slot, InRange slot range → ¬access.Touches slot := by
  have meets := any_overlaps_iff accessWidth rangeWidths
  unfold checkAccess
  split
  · rename_i overlapping
    obtain ⟨range, member, slot, touched, inside⟩ := meets.mp overlapping
    simp only [reduceCtorEq, false_iff]
    exact fun free => free range member slot inside touched
  · rename_i free
    simp only [true_iff]
    exact fun range member slot inside touched =>
      free (meets.mpr ⟨range, member, slot, touched, inside⟩)

end Check

end SlotAllocator
end JvmClass
