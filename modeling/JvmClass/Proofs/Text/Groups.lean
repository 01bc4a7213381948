import JvmClass.Proofs.Text.ModifiedUtf8
import Mathlib.Data.List.Forall2

namespace JvmClass.ModifiedUtf8

/-!
# Groups of bytes

A code unit may be read from groups of up to three lengths, and each group says by
its first byte how long it is, so bytes that can be read fall into groups in one way
only.  Writing takes the shortest group of each code unit, so what is written is what
was read exactly if every group that was read is the shortest.
-/

/-- A byte that carries six further bits of a code unit. -/
def Further (byte : UInt8) : Prop :=
  0x80 ≤ byte.toNat ∧ byte.toNat ≤ 0xBF

/-- The groups of bytes that stand for a code unit. -/
inductive Group : List UInt8 → UInt16 → Prop where
  /-- A byte for itself.  Zero is none, so code unit zero takes more than one byte. -/
  | single
      {byte : UInt8}
      {unit : UInt16}
      (plain : 0 < byte.toNat ∧ byte.toNat ≤ 0x7F)
      (value : unit.toNat = byte.toNat) :
      Group [byte] unit
  /-- Five bits and six bits. -/
  | pair
      {first second : UInt8}
      {unit : UInt16}
      (leading : 0xC0 ≤ first.toNat ∧ first.toNat ≤ 0xDF)
      (further : Further second)
      (value : unit.toNat = (first.toNat - 0xC0) * 64 + (second.toNat - 0x80)) :
      Group [first, second] unit
  /-- Four bits, six bits and six bits. -/
  | triple
      {first second third : UInt8}
      {unit : UInt16}
      (leading : 0xE0 ≤ first.toNat ∧ first.toNat ≤ 0xEF)
      (further : Further second)
      (last : Further third)
      (value :
        unit.toNat =
          (first.toNat - 0xE0) * 4096 + (second.toNat - 0x80) * 64 + (third.toNat - 0x80)) :
      Group [first, second, third] unit

/-- A group for a code unit such that no other group for it has fewer bytes. -/
def IsShortest (group : List UInt8) (unit : UInt16) : Prop :=
  Group group unit ∧ ∀ other, Group other unit → group.length ≤ other.length

/-- How long a group is, by its first byte. -/
def groupLength (first : UInt8) : Nat :=
  if first.toNat ≤ 0x7F then 1 else if first.toNat ≤ 0xDF then 2 else 3

namespace Group

variable {group other : List UInt8} {unit otherUnit : UInt16}

/-- The first byte of a group says how long it is. -/
theorem exists_first
    (stands : Group group unit) :
    ∃ first rest, group = first :: rest ∧ group.length = groupLength first := by
  unfold groupLength
  cases stands with
  | single plain _ => exact ⟨_, _, rfl, by simp [plain.2]⟩
  | pair leading _ _ =>
      refine ⟨_, _, rfl, ?_⟩
      rw [if_neg (by omega), if_pos leading.2]
      rfl
  | triple leading _ _ _ =>
      refine ⟨_, _, rfl, ?_⟩
      rw [if_neg (by omega), if_neg (by omega)]
      rfl

/-- What follows a group is not taken for a part of it. -/
theorem eq_of_append
    {rest otherRest : List UInt8}
    (stands : Group group unit)
    (otherStands : Group other otherUnit)
    (same : group ++ rest = other ++ otherRest) :
    group = other ∧ rest = otherRest := by
  obtain ⟨first, tail, shape, length⟩ := stands.exists_first
  obtain ⟨otherFirst, otherTail, otherShape, otherLength⟩ := otherStands.exists_first
  have sameFirst : first = otherFirst := by
    rw [shape, otherShape] at same
    exact (List.cons.inj same).1
  exact List.append_inj same (by rw [length, otherLength, sameFirst])

/-- Bytes fall into groups in one way only. -/
theorem eq_of_flatten
    {groups others : List (List UInt8)}
    (groupsStand : ∀ group ∈ groups, ∃ unit, Group group unit)
    (othersStand : ∀ group ∈ others, ∃ unit, Group group unit)
    (same : groups.flatten = others.flatten) :
    groups = others := by
  have nonempty {group : List UInt8} {groups : List (List UInt8)} {unit : UInt16}
      (stands : Group group unit) : (group :: groups).flatten ≠ [] := by
    obtain ⟨first, rest, shape, _⟩ := stands.exists_first
    simp [shape]
  induction groups generalizing others with
  | nil =>
      cases others with
      | nil => rfl
      | cons other others =>
          obtain ⟨unit, stands⟩ := othersStand other List.mem_cons_self
          exact absurd same.symm (nonempty stands)
  | cons group groups inductionHypothesis =>
      rw [List.forall_mem_cons] at groupsStand
      obtain ⟨⟨unit, stands⟩, laterStand⟩ := groupsStand
      cases others with
      | nil => exact absurd same (nonempty stands)
      | cons other others =>
          rw [List.forall_mem_cons] at othersStand
          obtain ⟨⟨otherUnit, otherStands⟩, othersStand⟩ := othersStand
          obtain ⟨rfl, later⟩ := stands.eq_of_append otherStands same
          rw [inductionHypothesis laterStand othersStand later]

/-- In a row of groups for some code units, each is a group for one of them. -/
theorem exists_of_mem
    {groups : List (List UInt8)}
    {units : List UInt16}
    (stand : List.Forall₂ Group groups units) :
    ∀ group ∈ groups, ∃ unit, Group group unit := by
  intro group member
  obtain ⟨unit, _, stands⟩ := exists_of_forall₂ (List.Forall₂.flip (R := flip Group) stand) member
  exact ⟨unit, stands⟩

/-- Of each length there is at most one group for a code unit. -/
theorem eq_of_length
    (stands : Group group unit)
    (otherStands : Group other unit)
    (length : group.length = other.length) :
    group = other := by
  cases stands with
  | single _ value =>
      cases otherStands with
      | single _ otherValue => rw [UInt8.toNat_inj.mp (value.symm.trans otherValue)]
      | pair _ _ _ | triple _ _ _ _ => cases length
  | @pair first second _ leading further value =>
      cases otherStands with
      | @pair otherFirst otherSecond _ otherLeading otherFurther otherValue =>
          unfold Further at further otherFurther
          have sameFirst : first = otherFirst := UInt8.toNat_inj.mp (by omega)
          have sameSecond : second = otherSecond := UInt8.toNat_inj.mp (by omega)
          rw [sameFirst, sameSecond]
      | single _ _ | triple _ _ _ _ => cases length
  | @triple first second third _ leading further last value =>
      cases otherStands with
      | @triple otherFirst otherSecond otherThird _ otherLeading otherFurther otherLast otherValue =>
          unfold Further at further last otherFurther otherLast
          have sameFirst : first = otherFirst := UInt8.toNat_inj.mp (by omega)
          have sameSecond : second = otherSecond := UInt8.toNat_inj.mp (by omega)
          have sameThird : third = otherThird := UInt8.toNat_inj.mp (by omega)
          rw [sameFirst, sameSecond, sameThird]
      | single _ _ | pair _ _ _ => cases length

/-- No byte of a group is zero. -/
theorem zero_not_mem
    (stands : Group group unit) :
    0 ∉ group := by
  have positive : ∀ byte ∈ group, 0 < byte.toNat := by
    cases stands with
    | single plain _ => exact List.forall_mem_singleton.mpr plain.1
    | pair leading further _ =>
        unfold Further at further
        simp only [List.forall_mem_cons]
        exact ⟨by omega, by omega, nofun⟩
    | triple leading further last _ =>
        unfold Further at further last
        simp only [List.forall_mem_cons]
        exact ⟨by omega, by omega, by omega, nofun⟩
  exact fun member => absurd (positive 0 member) (by decide)

end Group

/-! ## Groups that are read -/

theorem and_0x80_eq_zero_iff (byte : UInt8) : byte &&& 0x80 = 0 ↔ byte.toNat ≤ 0x7F := by
  obtain ⟨⟨byte⟩⟩ := byte
  revert byte
  decide +kernel

theorem and_0xE0_eq_iff
    (byte : UInt8) :
    byte &&& 0xE0 = 0xC0 ↔ 0xC0 ≤ byte.toNat ∧ byte.toNat ≤ 0xDF := by
  obtain ⟨⟨byte⟩⟩ := byte
  revert byte
  decide +kernel

theorem and_0xF0_eq_iff
    (byte : UInt8) :
    byte &&& 0xF0 = 0xE0 ↔ 0xE0 ≤ byte.toNat ∧ byte.toNat ≤ 0xEF := by
  obtain ⟨⟨byte⟩⟩ := byte
  revert byte
  decide +kernel

theorem isContinuation_iff
    (byte : UInt8) :
    isContinuation byte = true ↔ Further byte := by
  unfold Further
  obtain ⟨⟨byte⟩⟩ := byte
  revert byte
  decide +kernel

/-- The bits of a byte below some power of two. -/
theorem toNat_and_mask
    (byte mask : UInt8)
    (width : Nat)
    (isMask : mask.toNat = 2 ^ width - 1) :
    (byte &&& mask).toNat = byte.toNat % 2 ^ width := by
  rw [UInt8.toNat_and, isMask, Nat.and_two_pow_sub_one_eq_mod]

/-- The code unit that is read from a pair. -/
theorem toNat_pair
    (first second : UInt8) :
    ((first &&& 0x1F).toUInt16 <<< 6 ||| (second &&& 0x3F).toUInt16).toNat =
      first.toNat % 32 * 64 + second.toNat % 64 := by
  have upper : (first &&& 0x1F).toNat = first.toNat % 32 := toNat_and_mask first 0x1F 5 rfl
  have lower : (second &&& 0x3F).toNat = second.toNat % 64 := toNat_and_mask second 0x3F 6 rfl
  rw [toNat_joinPair _ _ (by omega) (by omega), upper, lower]

/-- The code unit that is read from a triple. -/
theorem toNat_triple
    (first second third : UInt8) :
    ((first &&& 0x0F).toUInt16 <<< 12 ||| (second &&& 0x3F).toUInt16 <<< 6
        ||| (third &&& 0x3F).toUInt16).toNat =
      first.toNat % 16 * 4096 + second.toNat % 64 * 64 + third.toNat % 64 := by
  have upper : (first &&& 0x0F).toNat = first.toNat % 16 := toNat_and_mask first 0x0F 4 rfl
  have middle : (second &&& 0x3F).toNat = second.toNat % 64 := toNat_and_mask second 0x3F 6 rfl
  have lower : (third &&& 0x3F).toNat = third.toNat % 64 := toNat_and_mask third 0x3F 6 rfl
  rw [toNat_joinTriple _ _ _ (by omega) (by omega) (by omega), upper, middle, lower]

/-- Bytes that can be split fall into groups, one for each code unit. -/
theorem exists_groups_of_splitUnits
    {done units : List UInt16}
    {bytes : List UInt8}
    (split : splitUnits done bytes = .ok units) :
    ∃ groups fresh,
      units = done.reverse ++ fresh ∧ List.Forall₂ Group groups fresh ∧ groups.flatten = bytes := by
  have front {done : List UInt16} {group rest : List UInt8} {unit : UInt16}
      (stands : Group group unit)
      (later :
        ∃ groups fresh,
          units = (unit :: done).reverse ++ fresh ∧
            List.Forall₂ Group groups fresh ∧ groups.flatten = rest) :
      ∃ groups fresh,
        units = done.reverse ++ fresh ∧
          List.Forall₂ Group groups fresh ∧ groups.flatten = group ++ rest := by
    obtain ⟨groups, fresh, same, stand, rfl⟩ := later
    exact ⟨group :: groups, unit :: fresh, by simpa using same, .cons stands stand, rfl⟩
  fun_induction splitUnits done bytes
  case case1 done =>
    cases split
    exact ⟨[], [], (List.append_nil _).symm, .nil, rfl⟩
  case case3 done first rest leading nonzero inductionHypothesis =>
    have small := (and_0x80_eq_zero_iff first).mp (by simpa using leading)
    have positive : 0 < first.toNat :=
      Nat.pos_of_ne_zero fun zero => nonzero (beq_iff_eq.mpr (UInt8.toNat_inj.mp zero))
    exact front (.single ⟨positive, small⟩ (UInt8.toNat_toUInt16 first)) (inductionHypothesis split)
  case case4 done first notSingle isPair second rest known inductionHypothesis =>
    have leading := (and_0xE0_eq_iff first).mp (by simpa using isPair)
    have further := (isContinuation_iff second).mp known
    refine front (.pair leading further ?_) (inductionHypothesis split)
    unfold Further at further
    rw [toNat_pair]
    omega
  case case7 done first notSingle notPair isTriple second third rest known inductionHypothesis =>
    have leading := (and_0xF0_eq_iff first).mp (by simpa using isTriple)
    simp only [Bool.and_eq_true, isContinuation_iff] at known
    obtain ⟨further, last⟩ := known
    refine front (.triple leading further last ?_) (inductionHypothesis split)
    unfold Further at further last
    rw [toNat_triple]
    omega
  all_goals cases split

/-! ## Groups that are written -/

/-- What a code unit is written as is a group for it. -/
theorem group_encodeUnit (unit : UInt16) : Group (encodeUnit unit) unit := by
  have split : splitUnits [] (encodeUnit unit) = .ok [unit] := by
    have := splitUnits_encodeUnit [] unit []
    rwa [List.append_nil] at this
  obtain ⟨groups, fresh, same, stand, bytes⟩ := exists_groups_of_splitUnits split
  rw [List.reverse_nil, List.nil_append] at same
  subst same
  obtain ⟨group, rfl, stands⟩ : ∃ group, groups = [group] ∧ Group group unit := by
    cases stand with
    | cons stands none =>
        cases none
        exact ⟨_, rfl, stands⟩
  rw [List.flatten_singleton] at bytes
  exact bytes ▸ stands

/-- No group for a code unit is shorter than the one that it is written as. -/
theorem length_encodeUnit_le
    {group : List UInt8}
    {unit : UInt16}
    (stands : Group group unit) :
    (encodeUnit unit).length ≤ group.length := by
  have small {bound : UInt16} (below : unit.toNat ≤ bound.toNat) : unit ≤ bound :=
    UInt16.le_iff_toNat_le.mpr below
  unfold encodeUnit
  cases stands with
  | single plain value =>
      have nonzero : unit ≠ 0 := by
        rintro rfl
        rw [← value] at plain
        exact absurd plain.1 (by decide)
      rw [if_pos ⟨nonzero, small (show _ ≤ 0x7F by omega)⟩]
      exact Nat.le_refl 1
  | pair leading further value =>
      unfold Further at further
      have below : unit ≤ 0x7FF := small (show _ ≤ 0x7FF by omega)
      rw [if_pos below]
      split <;> simp
  | triple _ _ _ _ =>
      split
      · simp
      · split <;> simp

/-- The shortest group of a code unit is the one that it is written as. -/
theorem isShortest_iff
    {group : List UInt8}
    {unit : UInt16} :
    IsShortest group unit ↔ group = encodeUnit unit := by
  constructor
  · rintro ⟨stands, shortest⟩
    have atMost := shortest _ (group_encodeUnit unit)
    have atLeast := length_encodeUnit_le stands
    exact stands.eq_of_length (group_encodeUnit unit) (Nat.le_antisymm atMost atLeast)
  · rintro rfl
    exact ⟨group_encodeUnit unit, fun _ => length_encodeUnit_le⟩

/-! ## Texts -/

/-- Bytes that can be read fall into groups for the code units of the text. -/
theorem exists_groups_of_decode
    {bytes : List UInt8}
    {text : String}
    (decoded : decode bytes = .ok text) :
    ∃ groups,
      groups.flatten = bytes ∧ List.Forall₂ Group groups (text.toList.flatMap unitsOfChar) := by
  obtain ⟨units, split, joining⟩ := bind_eq_ok_iff.mp decoded
  obtain ⟨chars, joined, same⟩ := bind_eq_ok_iff.mp joining
  cases same
  obtain ⟨groups, fresh, rfl, stand, flat⟩ := exists_groups_of_splitUnits split
  have units := flatMap_unitsOfChar_of_joinUnits joined
  simp only [List.reverse_nil, List.flatMap_nil, List.nil_append] at units
  rw [String.toList_ofList, units]
  exact ⟨groups, flat, stand⟩

theorem length_flatMap_encodeUnit_le
    {groups : List (List UInt8)}
    {units : List UInt16}
    (stand : List.Forall₂ Group groups units) :
    (units.flatMap encodeUnit).length ≤ groups.flatten.length := by
  induction stand with
  | nil => exact Nat.le_refl _
  | cons stands _ inductionHypothesis =>
      have here := length_encodeUnit_le stands
      simp only [List.flatMap_cons, List.flatten_cons, List.length_append]
      omega

/-- A text that was read takes no more bytes than it was read from. -/
theorem length_encode_le_of_decode
    {bytes : List UInt8}
    {text : String}
    (decoded : decode bytes = .ok text) :
    (encode text).length ≤ bytes.length := by
  obtain ⟨groups, rfl, stand⟩ := exists_groups_of_decode decoded
  exact length_flatMap_encodeUnit_le stand

theorem zero_not_mem_encode (text : String) : 0 ∉ encode text := by
  intro member
  obtain ⟨unit, _, inGroup⟩ := List.mem_flatMap.mp member
  exact (group_encodeUnit unit).zero_not_mem inGroup

/-- Code units are written as some groups for them exactly if each of these is the shortest. -/
theorem flatMap_encodeUnit_eq_iff
    {groups : List (List UInt8)}
    {units : List UInt16}
    (stand : List.Forall₂ Group groups units) :
    units.flatMap encodeUnit = groups.flatten ↔ List.Forall₂ IsShortest groups units := by
  have shortest : List.Forall₂ IsShortest groups units ↔ groups = units.map encodeUnit := by
    have written : IsShortest = fun group unit => group = encodeUnit unit :=
      funext₂ fun _ _ => propext isShortest_iff
    rw [written, ← List.forall₂_map_right_iff, List.forall₂_eq_eq_eq]
  rw [shortest, List.flatMap_def]
  constructor
  · intro same
    refine Group.eq_of_flatten (Group.exists_of_mem stand) (fun group member => ?_) same.symm
    obtain ⟨unit, _, rfl⟩ := List.mem_map.mp member
    exact ⟨unit, group_encodeUnit unit⟩
  · rintro rfl
    rfl

end JvmClass.ModifiedUtf8
