import JvmClass.Proofs.Insn.Encode

namespace JvmClass

/-!
# Instructions do not grow

Read anywhere and written no further back, an instruction ends no further back
than before.  It may have been wide without need, and then it shrinks; a switch
may take more filling bytes than before, but never more than it has moved.
-/

open Reader

namespace Cell

@[simp]
theorem widths_nil : widths [] = 0 :=
  rfl

@[simp]
theorem widths_cons
    (cell : Cell)
    (cells : List Cell) :
    widths (cell :: cells) = cell.width + widths cells := by
  simp [widths_eq_sum]

@[simp]
theorem widths_append (first second : List Cell) :
    widths (first ++ second) = widths first + widths second := by
  simp [widths_eq_sum]

@[simp]
theorem widths_ofBytes (bytes : Bytes) : widths (ofBytes bytes) = bytes.length := by
  induction bytes with
  | nil => rfl
  | cons byte bytes inductionHypothesis =>
      rw [show ofBytes (byte :: bytes) = .byte byte :: ofBytes bytes from rfl, widths_cons,
        inductionHypothesis, List.length_cons, width, Nat.add_comm]

theorem widths_far
    (origin : Nat)
    (targets : List Label) :
    widths (targets.map (.far origin)) = 4 * targets.length := by
  induction targets with
  | nil => rfl
  | cons target targets inductionHypothesis =>
      rw [List.map_cons, widths_cons, inductionHypothesis, width, List.length_cons]
      omega

end Cell

namespace Insn

/-- How many bytes an instruction takes at an offset. -/
def width
    (offset : Nat)
    (insn : Insn) : Nat :=
  Cell.widths (insn.cells offset)

section Width

variable {offset : Nat} {code : Opcode}

theorem width_cellsOf
    (code : Opcode)
    (operands : Bytes) :
    Cell.widths (cellsOf code operands) = 1 + operands.length := by
  rw [cellsOf, Cell.widths_ofBytes, List.length_cons, Nat.add_comm]

theorem width_immediate
    {operand : Int32} :
    width offset (.immediate code operand) = if code = Opcode.sipush then 3 else 2 := by
  show Cell.widths (cellsOf _ (if code = Opcode.sipush then _ else _)) = _
  split <;> simp [width_cellsOf]

theorem width_slot
    {index : UInt16} :
    width offset (.slot code index) = if index ≤ 255 then 2 else 4 := by
  show Cell.widths (if index ≤ 255 then _ else _) = _
  split <;> simp [width_cellsOf]

theorem width_jump
    {target : Label} :
    width offset (.jump code target) =
      if code = Opcode.gotoW ∨ code = Opcode.jsrW then 5 else 3 := by
  show Cell.widths (if code = Opcode.gotoW ∨ code = Opcode.jsrW then _ else _) = _
  split <;> rfl

theorem width_load
    {index : UInt16} :
    width offset (.load code (.index index)) =
      if loadOpcode code index = Opcode.ldc then 2 else 3 := by
  show Cell.widths (cellsOf _ (if loadOpcode code index = Opcode.ldc then _ else _)) = _
  split <;> simp [width_cellsOf]

theorem width_increment
    {index : UInt16}
    {amount : Int16} :
    width offset (.increment code index amount) =
      if index ≤ 255 ∧ -128 ≤ amount ∧ amount ≤ 127 then 3 else 6 := by
  show Cell.widths (if index ≤ 255 ∧ -128 ≤ amount ∧ amount ≤ 127 then _ else _) = _
  split <;> simp [width_cellsOf]

theorem width_tableSwitch
    {default : Label}
    {low high : Int32}
    {targets : List Label} :
    width offset (.tableSwitch code default low high targets) =
      13 + switchPadding offset + 4 * targets.length := by
  show Cell.widths (_ ++ _ :: _ ++ _) = _
  simp only [Cell.widths_append, Cell.widths_cons, width_cellsOf, Cell.widths_ofBytes,
    Cell.widths_far, Cell.width, List.length_replicate, List.length_append, Bytes.length_ofUInt32]
  omega

theorem widths_flatMap_pairs (pairs : List (Int32 × Label)) :
    Cell.widths (pairs.flatMap fun (key, target) =>
      Cell.ofBytes (Bytes.ofUInt32 key.toUInt32) ++ [.far offset target]) = 8 * pairs.length := by
  induction pairs with
  | nil => rfl
  | cons pair pairs inductionHypothesis =>
      rw [List.flatMap_cons, Cell.widths_append, inductionHypothesis]
      simp [Cell.width]
      omega

theorem width_lookupSwitch
    {default : Label}
    {pairs : List (Int32 × Label)} :
    width offset (.lookupSwitch code default pairs) =
      9 + switchPadding offset + 8 * pairs.length := by
  show Cell.widths (_ ++ _ :: _ ++ _) = _
  rw [Cell.widths_append, widths_flatMap_pairs]
  simp only [Cell.widths_append, Cell.widths_cons, width_cellsOf, Cell.widths_ofBytes, Cell.width,
    List.length_replicate, Bytes.length_ofUInt32]
  omega

/-- Renaming labels leaves the width alone. -/
theorem width_mapTargets
    (rename : Label → Label)
    (insn : Insn) :
    width offset (insn.mapTargets rename) = width offset insn := by
  cases insn with
  | jump code target => rw [mapTargets, width_jump, width_jump]
  | tableSwitch code default low high targets =>
      rw [mapTargets, width_tableSwitch, width_tableSwitch, List.length_map]
  | lookupSwitch code default pairs =>
      rw [mapTargets, width_lookupSwitch, width_lookupSwitch, List.length_map]
  | _ => rfl

end Width

theorem toInt16_small (amount : Int8) : -128 ≤ amount.toInt16 ∧ amount.toInt16 ≤ 127 := by
  have above := amount.le_toInt
  have below := amount.toInt_lt
  rw [Int16.le_iff_toInt_le, Int16.le_iff_toInt_le, Int8.toInt_toInt16,
    show (-128 : Int16).toInt = -128 from rfl, show (127 : Int16).toInt = 127 from rfl]
  omega

/-- The operands of the instruction fit its wide form only. -/
def NeedsWide : Insn → Prop
  | .slot _ index => 255 < index
  | .increment _ index amount => ¬ (index ≤ 255 ∧ -128 ≤ amount ∧ amount ≤ 127)
  | _ => False

/-- Padded instructions end no further back when they start no further back. -/
theorem add_switchPadding_le
    {start offset : Nat}
    (behind : start ≤ offset) :
    start + switchPadding start ≤ offset + switchPadding offset := by
  unfold switchPadding
  omega

/-- An instruction ends no further back when it starts no further back. -/
theorem add_width_le
    {start offset : Nat}
    (behind : start ≤ offset)
    (insn : Insn) :
    start + insn.width start ≤ offset + insn.width offset := by
  have padded := add_switchPadding_le behind
  cases insn with
  | tableSwitch code default low high targets =>
      rw [width_tableSwitch, width_tableSwitch]
      omega
  | lookupSwitch code default pairs =>
      rw [width_lookupSwitch, width_lookupSwitch]
      omega
  | jump code target =>
      rw [width_jump, width_jump]
      exact Nat.add_le_add_right behind _
  | field code target | method code target =>
      cases target <;> exact Nat.add_le_add_right behind _
  | load code value =>
      cases value <;> exact Nat.add_le_add_right behind _
  | _ => exact Nat.add_le_add_right behind _

section Reads

variable
  {size start offset width : Nat} {code : Opcode} {insn : Insn} {taken : Bytes}

theorem width_le_of_wide
    (reads : (wideReader offset).Reads taken (insn, width)) :
    insn.width offset ≤ width ∧ (insn.NeedsWide → insn.width offset = width) := by
  unfold wideReader at reads
  obtain ⟨inner, _, _, _, _, second⟩ := (reads_bind_iff local_u1).mp reads
  split at second
  · obtain ⟨index, _, result⟩ := (reads_bind_pure_iff local_u2).mp second
    cases result
    rw [width_slot]
    refine ⟨by split <;> omega, fun large => if_neg (UInt16.not_le.mpr large)⟩
  · split at second
    · simp only [reads_bind_iff local_u2, reads_pure_iff] at second
      obtain ⟨index, _, _, _, _, amount, _, _, _, _, _, result⟩ := second
      cases result
      rw [width_increment]
      exact ⟨by split <;> omega, fun large => if_neg large⟩
    · exact absurd second not_reads_fail

theorem width_eq_of_tableSwitch
    (reads : (tableSwitchReader size offset code).Reads taken (insn, width)) :
    insn.width offset = width := by
  unfold tableSwitchReader at reads
  simp only [reads_bind_iff (local_bytes _), reads_bind_iff (local_farTarget size offset),
    reads_bind_iff local_u4] at reads
  obtain ⟨_, _, _, _, _, _, _, _, _, _, low, _, _, _, _, high, _, _, _, _, reads⟩ := reads
  split at reads
  · exact absurd reads not_reads_fail
  · obtain ⟨targets, targetsRead, result⟩ :=
      (reads_bind_pure_iff (local_times (local_farTarget size offset) _)).mp reads
    obtain ⟨_, _, count, _⟩ := (reads_times_iff (local_farTarget size offset)).mp targetsRead
    cases result
    rw [width_tableSwitch, count]

theorem width_eq_of_lookupSwitch
    (reads : (lookupSwitchReader size offset code).Reads taken (insn, width)) :
    insn.width offset = width := by
  unfold lookupSwitchReader at reads
  simp only [reads_bind_iff (local_bytes _), reads_bind_iff (local_farTarget size offset),
    reads_bind_iff local_u4] at reads
  obtain ⟨_, _, _, _, _, _, _, _, _, _, count, _, _, _, _, reads⟩ := reads
  split at reads
  · exact absurd reads not_reads_fail
  · obtain ⟨pairs, pairsRead, result⟩ :=
      (reads_bind_pure_iff (local_times (local_lookupPairReader size offset) _)).mp reads
    obtain ⟨_, _, counted, _⟩ :=
      (reads_times_iff (local_lookupPairReader size offset)).mp pairsRead
    cases result
    rw [width_lookupSwitch, counted]

/-- Only the wide form is written shorter, and only if the operands do without it. -/
theorem width_eq_of_operands
    (reads : (operandReader size offset code).Reads taken (insn, width)) :
    insn.width offset = width ∨
      code.layout? = some .wide ∧ insn.width offset ≤ width ∧ ¬ insn.NeedsWide := by
  unfold operandReader at reads
  split at reads
  case h_20 layout =>
    obtain ⟨narrow, same⟩ := width_le_of_wide reads
    by_cases needed : insn.NeedsWide
    · exact .inl (same needed)
    · exact .inr ⟨layout, narrow, needed⟩
  all_goals left
  case h_1 => exact absurd reads not_reads_fail
  case h_12 => exact width_eq_of_tableSwitch reads
  case h_13 => exact width_eq_of_lookupSwitch reads
  case h_2 =>
    obtain ⟨_, result⟩ := reads_pure_iff.mp reads
    cases result
    rfl
  case h_10 layout =>
    obtain ⟨_, _, result⟩ := (reads_bind_pure_iff (local_nearTarget size offset)).mp reads
    cases result
    have notWide : ¬ (code = Opcode.gotoW ∨ code = Opcode.jsrW) := Opcode.admits_of_layout layout
    rw [width_jump, if_neg notWide]
  case h_11 layout =>
    obtain ⟨_, _, result⟩ := (reads_bind_pure_iff (local_farTarget size offset)).mp reads
    cases result
    have isWide : code = Opcode.gotoW ∨ code = Opcode.jsrW := Opcode.admits_of_layout layout
    rw [width_jump, if_pos isWide]
  case h_3 layout =>
    obtain ⟨operand, _, result⟩ := (reads_bind_pure_iff local_u1).mp reads
    cases result
    have notShort : code ≠ Opcode.sipush := Opcode.admits_of_layout layout
    rw [width_immediate, if_neg notShort]
  case h_5 layout =>
    obtain ⟨operand, _, result⟩ := (reads_bind_pure_iff local_u1).mp reads
    cases result
    have notShort : code ≠ Opcode.sipush := Opcode.admits_of_layout layout
    rw [width_immediate, if_neg notShort]
  case h_4 layout =>
    obtain ⟨operand, _, result⟩ := (reads_bind_pure_iff local_u2).mp reads
    cases result
    have isShort : code = Opcode.sipush := Opcode.admits_of_layout layout
    rw [width_immediate, if_pos isShort]
  case h_6 layout =>
    obtain ⟨index, _, result⟩ := (reads_bind_pure_iff local_u1).mp reads
    cases result
    obtain rfl : code = Opcode.ldc := Opcode.admits_of_layout layout
    have chosen : loadOpcode Opcode.ldc index.toUInt16 = Opcode.ldc := by
      rw [loadOpcode, if_neg (by decide), if_pos (toUInt16_le_255 index)]
    rw [width_load, if_pos chosen]
  case h_7 layout =>
    obtain ⟨index, _, result⟩ := (reads_bind_pure_iff local_u2).mp reads
    cases result
    have long : code = Opcode.ldcW ∨ code = Opcode.ldc2W := Opcode.admits_of_layout layout
    have kept : loadOpcode code index = code := if_pos long.symm
    rw [width_load, kept, if_neg]
    rintro rfl
    exact absurd long (by decide)
  case h_8 =>
    obtain ⟨index, _, result⟩ := (reads_bind_pure_iff local_u1).mp reads
    cases result
    rw [width_slot, if_pos (toUInt16_le_255 index)]
  case h_9 =>
    simp only [reads_bind_iff local_u1, reads_pure_iff] at reads
    obtain ⟨index, _, _, _, _, amount, _, _, _, _, _, result⟩ := reads
    cases result
    rw [width_increment, if_pos ⟨toUInt16_le_255 index, toInt16_small amount.toInt8⟩]
  case h_14 | h_15 | h_16 =>
    obtain ⟨_, _, result⟩ := (reads_bind_pure_iff local_u2).mp reads
    cases result
    rfl
  case h_17 =>
    simp only [reads_bind_iff local_u2, reads_bind_iff local_u1, reads_pure_iff] at reads
    obtain ⟨_, _, _, _, _, _, _, _, _, _, _, _, _, _, _, _, result⟩ := reads
    cases result
    rfl
  case h_18 =>
    simp only [reads_bind_iff local_u2, reads_pure_iff] at reads
    obtain ⟨_, _, _, _, _, _, _, _, _, _, _, result⟩ := reads
    cases result
    rfl
  case h_19 =>
    simp only [reads_bind_iff local_u2, reads_bind_iff local_u1, reads_pure_iff] at reads
    obtain ⟨_, _, _, _, _, _, _, _, _, _, _, result⟩ := reads
    cases result
    rfl

/-- Written where it was read, an instruction takes as many bytes, or it was wide without need. -/
theorem width_eq_of_reads
    (reads : (reader size offset).Reads taken (insn, width)) :
    insn.width offset = width ∨
      taken.head? = some Opcode.wide ∧ insn.width offset ≤ width ∧ ¬ insn.NeedsWide := by
  obtain ⟨code, _, _, rfl, first, operands⟩ := (reads_bind_iff local_u1).mp reads
  refine (width_eq_of_operands operands).imp_right fun ⟨layout, others⟩ => ⟨?_, others⟩
  have isWide : code = Opcode.wide := Opcode.admits_of_layout layout
  rw [reads_u1_iff.mp first, isWide]
  rfl

/-- Written no further back than it was read, an instruction ends no further back either. -/
theorem add_width_le_of_reads
    (behind : start ≤ offset)
    (reads : (reader size offset).Reads taken (insn, width)) :
    start + insn.width start ≤ offset + width := by
  have narrow : insn.width offset ≤ width := by
    rcases width_eq_of_reads reads with same | ⟨_, narrow, _⟩
    · exact Nat.le_of_eq same
    · exact narrow
  exact Nat.le_trans (add_width_le behind insn) (Nat.add_le_add_left narrow offset)

end Reads

/-- Where instructions end that start at an offset, one behind the other. -/
def stopBehind
    (offset : Nat)
    (insns : List Insn) : Nat :=
  insns.foldl (fun offset insn => offset + insn.width offset) offset

theorem stopBehind_map_mapTargets
    (rename : Label → Label)
    (offset : Nat)
    (insns : List Insn) :
    stopBehind offset (insns.map (mapTargets rename)) = stopBehind offset insns := by
  simp only [stopBehind, List.foldl_map, width_mapTargets]

/-- Instructions that were decoded and are written again take no more bytes. -/
theorem stopBehind_le_of_decodes
    {size start offset : Nat}
    {bytes : Bytes}
    {insns : List (Nat × Insn)}
    (behind : start ≤ offset)
    (decodes : Decodes size offset bytes insns) :
    stopBehind start (insns.map Prod.snd) ≤ offset + bytes.length := by
  induction decodes generalizing start with
  | nil => exact behind
  | cons reads later inductionHypothesis =>
      have next := inductionHypothesis (add_width_le_of_reads behind reads)
      rw [List.length_append, ← Nat.add_assoc]
      exact next

/-! ## Where instructions start -/

/-- Instructions lie one behind the other from the start of a body. -/
def Packed (insns : List (Nat × Insn)) : Prop :=
  ∀ position offset insn,
    insns[position]? = some (offset, insn) →
      offset = stopBehind 0 ((insns.take position).map Prod.snd)

/-- None of the instructions is wide without need. -/
def Tight
    (code : Bytes)
    (insns : List (Nat × Insn)) : Prop :=
  ∀ row ∈ insns, code[row.1]? = some Opcode.wide → row.2.NeedsWide

section Starts

variable
  {size offset position place : Nat} {bytes code front : Bytes} {insns : List (Nat × Insn)}
  {insn : Insn}

/-- Written again, instructions in front of another one end no further back than it was read. -/
theorem stopBehind_take_le
    {start : Nat}
    (behind : start ≤ offset)
    (decodes : Decodes size offset bytes insns)
    (listed : insns[position]? = some (place, insn)) :
    stopBehind start ((insns.take position).map Prod.snd) ≤ place := by
  induction decodes generalizing start position with
  | nil => cases listed
  | cons reads later inductionHypothesis =>
      cases position with
      | zero =>
          cases listed
          exact behind
      | succ position => exact inductionHypothesis (add_width_le_of_reads behind reads) listed

/-- Where none of them is wide without need, they end where it was read. -/
theorem stopBehind_take_eq
    (decodes : Decodes size front.length bytes insns)
    (tight : Tight (front ++ bytes) (insns.take position))
    (listed : insns[position]? = some (place, insn)) :
    stopBehind front.length ((insns.take position).map Prod.snd) = place := by
  generalize start : front.length = offset at decodes
  induction decodes generalizing front position with
  | nil => cases listed
  | @cons offset taken behind first insns reads later inductionHypothesis =>
      subst start
      cases position with
      | zero =>
          cases listed
          rfl
      | succ position =>
          rw [List.take_succ_cons, Tight, List.forall_mem_cons] at tight
          have same : first.width front.length = taken.length := by
            refine (width_eq_of_reads reads).resolve_right fun ⟨wide, _, unneeded⟩ => ?_
            refine unneeded (tight.1 ?_)
            rw [List.getElem?_append_right (Nat.le_refl _), Nat.sub_self,
              ← List.head?_eq_getElem?, List.head?_append, wide]
            rfl
          have next :=
            @inductionHypothesis position (front ++ taken) (by rw [List.append_assoc]; exact tight.2)
              listed List.length_append
          rw [List.take_succ_cons, List.map_cons, stopBehind, List.foldl_cons, same]
          exact next

end Starts

end Insn
end JvmClass
