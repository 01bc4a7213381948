import JvmClass.Insn.Decode
import JvmClass.Proofs.Bytes.Reader
import JvmClass.Proofs.Insn.Located
import Mathlib.Data.List.Nodup

namespace JvmClass.Insn

/-!
# Decoded instructions

Decoding splits a body into instructions one behind the other: each takes the
bytes that it says it takes, at least one, and the next begins behind them.
-/

open Reader

/-! ## Readers of operands -/

/-- A target is read as the distance is, if the distance stays inside the body. -/
theorem targetAt_eq_ok_iff
    {size offset target : Nat}
    {distance : Int} :
    targetAt size offset distance = .ok target ↔
      (target : Int) = offset + distance ∧ target < size := by
  unfold targetAt
  simp only
  split
  · rename_i inside
    rw [Except.ok.injEq]
    constructor
    · rintro rfl
      omega
    · rintro ⟨placed, _⟩
      rw [← placed]
      exact Int.toNat_natCast target
  · rename_i outside
    simp only [reduceCtorEq, false_iff]
    rintro ⟨placed, inside⟩
    exact outside (by omega)

theorem local_nearTarget (size offset : Nat) : Local (nearTarget size offset) :=
  local_u2.bind fun _ => local_lift _

theorem local_farTarget (size offset : Nat) : Local (farTarget size offset) :=
  local_u4.bind fun _ => local_lift _

theorem reads_nearTarget_iff
    {size offset target : Nat}
    {taken : Bytes} :
    (nearTarget size offset).Reads taken target ↔
      ∃ distance : UInt16,
        taken = Bytes.ofUInt16 distance ∧
          (target : Int) = offset + distance.toInt16.toInt ∧ target < size := by
  unfold nearTarget
  rw [reads_bind_iff local_u2]
  simp only [reads_lift_iff, reads_u2_iff, targetAt_eq_ok_iff]
  constructor
  · rintro ⟨distance, _, _, rfl, rfl, rfl, placed⟩
    exact ⟨distance, by simp, placed⟩
  · rintro ⟨distance, rfl, placed⟩
    exact ⟨distance, _, [], by simp, rfl, rfl, placed⟩

theorem reads_farTarget_iff
    {size offset target : Nat}
    {taken : Bytes} :
    (farTarget size offset).Reads taken target ↔
      ∃ distance : UInt32,
        taken = Bytes.ofUInt32 distance ∧
          (target : Int) = offset + distance.toInt32.toInt ∧ target < size := by
  unfold farTarget
  rw [reads_bind_iff local_u4]
  simp only [reads_lift_iff, reads_u4_iff, targetAt_eq_ok_iff]
  constructor
  · rintro ⟨distance, _, _, rfl, rfl, rfl, placed⟩
    exact ⟨distance, by simp, placed⟩
  · rintro ⟨distance, rfl, placed⟩
    exact ⟨distance, _, [], by simp, rfl, rfl, placed⟩

theorem local_wideReader (offset : Nat) : Local (wideReader offset) := by
  refine local_u1.bind fun inner => local_ite (local_u2.bind fun _ => local_pure _) ?_
  refine local_ite ?_ (local_fail _)
  exact local_u2.bind fun _ => local_u2.bind fun _ => local_pure _

theorem local_tableSwitchReader
    (size offset : Nat)
    (code : Opcode) :
    Local (tableSwitchReader size offset code) := by
  refine (local_bytes _).bind fun _ => (local_farTarget size offset).bind fun _ => ?_
  refine local_u4.bind fun _ => local_u4.bind fun _ => local_ite (local_fail _) ?_
  exact (local_times (local_farTarget size offset) _).bind fun _ => local_pure _

theorem local_lookupPairReader (size offset : Nat) : Local (lookupPairReader size offset) :=
  local_u4.bind fun _ => (local_farTarget size offset).bind fun _ => local_pure _

theorem local_lookupSwitchReader
    (size offset : Nat)
    (code : Opcode) :
    Local (lookupSwitchReader size offset code) := by
  refine (local_bytes _).bind fun _ => (local_farTarget size offset).bind fun _ => ?_
  refine local_u4.bind fun _ => local_ite (local_fail _) ?_
  exact (local_times (local_lookupPairReader size offset) _).bind fun _ => local_pure _

theorem local_operandReader
    (size offset : Nat)
    (code : Opcode) :
    Local (operandReader size offset code) := by
  unfold operandReader
  split
  case h_1 => exact local_fail _
  case h_2 => exact local_pure _
  case h_3 | h_5 | h_6 | h_8 => exact local_u1.bind fun _ => local_pure _
  case h_4 | h_7 | h_14 | h_15 | h_16 => exact local_u2.bind fun _ => local_pure _
  case h_9 => exact local_u1.bind fun _ => local_u1.bind fun _ => local_pure _
  case h_10 => exact (local_nearTarget size offset).bind fun _ => local_pure _
  case h_11 => exact (local_farTarget size offset).bind fun _ => local_pure _
  case h_12 => exact local_tableSwitchReader size offset code
  case h_13 => exact local_lookupSwitchReader size offset code
  case h_17 =>
    exact local_u2.bind fun _ => local_u1.bind fun _ => local_u1.bind fun _ => local_pure _
  case h_18 => exact local_u2.bind fun _ => local_u2.bind fun _ => local_pure _
  case h_19 => exact local_u2.bind fun _ => local_u1.bind fun _ => local_pure _
  case h_20 => exact local_wideReader offset

theorem local_reader (size offset : Nat) : Local (reader size offset) :=
  local_u1.bind fun code => local_operandReader size offset code

/-! ## What an instruction takes -/

/-- The operands of an instruction are those that its opcode asks for. -/
def WellFormed : Insn → Prop
  | .plain code => code.layout? = some .plain
  | .immediate code operand =>
      code.layout? = some .signedByte ∧ operand.toInt8.toInt32 = operand ∨
        code.layout? = some .signedShort ∧ operand.toInt16.toInt32 = operand ∨
        code.layout? = some .arrayType ∧ operand.toInt8.toUInt8.toUInt32.toInt32 = operand
  | .slot code _ => takesSlot code = true
  | .classRef code _ => code.layout? = some .classRef
  | .field code _ => code.layout? = some .fieldRef
  | .method code _ => code.layout? = some .methodRef
  | .interfaceMethod code _ _ => code.layout? = some .interfaceMethodRef
  | .callSite code _ => code.layout? = some .callSite
  | .jump code _ => code.layout? = some .branch ∨ code.layout? = some .wideBranch
  | .load code (.index index) =>
      code.layout? = some .shortConstant ∧ index ≤ 255 ∨ code.layout? = some .longConstant
  | .load code (.text _) => code = Opcode.ldc ∨ code = Opcode.ldcW
  | .increment code _ _ => code.layout? = some .increment
  | .tableSwitch code _ low high targets =>
      code.layout? = some .tableSwitch ∧ low ≤ high ∧
        (targets.length : Int) = high.toInt - low.toInt + 1
  | .lookupSwitch code _ pairs =>
      code.layout? = some .lookupSwitch ∧ pairs.length < 2 ^ 31
  | .multiArray code _ _ => code.layout? = some .multiArray

/-- Everything an instruction refers to in the pool it refers to by number. -/
def Indexed : Insn → Prop
  | .field _ (.named _ _ _) | .method _ (.named _ _ _) | .load _ (.text _) => False
  | _ => True

/-- What was read is well formed, takes as many bytes as it says, and stays inside the body. -/
structure ReadFrom
    (size : Nat)
    (taken : Bytes)
    (insn : Insn)
    (width : Nat) : Prop where
  wellFormed : insn.WellFormed
  width : width = taken.length + 1
  inside : ∀ target ∈ insn.targets, target < size
  indexed : insn.Indexed

theorem arrayType_operand (value : UInt8) :
    value.toUInt32.toInt32.toInt8.toUInt8.toUInt32.toInt32 = value.toUInt32.toInt32 := by
  obtain ⟨⟨value⟩⟩ := value
  revert value
  decide +kernel

theorem toUInt16_le_255 (value : UInt8) : value.toUInt16 ≤ 255 := by
  have := value.toNat_lt
  rw [UInt16.le_iff_toNat_le]
  simp
  omega

theorem readFrom_of_wide
    {size offset width : Nat}
    {insn : Insn}
    {taken : Bytes}
    (reads : (wideReader offset).Reads taken (insn, width)) :
    ReadFrom size taken insn width := by
  unfold wideReader at reads
  obtain ⟨inner, _, _, rfl, first, second⟩ := (reads_bind_iff local_u1).mp reads
  obtain rfl := reads_u1_iff.mp first
  split at second
  · rename_i takes
    obtain ⟨index, third, result⟩ := (reads_bind_pure_iff local_u2).mp second
    obtain rfl := reads_u2_iff.mp third
    cases result
    exact ⟨takes, by simp, by simp [targets], trivial⟩
  · split at second
    · rename_i isIncrement
      simp only [reads_bind_iff local_u2, reads_u2_iff, reads_pure_iff] at second
      obtain ⟨index, _, _, rfl, rfl, amount, _, _, rfl, rfl, rfl, result⟩ := second
      cases result
      refine ⟨?_, by simp, by simp [targets], trivial⟩
      rw [isIncrement]
      rfl
    · exact absurd second not_reads_fail

theorem lt_of_reads_farTarget
    {size offset target : Nat}
    {taken : Bytes}
    (reads : (farTarget size offset).Reads taken target) :
    taken.length = 4 ∧ target < size := by
  obtain ⟨_, rfl, _, inside⟩ := reads_farTarget_iff.mp reads
  exact ⟨by simp, inside⟩

theorem lt_of_reads_lookupPair
    {size offset : Nat}
    {pair : Int32 × Label}
    {taken : Bytes}
    (reads : (lookupPairReader size offset).Reads taken pair) :
    taken.length = 8 ∧ pair.2 < size := by
  unfold lookupPairReader at reads
  simp only [reads_bind_iff local_u4, reads_bind_pure_iff (local_farTarget size offset),
    reads_u4_iff] at reads
  obtain ⟨key, _, _, rfl, rfl, target, first, rfl⟩ := reads
  obtain ⟨length, inside⟩ := lt_of_reads_farTarget first
  exact ⟨by simp [length], inside⟩

theorem readFrom_of_tableSwitch
    {size offset width : Nat}
    {code : Opcode}
    {insn : Insn}
    {taken : Bytes}
    (layout : code.layout? = some .tableSwitch)
    (reads : (tableSwitchReader size offset code).Reads taken (insn, width)) :
    ReadFrom size taken insn width := by
  unfold tableSwitchReader at reads
  simp only [reads_bind_iff (local_bytes _), reads_bind_iff (local_farTarget size offset),
    reads_bind_iff local_u4, reads_bytes_iff, reads_u4_iff] at reads
  obtain ⟨padding, _, _, rfl, ⟨rfl, padded⟩, default, _, _, rfl, defaultReads, low, _, _, rfl,
    rfl, high, _, _, rfl, rfl, reads⟩ := reads
  split at reads
  · exact absurd reads not_reads_fail
  · rename_i ordered
    obtain ⟨targets, targetsRead, result⟩ :=
      (reads_bind_pure_iff (local_times (local_farTarget size offset) _)).mp reads
    obtain ⟨pieces, all, count, rfl⟩ := (reads_times_iff (local_farTarget size offset)).mp targetsRead
    cases result
    have ordered : low.toInt32.toInt ≤ high.toInt32.toInt := by
      rw [Int32.lt_iff_toInt_lt] at ordered
      omega
    have length :=
      flatten_length_of_forall₂ (fun _ _ reads => (lt_of_reads_farTarget reads).1) all
    obtain ⟨defaultLength, defaultInside⟩ := lt_of_reads_farTarget defaultReads
    refine ⟨⟨layout, Int32.le_iff_toInt_le.mpr ordered, ?_⟩, ?_, ?_, trivial⟩
    · rw [count]
      omega
    · simp only [List.length_append, padded, defaultLength, length, count,
        Bytes.length_ofUInt32]
      omega
    · intro target member
      rcases List.mem_cons.mp member with rfl | member
      · exact defaultInside
      · obtain ⟨piece, _, reads⟩ := exists_of_forall₂ all member
        exact (lt_of_reads_farTarget reads).2

theorem readFrom_of_lookupSwitch
    {size offset width : Nat}
    {code : Opcode}
    {insn : Insn}
    {taken : Bytes}
    (layout : code.layout? = some .lookupSwitch)
    (reads : (lookupSwitchReader size offset code).Reads taken (insn, width)) :
    ReadFrom size taken insn width := by
  unfold lookupSwitchReader at reads
  simp only [reads_bind_iff (local_bytes _), reads_bind_iff (local_farTarget size offset),
    reads_bind_iff local_u4, reads_bytes_iff, reads_u4_iff] at reads
  obtain ⟨padding, _, _, rfl, ⟨rfl, padded⟩, default, _, _, rfl, defaultReads, count, _, _, rfl,
    rfl, reads⟩ := reads
  split at reads
  · exact absurd reads not_reads_fail
  · rename_i nonnegative
    obtain ⟨pairs, pairsRead, result⟩ :=
      (reads_bind_pure_iff (local_times (local_lookupPairReader size offset) _)).mp reads
    obtain ⟨pieces, all, counted, rfl⟩ :=
      (reads_times_iff (local_lookupPairReader size offset)).mp pairsRead
    cases result
    have small : count.toInt32.toInt < 2 ^ 31 := count.toInt32.toInt_lt
    have nonnegative : 0 ≤ count.toInt32.toInt := by
      rw [Int32.lt_iff_toInt_lt] at nonnegative
      simpa using nonnegative
    have length :=
      flatten_length_of_forall₂ (fun _ _ reads => (lt_of_reads_lookupPair reads).1) all
    obtain ⟨defaultLength, defaultInside⟩ := lt_of_reads_farTarget defaultReads
    refine ⟨⟨layout, by omega⟩, ?_, ?_, trivial⟩
    · simp only [List.length_append, padded, defaultLength, length, counted,
        Bytes.length_ofUInt32]
      omega
    · intro target member
      rcases List.mem_cons.mp member with rfl | member
      · exact defaultInside
      · obtain ⟨pair, pairMember, rfl⟩ := List.mem_map.mp member
        obtain ⟨piece, _, reads⟩ := exists_of_forall₂ all pairMember
        exact (lt_of_reads_lookupPair reads).2

/-- What an opcode and its operands are read as is well formed. -/
theorem readFrom_of_operands
    {size offset width : Nat}
    {code : Opcode}
    {insn : Insn}
    {taken : Bytes}
    (reads : (operandReader size offset code).Reads taken (insn, width)) :
    ReadFrom size taken insn width := by
  unfold operandReader at reads
  split at reads
  case h_1 => exact absurd reads not_reads_fail
  case h_12 layout => exact readFrom_of_tableSwitch layout reads
  case h_13 layout => exact readFrom_of_lookupSwitch layout reads
  case h_20 => exact readFrom_of_wide reads
  case h_2 layout =>
    obtain ⟨rfl, result⟩ := reads_pure_iff.mp reads
    cases result
    exact ⟨layout, rfl, by simp [targets], trivial⟩
  case h_10 layout =>
    obtain ⟨target, reads, result⟩ := (reads_bind_pure_iff (local_nearTarget size offset)).mp reads
    obtain ⟨_, rfl, _, inside⟩ := reads_nearTarget_iff.mp reads
    cases result
    exact ⟨.inl layout, by simp, by simpa [targets] using inside, trivial⟩
  case h_11 layout =>
    obtain ⟨target, reads, result⟩ := (reads_bind_pure_iff (local_farTarget size offset)).mp reads
    obtain ⟨length, inside⟩ := lt_of_reads_farTarget reads
    cases result
    exact ⟨.inr layout, by simp [length], by simpa [targets] using inside, trivial⟩
  case h_8 layout | h_7 layout | h_14 layout | h_15 layout | h_16 layout =>
    simp only [reads_bind_iff local_u2, reads_bind_iff local_u1, reads_u1_iff, reads_u2_iff,
      reads_pure_iff, Prod.mk.injEq] at reads
    obtain ⟨index, _, _, rfl, rfl, rfl, rfl, rfl⟩ := reads
    exact ⟨by simp [WellFormed, takesSlot, layout], by simp, by simp [targets], trivial⟩
  case h_3 layout | h_4 layout | h_5 layout | h_6 layout =>
    simp only [reads_bind_iff local_u2, reads_bind_iff local_u1, reads_u1_iff, reads_u2_iff,
      reads_pure_iff, Prod.mk.injEq] at reads
    obtain ⟨operand, _, _, rfl, rfl, rfl, rfl, rfl⟩ := reads
    refine ⟨?_, by simp, by simp [targets], trivial⟩
    simp [WellFormed, layout, arrayType_operand, toUInt16_le_255]
  case h_9 layout | h_18 layout | h_19 layout =>
    simp only [reads_bind_iff local_u2, reads_bind_iff local_u1, reads_u1_iff, reads_u2_iff,
      reads_pure_iff, Prod.mk.injEq] at reads
    obtain ⟨index, _, _, rfl, rfl, amount, _, _, rfl, rfl, rfl, rfl, rfl⟩ := reads
    exact ⟨by simp [WellFormed, layout], by simp, by simp [targets], trivial⟩
  case h_17 layout =>
    simp only [reads_bind_iff local_u2, reads_bind_iff local_u1, reads_u1_iff, reads_u2_iff,
      reads_pure_iff, Prod.mk.injEq] at reads
    obtain ⟨index, _, _, rfl, rfl, count, _, _, rfl, rfl, _, _, _, rfl, rfl, rfl, rfl, rfl⟩ :=
      reads
    exact ⟨by simp [WellFormed, layout], by simp, by simp [targets], trivial⟩

theorem indexed_of_reads
    {size offset width : Nat}
    {insn : Insn}
    {taken : Bytes}
    (reads : (reader size offset).Reads taken (insn, width)) :
    insn.Indexed := by
  obtain ⟨code, _, operands, rfl, _, second⟩ := (reads_bind_iff local_u1).mp reads
  exact (readFrom_of_operands second).indexed

/-- What is read as an instruction is well formed and takes a byte or more. -/
theorem readFrom_of_reads
    {size offset width : Nat}
    {insn : Insn}
    {taken : Bytes}
    (reads : (reader size offset).Reads taken (insn, width)) :
    insn.WellFormed ∧ width = taken.length ∧ 1 ≤ width ∧
      ∀ target ∈ insn.targets, target < size := by
  obtain ⟨code, _, operands, rfl, first, second⟩ := (reads_bind_iff local_u1).mp reads
  obtain rfl := reads_u1_iff.mp first
  have read := readFrom_of_operands second
  refine ⟨read.wellFormed, ?_, ?_, read.inside⟩
  · simp [read.width]
  · simp [read.width]

/-! ## Decoding a row of instructions -/

/-- Bytes are instructions one behind the other, the first of them at an offset. -/
inductive Decodes (size : Nat) : Nat → Bytes → List (Nat × Insn) → Prop
  | nil (offset : Nat) : Decodes size offset [] []
  | cons
      {offset : Nat}
      {taken behind : Bytes}
      {insn : Insn}
      {insns : List (Nat × Insn)}
      (reads : (reader size offset).Reads taken (insn, taken.length))
      (later : Decodes size (offset + taken.length) behind insns) :
      Decodes size offset (taken ++ behind) ((offset, insn) :: insns)

theorem decodes_nil_iff
    {size offset : Nat}
    {insns : List (Nat × Insn)} :
    Decodes size offset [] insns ↔ insns = [] := by
  constructor
  · intro decodes
    generalize none : ([] : Bytes) = bytes at decodes
    cases decodes with
    | nil => rfl
    | cons reads _ =>
        have positive := (readFrom_of_reads reads).2.2.1
        simp only [List.nil_eq, List.append_eq_nil_iff] at none
        simp [none.1] at positive
  · rintro rfl
    exact .nil offset

/-- Decoding goes on behind the instruction that is read first. -/
theorem decodes_iff_of_reads
    {size offset width : Nat}
    {insn : Insn}
    {input rest : Bytes}
    {insns : List (Nat × Insn)}
    (read : reader size offset input = .ok ((insn, width), rest)) :
    Decodes size offset input insns ↔
      ∃ later, Decodes size (offset + width) rest later ∧ insns = (offset, insn) :: later := by
  obtain ⟨taken, rfl, reads⟩ := local_reader size offset _ _ _ read
  obtain ⟨_, rfl, positive, _⟩ := readFrom_of_reads reads
  constructor
  · intro decodes
    generalize whole : taken ++ rest = bytes at decodes
    cases decodes with
    | nil => simp_all
    | @cons _ front behind first later firstReads laterDecodes =>
        have same := firstReads behind
        rw [← whole, reads rest] at same
        simp only [Except.ok.injEq, Prod.mk.injEq] at same
        obtain ⟨⟨rfl, length⟩, rfl⟩ := same
        exact ⟨later, length ▸ laterDecodes, rfl⟩
  · rintro ⟨later, decodes, rfl⟩
    exact .cons reads decodes

/-- A row of instructions is decoded behind those that were decoded before. -/
theorem decodeFrom_eq_ok_iff
    {size offset steps : Nat}
    {done insns : List (Nat × Insn)}
    {bytes : Bytes}
    (enough : bytes.length ≤ steps) :
    decodeFrom size done offset steps bytes = .ok insns ↔
      ∃ later, Decodes size offset bytes later ∧ insns = done.reverse ++ later := by
  induction steps generalizing done offset bytes with
  | zero =>
      obtain rfl := List.length_eq_zero_iff.mp (Nat.le_zero.mp enough)
      simp [decodeFrom, decodes_nil_iff, eq_comm]
  | succ steps inductionHypothesis =>
      cases bytes with
      | nil => simp [decodeFrom, decodes_nil_iff, eq_comm]
      | cons byte bytes =>
          unfold decodeFrom
          cases read : reader size offset (byte :: bytes) with
          | error =>
              simp only [bind, Except.bind, reduceCtorEq, false_iff, not_exists, not_and]
              intro later decodes
              generalize whole : byte :: bytes = input at decodes
              cases decodes with
              | nil => cases whole
              | @cons _ front behind first later firstReads laterDecodes =>
                  rw [whole, firstReads behind] at read
                  cases read
          | ok result =>
              obtain ⟨⟨insn, width⟩, rest⟩ := result
              obtain ⟨taken, whole, reads⟩ := local_reader size offset _ _ _ read
              obtain ⟨_, rfl, positive, _⟩ := readFrom_of_reads reads
              have lengths := congrArg List.length whole
              simp only [List.length_cons, List.length_append] at lengths enough
              have shorter : rest.length ≤ steps := by omega
              simp only [bind, Except.bind, inductionHypothesis shorter,
                decodes_iff_of_reads read]
              constructor
              · rintro ⟨later, decodes, rfl⟩
                exact ⟨_, ⟨later, decodes, rfl⟩, by simp⟩
              · rintro ⟨_, ⟨later, decodes, rfl⟩, rfl⟩
                exact ⟨later, decodes, by simp⟩

/-- What decoding gives is the row of instructions that the bytes are. -/
theorem decode_eq_ok_iff
    {code : Bytes}
    {insns : List (Nat × Insn)} :
    decode code = .ok insns ↔ Decodes code.length 0 code insns := by
  unfold decode
  rw [decodeFrom_eq_ok_iff (Nat.le_refl _)]
  simp

/-! ## Where instructions lie -/

/-- Instructions lie inside the bytes that they were decoded from, each behind the one before. -/
theorem Decodes.placed
    {size offset : Nat}
    {bytes : Bytes}
    {insns : List (Nat × Insn)}
    (decodes : Decodes size offset bytes insns) :
    (insns.map Prod.fst).Pairwise (· < ·) ∧
      ∀ place ∈ insns.map Prod.fst, offset ≤ place ∧ place < offset + bytes.length := by
  induction decodes with
  | nil => simp
  | @cons offset taken behind insn insns reads later inductionHypothesis =>
      have positive := (readFrom_of_reads reads).2.2.1
      obtain ⟨ascending, inside⟩ := inductionHypothesis
      simp only [List.map_cons, List.pairwise_cons, List.mem_cons, forall_eq_or_imp,
        List.length_append]
      refine ⟨⟨?_, ascending⟩, by omega, ?_⟩
      · intro place member
        have := inside place member
        omega
      · intro place member
        have := inside place member
        omega

/-- The first instruction lies where decoding began. -/
theorem Decodes.offset_first
    {size offset : Nat}
    {bytes : Bytes}
    {first : Nat × Insn}
    {rest : List (Nat × Insn)}
    (decodes : Decodes size offset bytes (first :: rest)) :
    first.1 = offset := by
  cases decodes
  rfl

/-- The offsets of a body that is short enough do not wrap into one another. -/
theorem Decodes.nodup_located
    {size : Nat}
    {bytes : Bytes}
    {insns : List (Nat × Insn)}
    (decodes : Decodes size 0 bytes insns)
    (short : bytes.length < 2 ^ 16) :
    ((LocatedCode.located insns).map Prod.fst).Nodup := by
  obtain ⟨ascending, inside⟩ := decodes.placed
  have shape :
      (LocatedCode.located insns).map Prod.fst = (insns.map Prod.fst).map UInt16.ofNat := by
    simp [LocatedCode.located]
  rw [shape]
  refine List.Nodup.map_on ?_ (ascending.imp Nat.ne_of_lt)
  intro left leftMember right rightMember same
  have leftInside := inside left leftMember
  have rightInside := inside right rightMember
  have numbers := congrArg UInt16.toNat same
  rwa [UInt16.toNat_ofNat_of_lt' (show left < 2 ^ 16 by omega),
    UInt16.toNat_ofNat_of_lt' (show right < 2 ^ 16 by omega)] at numbers

/-- In a body that is short enough an offset means the instruction that lies at it. -/
theorem Decodes.positions_eq
    {size : Nat}
    {bytes : Bytes}
    {insns : List (Nat × Insn)}
    {position offset : Nat}
    {insn : Insn}
    (decodes : Decodes size 0 bytes insns)
    (short : bytes.length < 2 ^ 16)
    (placed : insns[position]? = some (offset, insn)) :
    (LocatedCode.ofInsns insns).positions[UInt16.ofNat offset]? = some position :=
  LocatedCode.positions_eq_of_nodup (decodes.nodup_located short)
    (LocatedCode.located_of_placed placed)

/-- Every decoded instruction is well formed and leads to offsets inside the body. -/
theorem Decodes.wellFormed
    {size offset : Nat}
    {bytes : Bytes}
    {insns : List (Nat × Insn)}
    (decodes : Decodes size offset bytes insns) :
    ∀ placed ∈ insns, placed.2.WellFormed ∧ ∀ target ∈ placed.2.targets, target < size := by
  induction decodes with
  | nil => simp
  | cons reads later inductionHypothesis =>
      intro placed member
      rcases List.mem_cons.mp member with rfl | member
      · have read := readFrom_of_reads reads
        exact ⟨read.1, read.2.2.2⟩
      · exact inductionHypothesis placed member

theorem Decodes.indexed
    {size offset : Nat}
    {bytes : Bytes}
    {insns : List (Nat × Insn)}
    (decodes : Decodes size offset bytes insns) :
    ∀ placed ∈ insns, placed.2.Indexed := by
  induction decodes with
  | nil => simp
  | cons reads later inductionHypothesis =>
      intro placed member
      rcases List.mem_cons.mp member with rfl | member
      · exact indexed_of_reads reads
      · exact inductionHypothesis placed member

/-! ## Renamed targets -/

section MapTargets

variable {insn : Insn} {rename : Label → Label}

theorem indexed_mapTargets (indexed : insn.Indexed) : (insn.mapTargets rename).Indexed := by
  cases insn <;> exact indexed

theorem wellFormed_mapTargets
    (wellFormed : insn.WellFormed) :
    (insn.mapTargets rename).WellFormed := by
  cases insn with
  | tableSwitch code default low high targets =>
      obtain ⟨layout, ordered, count⟩ := wellFormed
      exact ⟨layout, ordered, by simpa using count⟩
  | lookupSwitch code default pairs =>
      obtain ⟨layout, short⟩ := wellFormed
      exact ⟨layout, by simpa using short⟩
  | _ => exact wellFormed

theorem mapTargets_mapTargets
    (insn : Insn)
    (first second : Label → Label) :
    (insn.mapTargets first).mapTargets second = insn.mapTargets (second ∘ first) := by
  cases insn <;> simp [mapTargets]

theorem mapTargets_id (insn : Insn) : insn.mapTargets id = insn := by
  cases insn <;> simp [mapTargets]

theorem mapTargets_congr
    {other : Label → Label}
    (same : ∀ target ∈ insn.targets, rename target = other target) :
    insn.mapTargets rename = insn.mapTargets other := by
  cases insn with
  | jump code target => simpa [mapTargets, targets] using same
  | tableSwitch code default low high targets => simpa [mapTargets, Insn.targets] using same
  | lookupSwitch code default pairs =>
      simp only [targets, List.mem_cons, forall_eq_or_imp, List.mem_map] at same
      simp only [mapTargets, same.1, lookupSwitch.injEq, true_and, List.map_inj_left]
      intro pair member
      rw [same.2 pair.2 ⟨pair, member, rfl⟩]
  | _ => rfl

end MapTargets

end JvmClass.Insn
