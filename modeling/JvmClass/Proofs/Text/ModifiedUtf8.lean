import JvmClass.Proofs.Steps
import JvmClass.Text.ModifiedUtf8
import Mathlib.Data.Nat.Bitwise

namespace JvmClass.ModifiedUtf8

/-!
# Text survives its bytes

Every code unit is written as one group of bytes and every character as one or
two code units, and reading undoes both steps.
-/

/-! ## Bytes of a group -/

/-- The leading byte of a pair is told from other bytes and gives back its five bits. -/
theorem pair_leading
    (bits : UInt8)
    (small : bits < 32) :
    (0xC0 ||| bits) &&& 0x80 ≠ 0 ∧ (0xC0 ||| bits) &&& 0xE0 = 0xC0 ∧
      (0xC0 ||| bits) &&& 0x1F = bits := by
  obtain ⟨⟨bits⟩⟩ := bits
  revert bits
  decide +kernel

/-- The leading byte of a triple is told from other bytes and gives back its four bits. -/
theorem triple_leading
    (bits : UInt8)
    (small : bits < 16) :
    (0xE0 ||| bits) &&& 0x80 ≠ 0 ∧ (0xE0 ||| bits) &&& 0xE0 ≠ 0xC0 ∧
      (0xE0 ||| bits) &&& 0xF0 = 0xE0 ∧ (0xE0 ||| bits) &&& 0x0F = bits := by
  obtain ⟨⟨bits⟩⟩ := bits
  revert bits
  decide +kernel

/-- A continuation byte is known as one and gives back its six bits. -/
theorem continuation
    (bits : UInt8)
    (small : bits < 64) :
    isContinuation (0x80 ||| bits) = true ∧ (0x80 ||| bits) &&& 0x3F = bits := by
  obtain ⟨⟨bits⟩⟩ := bits
  revert bits
  decide +kernel

/-- A byte for itself is told from the leading bytes. -/
theorem single_leading
    (byte : UInt8)
    (small : byte < 128) :
    byte &&& 0x80 = 0 := by
  obtain ⟨⟨byte⟩⟩ := byte
  revert byte
  decide +kernel

/-- The lowest six bits of a code unit as a number. -/
theorem toNat_lowBits (unit : UInt16) : (unit &&& 0x3F).toUInt8.toNat = unit.toNat % 64 := by
  have masked : unit.toNat &&& 63 = unit.toNat % 64 := Nat.and_two_pow_sub_one_eq_mod unit.toNat 6
  rw [UInt16.toNat_toUInt8, UInt16.toNat_and, show (0x3F : UInt16).toNat = 63 from rfl, masked]
  omega

/-- The six bits above the lowest six as a number. -/
theorem toNat_middleBits
    (unit : UInt16) :
    ((unit >>> 6) &&& 0x3F).toUInt8.toNat = unit.toNat / 64 % 64 := by
  rw [toNat_lowBits, UInt16.toNat_shiftRight, show (6 : UInt16).toNat % 16 = 6 from rfl,
    Nat.shiftRight_eq_div_pow]

/-- The bits of a code unit above the lowest six, where they fit a byte. -/
theorem toNat_pairBits
    (unit : UInt16)
    (small : unit.toNat < 2048) :
    (unit >>> 6).toUInt8.toNat = unit.toNat / 64 := by
  rw [UInt16.toNat_toUInt8, UInt16.toNat_shiftRight, show (6 : UInt16).toNat % 16 = 6 from rfl,
    Nat.shiftRight_eq_div_pow]
  omega

/-- The highest four bits of a code unit as a number. -/
theorem toNat_tripleBits (unit : UInt16) : (unit >>> 12).toUInt8.toNat = unit.toNat / 4096 := by
  have bound := unit.toNat_lt
  rw [UInt16.toNat_toUInt8, UInt16.toNat_shiftRight, show (12 : UInt16).toNat % 16 = 12 from rfl,
    Nat.shiftRight_eq_div_pow]
  omega

/-- Bits in front of others, as a number. -/
theorem toNat_shiftLeft_or
    (high low shift : UInt16)
    (inside : shift.toNat < 16)
    (fits : high.toNat * 2 ^ shift.toNat < 2 ^ 16)
    (small : low.toNat < 2 ^ shift.toNat) :
    (high <<< shift ||| low).toNat = high.toNat * 2 ^ shift.toNat + low.toNat := by
  have shifted : (high <<< shift).toNat = high.toNat <<< shift.toNat := by
    rw [UInt16.toNat_shiftLeft, Nat.mod_eq_of_lt inside, Nat.shiftLeft_eq, Nat.mod_eq_of_lt fits]
  rw [UInt16.toNat_or, shifted, ← Nat.shiftLeft_add_eq_or_of_lt small, Nat.shiftLeft_eq]

/-- The two parts of a pair as a number. -/
theorem toNat_joinPair
    (first second : UInt8)
    (firstSmall : first.toNat < 32)
    (secondSmall : second.toNat < 64) :
    (first.toUInt16 <<< 6 ||| second.toUInt16).toNat = first.toNat * 64 + second.toNat := by
  have joined :=
    toNat_shiftLeft_or first.toUInt16 second.toUInt16 6 (by decide)
      (show first.toNat * 2 ^ 6 < 2 ^ 16 by omega) secondSmall
  exact joined

/-- The three parts of a triple as a number. -/
theorem toNat_joinTriple
    (first second third : UInt8)
    (firstSmall : first.toNat < 16)
    (secondSmall : second.toNat < 64)
    (thirdSmall : third.toNat < 64) :
    (first.toUInt16 <<< 12 ||| second.toUInt16 <<< 6 ||| third.toUInt16).toNat =
      first.toNat * 4096 + second.toNat * 64 + third.toNat := by
  have lower :
      (second.toUInt16 <<< 6 ||| third.toUInt16).toNat = second.toNat * 64 + third.toNat :=
    toNat_shiftLeft_or second.toUInt16 third.toUInt16 6 (by decide)
      (show second.toNat * 2 ^ 6 < 2 ^ 16 by omega) thirdSmall
  have joined :=
    toNat_shiftLeft_or first.toUInt16 (second.toUInt16 <<< 6 ||| third.toUInt16) 12 (by decide)
      (show first.toNat * 2 ^ 12 < 2 ^ 16 by omega)
      (by
        rw [lower]
        show _ < 2 ^ 12
        omega)
  rw [UInt16.or_assoc, joined, lower, ← Nat.add_assoc]
  rfl

/-- The two parts of a pair make the code unit again. -/
theorem join_pair
    (unit : UInt16)
    (small : unit.toNat < 2048) :
    (unit >>> 6).toUInt8.toUInt16 <<< 6 ||| (unit &&& 0x3F).toUInt8.toUInt16 = unit := by
  have upper := toNat_pairBits unit small
  have lower := toNat_lowBits unit
  rw [← UInt16.toNat_inj, toNat_joinPair _ _ (by omega) (by omega), upper, lower]
  omega

/-- The three parts of a triple make the code unit again. -/
theorem join_triple
    (unit : UInt16) :
    (unit >>> 12).toUInt8.toUInt16 <<< 12 ||| ((unit >>> 6) &&& 0x3F).toUInt8.toUInt16 <<< 6
        ||| (unit &&& 0x3F).toUInt8.toUInt16 = unit := by
  have bound := unit.toNat_lt
  have upper := toNat_tripleBits unit
  have middle := toNat_middleBits unit
  have lower := toNat_lowBits unit
  rw [← UInt16.toNat_inj, toNat_joinTriple _ _ _ (by omega) (by omega) (by omega), upper, middle,
    lower]
  omega

/-! ## Code units -/

/-- The group of a code unit is read as that code unit. -/
theorem splitUnits_encodeUnit
    (done : List UInt16)
    (unit : UInt16)
    (rest : List UInt8) :
    splitUnits done (encodeUnit unit ++ rest) = splitUnits (unit :: done) rest := by
  have bound := unit.toNat_lt
  have low : (unit &&& 0x3F).toUInt8 < 64 := by
    rw [UInt8.lt_iff_toNat_lt, toNat_lowBits]
    exact Nat.mod_lt _ (by decide)
  obtain ⟨lowKnown, lowBits⟩ := continuation _ low
  unfold encodeUnit
  split
  · rename_i single
    obtain ⟨nonzero, small⟩ := single
    rw [UInt16.le_iff_toNat_le, show (0x7F : UInt16).toNat = 127 from rfl] at small
    have same : unit.toUInt8.toUInt16 = unit := by
      rw [← UInt16.toNat_inj, UInt8.toNat_toUInt16, UInt16.toNat_toUInt8]
      omega
    have leading : unit.toUInt8 &&& 0x80 = 0 := by
      refine single_leading _ ?_
      rw [UInt8.lt_iff_toNat_lt, UInt16.toNat_toUInt8, show (128 : UInt8).toNat = 128 from rfl]
      omega
    have byteNonzero : unit.toUInt8 ≠ 0 := by
      intro zero
      rw [zero] at same
      exact nonzero same.symm
    rw [List.singleton_append, splitUnits.eq_def]
    simp [leading, byteNonzero, same]
  · split
    · rename_i small
      rw [UInt16.le_iff_toNat_le, show (0x7FF : UInt16).toNat = 2047 from rfl] at small
      obtain ⟨notSingle, isPair, highBits⟩ := pair_leading (unit >>> 6).toUInt8 (by
        rw [UInt8.lt_iff_toNat_lt, toNat_pairBits unit (by omega),
          show (32 : UInt8).toNat = 32 from rfl]
        omega)
      rw [List.cons_append, List.singleton_append, splitUnits.eq_def]
      simp only [beq_iff_eq, notSingle, if_false, isPair, if_true, lowKnown, highBits, lowBits]
      rw [join_pair unit (by omega)]
    · have middle : ((unit >>> 6) &&& 0x3F).toUInt8 < 64 := by
        rw [UInt8.lt_iff_toNat_lt, toNat_middleBits]
        exact Nat.mod_lt _ (by decide)
      obtain ⟨middleKnown, middleBits⟩ := continuation _ middle
      obtain ⟨notSingle, notPair, isTriple, highBits⟩ := triple_leading (unit >>> 12).toUInt8 (by
        rw [UInt8.lt_iff_toNat_lt, toNat_tripleBits, show (16 : UInt8).toNat = 16 from rfl]
        omega)
      rw [List.cons_append, List.cons_append, List.singleton_append, splitUnits.eq_def]
      simp only [beq_iff_eq, notSingle, if_false, notPair, isTriple, if_true, lowKnown,
        middleKnown, Bool.and_true, highBits, middleBits, lowBits]
      rw [join_triple]

/-- The groups of a row of code units are read as that row. -/
theorem splitUnits_flatMap
    (done units : List UInt16) :
    splitUnits done (units.flatMap encodeUnit) = .ok (done.reverse ++ units) := by
  induction units generalizing done with
  | nil => simp [splitUnits]
  | cons unit units inductionHypothesis =>
      rw [List.flatMap_cons, splitUnits_encodeUnit, inductionHypothesis]
      simp

/-! ## Characters -/

/-- The code units of a character are joined to that character. -/
theorem joinUnits_unitsOfChar
    (done : List Char)
    (c : Char)
    (rest : List UInt16) :
    joinUnits done (unitsOfChar c ++ rest) = joinUnits (c :: done) rest := by
  have valid : c.toNat < 0xD800 ∨ 0xDFFF < c.toNat ∧ c.toNat < 0x110000 := c.valid
  unfold unitsOfChar
  split
  · rename_i small
    have number : (UInt16.ofNat c.toNat).toNat = c.toNat := UInt16.toNat_ofNat_of_lt' small
    have notHigh : isHighSurrogate (UInt16.ofNat c.toNat) = false := by
      simp only [isHighSurrogate, Bool.and_eq_false_iff, decide_eq_false_iff_not,
        UInt16.le_iff_toNat_le, number, show (0xD800 : UInt16).toNat = 0xD800 from rfl,
        show (0xDBFF : UInt16).toNat = 0xDBFF from rfl]
      omega
    have notLow : isLowSurrogate (UInt16.ofNat c.toNat) = false := by
      simp only [isLowSurrogate, Bool.and_eq_false_iff, decide_eq_false_iff_not,
        UInt16.le_iff_toNat_le, number, show (0xDC00 : UInt16).toNat = 0xDC00 from rfl,
        show (0xDFFF : UInt16).toNat = 0xDFFF from rfl]
      omega
    rw [List.singleton_append, joinUnits.eq_def]
    simp only [notHigh, notLow, Bool.false_eq_true, if_false, number, Char.ofNat_toNat]
  · rename_i large
    have quotient : (c.toNat - 0x10000) / 0x400 < 0x400 := by omega
    have remainder : (c.toNat - 0x10000) % 0x400 < 0x400 := Nat.mod_lt _ (by decide)
    simp only
    generalize upper : (c.toNat - 0x10000) / 0x400 = high at quotient
    generalize lower : (c.toNat - 0x10000) % 0x400 = low at remainder
    have highNumber : (UInt16.ofNat (0xD800 + high)).toNat = 0xD800 + high :=
      UInt16.toNat_ofNat_of_lt' (by
        show _ < 2 ^ 16
        omega)
    have lowNumber : (UInt16.ofNat (0xDC00 + low)).toNat = 0xDC00 + low :=
      UInt16.toNat_ofNat_of_lt' (by
        show _ < 2 ^ 16
        omega)
    have isHigh : isHighSurrogate (UInt16.ofNat (0xD800 + high)) = true := by
      simp only [isHighSurrogate, Bool.and_eq_true, decide_eq_true_eq, UInt16.le_iff_toNat_le,
        highNumber, show (0xD800 : UInt16).toNat = 0xD800 from rfl,
        show (0xDBFF : UInt16).toNat = 0xDBFF from rfl]
      omega
    have isLow : isLowSurrogate (UInt16.ofNat (0xDC00 + low)) = true := by
      simp only [isLowSurrogate, Bool.and_eq_true, decide_eq_true_eq, UInt16.le_iff_toNat_le,
        lowNumber, show (0xDC00 : UInt16).toNat = 0xDC00 from rfl,
        show (0xDFFF : UInt16).toNat = 0xDFFF from rfl]
      omega
    have joined :
        charOfPair (UInt16.ofNat (0xD800 + high)) (UInt16.ofNat (0xDC00 + low)) = c := by
      rw [charOfPair, highNumber, lowNumber]
      have same :
          0x10000 + (0xD800 + high - 0xD800) * 0x400 + (0xDC00 + low - 0xDC00) = c.toNat := by
        omega
      rw [same, Char.ofNat_toNat]
    rw [List.cons_append, List.singleton_append, joinUnits.eq_def]
    simp only [isHigh, isLow, if_true, joined]

/-- The code units of a row of characters are joined to that row. -/
theorem joinUnits_flatMap
    (done chars : List Char) :
    joinUnits done (chars.flatMap unitsOfChar) = .ok (done.reverse ++ chars) := by
  induction chars generalizing done with
  | nil => simp [joinUnits]
  | cons c chars inductionHypothesis =>
      rw [List.flatMap_cons, joinUnits_unitsOfChar, inductionHypothesis]
      simp

/-- Every text is read back from its bytes. -/
@[simp] theorem decode_encode
    (text : String) :
    decode (encode text) = .ok text := by
  unfold decode encode
  rw [splitUnits_flatMap]
  simp only [bind, Except.bind, List.reverse_nil, List.nil_append]
  rw [joinUnits_flatMap]
  simp [pure, Except.pure]

/-! ## Characters that were joined -/

theorem toNat_ofNat_of_isValidChar
    {number : Nat}
    (valid : number.isValidChar) :
    (Char.ofNat number).toNat = number := by
  rw [Char.ofNat, dif_pos valid]
  rfl

/-- A surrogate pair is what the character that it stands for is written as. -/
theorem unitsOfChar_charOfPair
    {high low : UInt16}
    (isHigh : isHighSurrogate high = true)
    (isLow : isLowSurrogate low = true) :
    unitsOfChar (charOfPair high low) = [high, low] := by
  simp only [isHighSurrogate, isLowSurrogate, Bool.and_eq_true, decide_eq_true_eq,
    UInt16.le_iff_toNat_le] at isHigh isLow
  obtain ⟨highFrom, highTo⟩ := isHigh
  obtain ⟨lowFrom, lowTo⟩ := isLow
  rw [show (0xD800 : UInt16).toNat = 0xD800 from rfl] at highFrom
  rw [show (0xDBFF : UInt16).toNat = 0xDBFF from rfl] at highTo
  rw [show (0xDC00 : UInt16).toNat = 0xDC00 from rfl] at lowFrom
  rw [show (0xDFFF : UInt16).toNat = 0xDFFF from rfl] at lowTo
  have number :
      (charOfPair high low).toNat =
        0x10000 + (high.toNat - 0xD800) * 0x400 + (low.toNat - 0xDC00) := by
    refine toNat_ofNat_of_isValidChar (.inr ?_)
    omega
  have rest :
      (charOfPair high low).toNat - 0x10000 =
        (high.toNat - 0xD800) * 0x400 + (low.toNat - 0xDC00) := by
    omega
  unfold unitsOfChar
  rw [if_neg (by omega)]
  simp only [rest]
  have upper : 0xD800 + ((high.toNat - 0xD800) * 0x400 + (low.toNat - 0xDC00)) / 0x400 = high.toNat := by
    omega
  have lower : 0xDC00 + ((high.toNat - 0xD800) * 0x400 + (low.toNat - 0xDC00)) % 0x400 = low.toNat := by
    omega
  rw [upper, lower, UInt16.ofNat_toNat, UInt16.ofNat_toNat]

theorem unitsOfChar_ofNat
    {unit : UInt16}
    (notHigh : isHighSurrogate unit = false)
    (notLow : isLowSurrogate unit = false) :
    unitsOfChar (Char.ofNat unit.toNat) = [unit] := by
  have bound := unit.toNat_lt
  simp only [isHighSurrogate, isLowSurrogate, Bool.and_eq_false_iff, decide_eq_false_iff_not,
    UInt16.le_iff_toNat_le, show (0xD800 : UInt16).toNat = 0xD800 from rfl,
    show (0xDBFF : UInt16).toNat = 0xDBFF from rfl, show (0xDC00 : UInt16).toNat = 0xDC00 from rfl,
    show (0xDFFF : UInt16).toNat = 0xDFFF from rfl] at notHigh notLow
  have number : (Char.ofNat unit.toNat).toNat = unit.toNat :=
    toNat_ofNat_of_isValidChar (by
      show unit.toNat < 0xD800 ∨ 0xDFFF < unit.toNat ∧ unit.toNat < 0x110000
      omega)
  unfold unitsOfChar
  rw [number, if_pos (by omega), UInt16.ofNat_toNat]

/-- Code units that were joined are those of the characters. -/
theorem flatMap_unitsOfChar_of_joinUnits
    {done chars : List Char}
    {units : List UInt16}
    (joined : joinUnits done units = .ok chars) :
    chars.flatMap unitsOfChar = done.reverse.flatMap unitsOfChar ++ units := by
  fun_induction joinUnits done units
  case case1 done =>
    cases joined
    simp
  case case2 done unit isHigh low rest isLow inductionHypothesis =>
    rw [inductionHypothesis joined]
    simp [unitsOfChar_charOfPair isHigh isLow]
  case case6 done unit rest notHigh notLow inductionHypothesis =>
    rw [inductionHypothesis joined]
    simp [unitsOfChar_ofNat (Bool.not_eq_true _ ▸ notHigh) (Bool.not_eq_true _ ▸ notLow)]
  all_goals cases joined

end JvmClass.ModifiedUtf8
