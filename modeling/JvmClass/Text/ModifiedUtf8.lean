namespace JvmClass.ModifiedUtf8

/-!
# Modified UTF-8

Class files hold text as UTF-16 code units, each written in one to three bytes:
U+0000 takes two, so that no byte is zero, and a supplementary character is a
pair of surrogates of three bytes each.  Reading accepts a code unit written
longer than it needs to be; writing always takes the shortest form.
-/

/-- Why a byte string is no modified UTF-8. -/
inductive Fault where
  | zeroByte
  | truncatedPair
  | malformedPair
  | truncatedTriple
  | malformedTriple
  | leadingByte
  | unpairedSurrogate
  deriving Repr, DecidableEq

/-- The wording of each fault. -/
def Fault.message : Fault → String
  | .zeroByte => "raw nul byte"
  | .truncatedPair => "truncated 2-byte"
  | .malformedPair => "invalid 2-byte"
  | .truncatedTriple => "truncated 3-byte"
  | .malformedTriple => "invalid 3-byte"
  | .leadingByte => "invalid leading byte"
  | .unpairedSurrogate => "invalid utf16"

/-! ## Code units -/

/-- The UTF-16 code units of one character. -/
def unitsOfChar (c : Char) : List UInt16 :=
  if c.toNat < 0x10000 then
    [UInt16.ofNat c.toNat]
  else
    let rest := c.toNat - 0x10000
    [UInt16.ofNat (0xD800 + rest / 0x400), UInt16.ofNat (0xDC00 + rest % 0x400)]

/-- The first half of a surrogate pair. -/
def isHighSurrogate (unit : UInt16) : Bool :=
  0xD800 ≤ unit && unit ≤ 0xDBFF

/-- The second half of a surrogate pair. -/
def isLowSurrogate (unit : UInt16) : Bool :=
  0xDC00 ≤ unit && unit ≤ 0xDFFF

/-- The character that a surrogate pair stands for. -/
def charOfPair (high low : UInt16) : Char :=
  Char.ofNat (0x10000 + (high.toNat - 0xD800) * 0x400 + (low.toNat - 0xDC00))

/-- Joins code units into characters after those in `done`, which is reversed. -/
def joinUnits (done : List Char) : List UInt16 → Except Fault (List Char)
  | [] => .ok done.reverse
  | unit :: rest =>
      if isHighSurrogate unit then
        match rest with
        | low :: rest =>
            if isLowSurrogate low then
              joinUnits (charOfPair unit low :: done) rest
            else
              .error .unpairedSurrogate
        | [] => .error .unpairedSurrogate
      else if isLowSurrogate unit then
        .error .unpairedSurrogate
      else
        joinUnits (Char.ofNat unit.toNat :: done) rest

/-! ## Bytes -/

/-- The shortest group for one code unit; zero takes two bytes. -/
def encodeUnit (unit : UInt16) : List UInt8 :=
  if unit ≠ 0 ∧ unit ≤ 0x7F then
    [unit.toUInt8]
  else if unit ≤ 0x7FF then
    [(0xC0 : UInt8) ||| (unit >>> 6).toUInt8, (0x80 : UInt8) ||| (unit &&& 0x3F).toUInt8]
  else
    [(0xE0 : UInt8) ||| (unit >>> 12).toUInt8, (0x80 : UInt8) ||| ((unit >>> 6) &&& 0x3F).toUInt8,
      (0x80 : UInt8) ||| (unit &&& 0x3F).toUInt8]

/-- The bytes of a text. -/
def encode (text : String) : List UInt8 :=
  (text.toList.flatMap unitsOfChar).flatMap encodeUnit

/-- A byte that carries six further bits of a code unit. -/
def isContinuation (byte : UInt8) : Bool :=
  byte &&& 0xC0 == 0x80

/-- The code units of a byte string after those in `done`, which is reversed. -/
def splitUnits (done : List UInt16) : List UInt8 → Except Fault (List UInt16)
  | [] => .ok done.reverse
  | first :: rest =>
      if first &&& 0x80 == 0 then
        if first == 0 then
          .error .zeroByte
        else
          splitUnits (first.toUInt16 :: done) rest
      else if first &&& 0xE0 == 0xC0 then
        match rest with
        | second :: rest =>
            if isContinuation second then
              splitUnits
                (((first &&& 0x1F).toUInt16 <<< 6 ||| (second &&& 0x3F).toUInt16) :: done) rest
            else
              .error .malformedPair
        | [] => .error .truncatedPair
      else if first &&& 0xF0 == 0xE0 then
        match rest with
        | second :: third :: rest =>
            if isContinuation second && isContinuation third then
              splitUnits
                (((first &&& 0x0F).toUInt16 <<< 12 ||| (second &&& 0x3F).toUInt16 <<< 6
                  ||| (third &&& 0x3F).toUInt16) :: done) rest
            else
              .error .malformedTriple
        | _ => .error .truncatedTriple
      else
        .error .leadingByte

/-- The text that a byte string holds. -/
def decode (bytes : List UInt8) : Except Fault String := do
  let units ← splitUnits [] bytes
  let chars ← joinUnits [] units
  return String.ofList chars

end JvmClass.ModifiedUtf8
