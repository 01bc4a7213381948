namespace JvmClass.Decimal

/-!
# Shortest decimal numerals

A binary floating-point number is shown with the fewest significant digits that
read back to the same number, and among those with the nearest.  Numbers are
taken apart into an integer times a power of two, and everything is compared in
exact integer arithmetic.
-/

/-- The widths of the two fields of a binary floating-point format. -/
structure Format where
  fractionBits : Nat
  exponentBits : Nat
  deriving Repr, DecidableEq

/-- Four bytes: one sign bit, eight exponent bits, twenty-three fraction bits. -/
def Format.single : Format := ⟨23, 8⟩

/-- Eight bytes: one sign bit, eleven exponent bits, fifty-two fraction bits. -/
def Format.double : Format := ⟨52, 11⟩

/-- What a bit pattern stands for. -/
inductive Reading where
  | notANumber
  | infinite (negative : Bool)
  | finite (negative : Bool) (significand : Nat) (exponent : Int)
  deriving Repr, DecidableEq

/-- Takes a bit pattern apart.  A finite number is `significand * 2 ^ exponent`. -/
def Format.read (format : Format) (bits : Nat) : Reading :=
  let fraction := bits % Nat.pow 2 format.fractionBits
  let biased := bits / Nat.pow 2 format.fractionBits % Nat.pow 2 format.exponentBits
  let negative := bits / Nat.pow 2 (format.fractionBits + format.exponentBits) % 2 = 1
  let bias : Int := Nat.pow 2 (format.exponentBits - 1) - 1 + format.fractionBits
  if biased = Nat.pow 2 format.exponentBits - 1 then
    if fraction = 0 then .infinite negative else .notANumber
  else if biased = 0 then
    .finite negative fraction (1 - bias)
  else
    .finite negative (Nat.pow 2 format.fractionBits + fraction) (biased - bias)

/--
Where the numbers that round to `significand * 2 ^ exponent` begin, in quarters
of the last place.  Below a power of two the neighbour is half as far away.
-/
def Format.lowerQuarters (format : Format) (significand : Nat) : Nat :=
  if significand = Nat.pow 2 format.fractionBits then 4 * significand - 1 else 4 * significand - 2

/-- The integer digits and the power of ten of a decimal numeral. -/
structure Numeral where
  digits : Nat
  power : Int
  deriving Repr, DecidableEq

/-- `2 ^ binary / 10 ^ decimal` as a numerator and a denominator. -/
def scale (binary decimal : Int) : Nat × Nat :=
  (Nat.pow 2 binary.toNat * Nat.pow 10 (-decimal).toNat,
    Nat.pow 2 (-binary).toNat * Nat.pow 10 decimal.toNat)

/--
The multiple of `10 ^ power` nearest to a number among those that read back to
it.  A number half-way between two such multiples goes to the larger.
-/
def Format.onGrid? (format : Format) (significand : Nat) (exponent power : Int) :
    Option Numeral :=
  let (up, down) := scale (exponent - 2) power
  let low := format.lowerQuarters significand * up
  let value := 4 * significand * up
  let high := (4 * significand + 2) * up
  let even := significand % 2 = 0
  let inside (candidate : Nat) : Bool :=
    let point := candidate * down
    (low < point && point < high) || (even && (point = low || point = high))
  let below := value / down
  let above := below + 1
  match inside below, inside above with
  | true, true =>
      some ⟨if value - below * down < above * down - value then below else above, power⟩
  | true, false => some ⟨below, power⟩
  | false, true => some ⟨above, power⟩
  | false, false => none

/--
Tries the grids from coarse to fine.  `steps` bounds the search; the grid of the
number's own last binary place always has a hit.
-/
def Format.search (format : Format) (significand : Nat) (exponent : Int) :
    Nat → Int → Numeral
  | 0, power => ⟨0, power⟩
  | steps + 1, power =>
      match format.onGrid? significand exponent power with
      | some numeral => numeral
      | none => format.search significand exponent steps (power - 1)

/-- The shortest numeral of a finite number other than zero. -/
def Format.shortest (format : Format) (significand : Nat) (exponent : Int) : Numeral :=
  let span := Nat.pow 2 format.exponentBits
  format.search significand exponent (2 * span) (span / 6 + 1)

/-- A numeral written with a decimal point where it falls, and never with an exponent. -/
def Numeral.positional (numeral : Numeral) : String :=
  let digits := Nat.toDigits 10 numeral.digits
  if 0 ≤ numeral.power then
    String.ofList (digits ++ List.replicate numeral.power.toNat '0')
  else
    let places := (-numeral.power).toNat
    if places < digits.length then
      String.ofList (digits.take (digits.length - places) ++ '.' :: digits.drop (digits.length - places))
    else
      String.ofList ('0' :: '.' :: List.replicate (places - digits.length) '0' ++ digits)

/-- The sign, and the words for what has no digits. -/
def Format.text (format : Format) (bits : Nat) : String :=
  match format.read bits with
  | .notANumber => "NaN"
  | .infinite negative => if negative then "-inf" else "inf"
  | .finite negative significand exponent =>
      let magnitude :=
        if significand = 0 then "0" else (format.shortest significand exponent).positional
      if negative then "-" ++ magnitude else magnitude

end JvmClass.Decimal
