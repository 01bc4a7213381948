import JvmClass.Bytes.Writer
import JvmClass.Error

namespace JvmClass

/-!
# Reading numbers

A reader takes bytes off the front of its input and hands on the rest.  Numbers
are big-endian; reading past the end fails.  Counted tables read their elements
in order and stop at the first failure.
-/

/-- Reads a value off the front of the input. -/
abbrev Reader := StateT Bytes (Except ReadError)

namespace Reader

/-- One byte. -/
def u1 : Reader UInt8
  | [] => .error .endOfInput
  | byte :: rest => .ok (byte, rest)

/-- Two bytes. -/
def u2 : Reader UInt16 := do
  let high ← u1
  let low ← u1
  return high.toUInt16 <<< 8 ||| low.toUInt16

/-- Four bytes. -/
def u4 : Reader UInt32 := do
  let high ← u2
  let low ← u2
  return high.toUInt32 <<< 16 ||| low.toUInt32

/-- Eight bytes. -/
def u8 : Reader UInt64 := do
  let high ← u4
  let low ← u4
  return high.toUInt64 <<< 32 ||| low.toUInt64

/-- Splits `count` bytes off the input, after those in `taken`, which is reversed. -/
def splitFront (taken : Bytes) : Nat → Bytes → Except ReadError (Bytes × Bytes)
  | 0, rest => .ok (taken.reverse, rest)
  | _ + 1, [] => .error .endOfInput
  | count + 1, byte :: rest => splitFront (byte :: taken) count rest

/-- The next `count` bytes. -/
def bytes (count : Nat) : Reader Bytes :=
  fun input => splitFront [] count input

/-- `count` values in a row, after those in `done`, which is reversed. -/
def repeatAfter (item : Reader α) (done : List α) : Nat → Reader (List α)
  | 0 => return done.reverse
  | count + 1 => do
      let value ← item
      repeatAfter item (value :: done) count

/-- `count` values in a row. -/
def times (count : Nat) (item : Reader α) : Reader (List α) :=
  repeatAfter item [] count

/-- A table: the number of elements in two bytes, then each element. -/
def table16 (item : Reader α) : Reader (List α) := do
  let count ← u2
  times count.toNat item

/-- Fails with a reading error. -/
def fail (error : ReadError) : Reader α :=
  fun _ => .error error

end Reader
end JvmClass
