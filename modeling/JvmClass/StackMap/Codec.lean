import JvmClass.Bytes.Reader
import JvmClass.StackMap

namespace JvmClass.StackMap

/-!
# Stack map frames as bytes

A frame starts with a byte that gives its form and, in the short forms, its
distance as well.  Form bytes from 128 to 246 and type tags above 8 are not
defined.
-/

/-- Undefined bytes are reported against the table that holds them. -/
def malformed : ReadError := .attribute "StackMapTable"

namespace TypeInfo

/-- Reads a tag and its operand. -/
def reader : Reader TypeInfo := do
  match ← Reader.u1 with
  | 0 => return .top
  | 1 => return .integer
  | 2 => return .float
  | 3 => return .double
  | 4 => return .long
  | 5 => return .null
  | 6 => return .uninitializedThis
  | 7 => return .object (← Reader.u2)
  | 8 => return .uninitialized (← Reader.u2)
  | _ => Reader.fail malformed

/-- The bytes of a type. -/
def encode : TypeInfo → Bytes
  | .top => [0]
  | .integer => [1]
  | .float => [2]
  | .double => [3]
  | .long => [4]
  | .null => [5]
  | .uninitializedThis => [6]
  | .object index => 7 :: Bytes.ofUInt16 index
  | .uninitialized offset => 8 :: Bytes.ofUInt16 offset

end TypeInfo

namespace Frame

/-- Reads a frame in any of its forms. -/
def reader : Reader Frame := do
  let form ← Reader.u1
  if form ≤ 63 then
    return .same form.toUInt16
  else if form ≤ 127 then
    return .oneStack (form - 64).toUInt16 (← TypeInfo.reader)
  else if form ≤ 246 then
    Reader.fail malformed
  else
    let delta ← Reader.u2
    if form = 247 then
      return .oneStackExtended delta (← TypeInfo.reader)
    else if form ≤ 250 then
      return .chop delta (251 - form)
    else if form = 251 then
      return .sameExtended delta
    else if form ≤ 254 then
      return .append delta (← Reader.times (form - 251).toNat TypeInfo.reader)
    else
      let locals ← Reader.table16 TypeInfo.reader
      let stack ← Reader.table16 TypeInfo.reader
      return .full delta locals stack

/-- The bytes of a frame. -/
def encode : Frame → Bytes
  | .same delta => [delta.toUInt8]
  | .oneStack delta value => (delta.toUInt8 + 64) :: value.encode
  | .oneStackExtended delta value => 247 :: Bytes.ofUInt16 delta ++ value.encode
  | .chop delta count => (251 - count) :: Bytes.ofUInt16 delta
  | .sameExtended delta => 251 :: Bytes.ofUInt16 delta
  | .append delta locals =>
      (251 + UInt8.ofNat locals.length) :: Bytes.ofUInt16 delta
        ++ locals.flatMap TypeInfo.encode
  | .full delta locals stack =>
      255 :: Bytes.ofUInt16 delta ++ Bytes.table16 TypeInfo.encode locals
        ++ Bytes.table16 TypeInfo.encode stack

end Frame
end JvmClass.StackMap
