namespace JvmClass

/-!
# Writing numbers

Class files hold every number in big-endian order.
-/

/-- A sequence of bytes. -/
abbrev Bytes := List UInt8

namespace Bytes

/-- A 16-bit number in two bytes. -/
def ofUInt16 (value : UInt16) : Bytes :=
  [(value >>> 8).toUInt8, value.toUInt8]

/-- A 32-bit number in four bytes. -/
def ofUInt32 (value : UInt32) : Bytes :=
  [(value >>> 24).toUInt8, (value >>> 16).toUInt8, (value >>> 8).toUInt8, value.toUInt8]

/-- A 64-bit number in eight bytes. -/
def ofUInt64 (value : UInt64) : Bytes :=
  ofUInt32 (value >>> 32).toUInt32 ++ ofUInt32 value.toUInt32

/-- The number of elements in two bytes.  A larger number loses its upper bits. -/
def count16 (elements : List α) : Bytes :=
  ofUInt16 (UInt16.ofNat elements.length)

/-- The number of bytes in four bytes. -/
def count32 (bytes : Bytes) : Bytes :=
  ofUInt32 (UInt32.ofNat bytes.length)

/-- A table: the number of elements in two bytes, then each element. -/
def table16 (encode : α → Bytes) (elements : List α) : Bytes :=
  count16 elements ++ elements.flatMap encode

end Bytes
end JvmClass
