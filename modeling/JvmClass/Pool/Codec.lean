import JvmClass.Bytes.Reader
import JvmClass.Pool.Intern

namespace JvmClass

/-!
# Constant pools as bytes

A pool starts with its number of entries, the unusable ones counted but not
written.  Every other entry is a tag byte and its operands.
-/

namespace Entry

/-- Reads what follows a tag. -/
def operandReader (tag : UInt8) : Reader Entry :=
  match tag with
  | 1 => do
      let length ← Reader.u2
      let bytes ← Reader.bytes length.toNat
      match ModifiedUtf8.decode bytes with
      | .ok text => return .utf8 text
      | .error fault => Reader.fail (.text fault)
  | 3 => return .integer (← Reader.u4).toInt32
  | 4 => return .float (← Reader.u4)
  | 5 => return .long (← Reader.u8).toInt64
  | 6 => return .double (← Reader.u8)
  | 7 => return .classRef (← Reader.u2)
  | 8 => return .string (← Reader.u2)
  | 9 => return .member .field (← Reader.u2) (← Reader.u2)
  | 10 => return .member .method (← Reader.u2) (← Reader.u2)
  | 11 => return .member .interfaceMethod (← Reader.u2) (← Reader.u2)
  | 12 => return .nameAndType (← Reader.u2) (← Reader.u2)
  | 15 => return .methodHandle (← Reader.u1) (← Reader.u2)
  | 16 => return .methodType (← Reader.u2)
  | 17 => return .dynamic (← Reader.u2) (← Reader.u2)
  | 18 => return .invokeDynamic (← Reader.u2) (← Reader.u2)
  | 19 => return .moduleName (← Reader.u2)
  | 20 => return .packageName (← Reader.u2)
  | tag => Reader.fail (.constantTag tag)

/-- Reads a tag and its operands. -/
def reader : Reader Entry := do
  operandReader (← Reader.u1)

/--
Reads entries until there are as many as `count`.  A long or double must not
take a number beyond the last.
-/
def fill (count : Nat) (entries : Array Entry) : Reader (Array Entry) :=
  if entries.size < count then do
    let entry ← reader
    if entry.isWide then
      if entries.size + 1 < count then
        fill count ((entries.push entry).push .unusable)
      else
        Reader.fail (.poolIndex (UInt16.ofNat entries.size))
    else
      fill count (entries.push entry)
  else
    return entries
  termination_by count - entries.size
  decreasing_by all_goals (simp only [Array.size_push]; omega)

/-- Reads the number of entries, which is not zero, and the entries. -/
def tableReader : Reader (Array Entry) := do
  let count ← Reader.u2
  if count = 0 then
    Reader.fail (.poolIndex 0)
  else
    fill count.toNat #[.unusable]

/-- The bytes of an entry.  A text must not take more bytes than its length can say. -/
def encode : Entry → Except WriteError Bytes
  | .unusable => .ok []
  | .utf8 text =>
      let bytes := ModifiedUtf8.encode text
      if bytes.length < 0x10000 then
        .ok (1 :: Bytes.count16 bytes ++ bytes)
      else
        .error (.textTooLong bytes.length)
  | .integer value => .ok (3 :: Bytes.ofUInt32 value.toUInt32)
  | .float bits => .ok (4 :: Bytes.ofUInt32 bits)
  | .long value => .ok (5 :: Bytes.ofUInt64 value.toUInt64)
  | .double bits => .ok (6 :: Bytes.ofUInt64 bits)
  | .classRef name => .ok (7 :: Bytes.ofUInt16 name)
  | .string text => .ok (8 :: Bytes.ofUInt16 text)
  | .member .field owner pair => .ok (9 :: Bytes.ofUInt16 owner ++ Bytes.ofUInt16 pair)
  | .member .method owner pair => .ok (10 :: Bytes.ofUInt16 owner ++ Bytes.ofUInt16 pair)
  | .member .interfaceMethod owner pair =>
      .ok (11 :: Bytes.ofUInt16 owner ++ Bytes.ofUInt16 pair)
  | .nameAndType name descriptor =>
      .ok (12 :: Bytes.ofUInt16 name ++ Bytes.ofUInt16 descriptor)
  | .methodHandle kind target => .ok (15 :: kind :: Bytes.ofUInt16 target)
  | .methodType descriptor => .ok (16 :: Bytes.ofUInt16 descriptor)
  | .dynamic bootstrap pair => .ok (17 :: Bytes.ofUInt16 bootstrap ++ Bytes.ofUInt16 pair)
  | .invokeDynamic bootstrap pair =>
      .ok (18 :: Bytes.ofUInt16 bootstrap ++ Bytes.ofUInt16 pair)
  | .moduleName name => .ok (19 :: Bytes.ofUInt16 name)
  | .packageName name => .ok (20 :: Bytes.ofUInt16 name)

end Entry

namespace Pool

/-- Reads a pool and checks its references. -/
def reader : Reader Pool := do
  let entries ← Entry.tableReader
  Pool.ofEntries entries

/-- The bytes of a pool, whose number of entries has to fit its field. -/
def encode (pool : Pool) : Except WriteError Bytes := do
  if pool.size < 0x10000 then
    let entries ← (pool.entries.toList.drop 1).mapM Entry.encode
    return Bytes.ofUInt16 (UInt16.ofNat pool.size) ++ entries.flatten
  else
    .error (.poolOverflow pool.size)

end Pool
end JvmClass
