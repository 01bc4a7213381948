import JvmClass.Attribute.Reader
import JvmClass.Pool.Codec

namespace JvmClass

/-!
# Class files as laid out

This is the class file with its numbers still unresolved: names, types and
superclasses are pool indices, and method bodies are bytes.
-/

/-- A field or method as laid out. -/
structure MemberInfo where
  access : UInt16
  name : UInt16
  descriptor : UInt16
  attributes : List Attribute
  deriving Repr

/-- A class as laid out. -/
structure ClassFile where
  minor : UInt16
  major : UInt16
  pool : Pool
  access : UInt16
  thisClass : UInt16
  superClass : UInt16
  interfaces : List UInt16
  fields : List MemberInfo
  methods : List MemberInfo
  attributes : List Attribute

/-- The number that every class file starts with. -/
def classMagic : UInt32 := 0xCAFEBABE

/-- The oldest major version that is read. -/
def oldestVersion : UInt16 := 45

/-- The newest major version that is read. -/
def newestVersion : UInt16 := 69

namespace MemberInfo

/-- Reads a field or method. -/
def reader (pool : Pool) (depth : Nat) : Reader MemberInfo := do
  let access ← Reader.u2
  let name ← Reader.u2
  let descriptor ← Reader.u2
  let attributes ← Attribute.tableReader pool depth
  return { access, name, descriptor, attributes }

end MemberInfo

namespace ClassFile

/-- Reads a class file in which bodies nest at most `depth` deep. -/
def reader (depth : Nat) : Reader ClassFile := do
  let magic ← Reader.u4
  if magic ≠ classMagic then
    Reader.fail (.magic magic)
  else
    let minor ← Reader.u2
    let major ← Reader.u2
    if major < oldestVersion ∨ newestVersion < major then
      Reader.fail (.version major)
    else
      let pool ← Pool.reader
      let access ← Reader.u2
      let thisClass ← Reader.u2
      let superClass ← Reader.u2
      let interfaces ← Reader.table16 Reader.u2
      let fields ← Reader.table16 (MemberInfo.reader pool depth)
      let methods ← Reader.table16 (MemberInfo.reader pool depth)
      let attributes ← Attribute.tableReader pool depth
      return {
        minor, major, pool, access, thisClass, superClass, interfaces
        fields, methods, attributes
      }

/-- Reads bytes that hold one class file and nothing else. -/
def ofBytes (bytes : Bytes) : Except ReadError ClassFile := do
  let (classFile, rest) ← reader bytes.length bytes
  if rest.isEmpty then
    return classFile
  else
    .error (.trailingBytes rest.length)

end ClassFile
end JvmClass
