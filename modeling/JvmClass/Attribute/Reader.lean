import JvmClass.Attribute
import JvmClass.Bytes.Reader
import JvmClass.Pool.Intern
import JvmClass.StackMap.Codec

namespace JvmClass

/-!
# Reading attributes

An attribute is a name, a length and that many bytes.  Its name decides how the
bytes are taken apart, and taking them apart has to use up all of them.  Bodies
hold attributes again; how deep they nest is bounded by the caller, who can
always use the length of the input, because each level is shorter than the one
around it.
-/

/-- The longest method body in bytes. -/
def maxCodeLength : Nat := 65535

namespace HandlerEntry

/-- Reads one row of an exception table. -/
def reader : Reader HandlerEntry := do
  let start ← Reader.u2
  let stop ← Reader.u2
  let handler ← Reader.u2
  let catchType ← Reader.u2
  return { start, stop, handler, catchType }

end HandlerEntry

namespace LineEntry

/-- Reads one row of a line number table. -/
def reader : Reader LineEntry := do
  let start ← Reader.u2
  let line ← Reader.u2
  return { start, line }

end LineEntry

namespace LocalEntry

/-- Reads one row of a local variable table. -/
def reader : Reader LocalEntry := do
  let start ← Reader.u2
  let length ← Reader.u2
  let name ← Reader.u2
  let descriptor ← Reader.u2
  let index ← Reader.u2
  return { start, length, name, descriptor, index }

end LocalEntry

namespace InnerClass

/-- Reads one inner class. -/
def reader : Reader InnerClass := do
  let inner ← Reader.u2
  let outer ← Reader.u2
  let name ← Reader.u2
  let access ← Reader.u2
  return { inner, outer, name, access }

end InnerClass

namespace BootstrapMethod

/-- Reads one bootstrap method with its arguments. -/
def reader : Reader BootstrapMethod := do
  let method ← Reader.u2
  let arguments ← Reader.table16 Reader.u2
  return { method, arguments }

end BootstrapMethod

namespace MethodParameter

/-- Reads one method parameter. -/
def reader : Reader MethodParameter := do
  let name ← Reader.u2
  let access ← Reader.u2
  return { name, access }

end MethodParameter

namespace Attribute

/-- Reads a method body, of at least one byte, whose attributes `nested` reads. -/
def codeReader (nested : Reader (List Attribute)) : Reader (CodeAttribute Attribute) := do
  let maxStack ← Reader.u2
  let maxLocals ← Reader.u2
  let length ← Reader.u4
  if maxCodeLength < length.toNat then
    Reader.fail (.tooLarge .methodBody length.toNat maxCodeLength)
  else if length = 0 then
    Reader.fail (.attribute "Code")
  else
    let code ← Reader.bytes length.toNat
    let handlers ← Reader.table16 HandlerEntry.reader
    let attributes ← nested
    return { maxStack, maxLocals, code, handlers, attributes }

/-- How the bytes of an attribute are taken apart, unless its name is not known. -/
def contentReader? (nested : Reader (List Attribute)) : String → Option (Reader Attribute)
  | "Code" => some (.code <$> codeReader nested)
  | "ConstantValue" => some (.constantValue <$> Reader.u2)
  | "Exceptions" => some (.exceptions <$> Reader.table16 Reader.u2)
  | "SourceFile" => some (.sourceFile <$> Reader.u2)
  | "LineNumberTable" => some (.lineNumberTable <$> Reader.table16 LineEntry.reader)
  | "LocalVariableTable" => some (.localVariableTable <$> Reader.table16 LocalEntry.reader)
  | "Signature" => some (.signature <$> Reader.u2)
  | "StackMapTable" => some (.stackMapTable <$> Reader.table16 StackMap.Frame.reader)
  | "Deprecated" => some (return .deprecated)
  | "Synthetic" => some (return .synthetic)
  | "InnerClasses" => some (.innerClasses <$> Reader.table16 InnerClass.reader)
  | "EnclosingMethod" => some do
      let owner ← Reader.u2
      let method ← Reader.u2
      return .enclosingMethod owner method
  | "BootstrapMethods" => some (.bootstrapMethods <$> Reader.table16 BootstrapMethod.reader)
  | "MethodParameters" => some do
      let count ← Reader.u1
      return .methodParameters (← Reader.times count.toNat MethodParameter.reader)
  | _ => none

/-- The attribute of a name whose bytes are `content`. -/
def ofContent (nested : Reader (List Attribute)) (name : String) (content : Bytes) :
    Except ReadError Attribute :=
  match contentReader? nested name with
  | none => .ok (.unknown name content)
  | some reader => do
      let (result, rest) ← reader content
      if rest.isEmpty then .ok result else .error (.attribute name)

/-- Reads an attribute in which bodies nest at most `depth` deep. -/
def reader (pool : Pool) : (depth : Nat) → Reader Attribute
  | 0 => Reader.fail .endOfInput
  | depth + 1 => do
      let nameIndex ← Reader.u2
      let length ← Reader.u4
      let name ← pool.text nameIndex
      let content ← Reader.bytes length.toNat
      ofContent (Reader.table16 (reader pool depth)) name content

/-- Reads a table of attributes in which bodies nest at most `depth` deep. -/
def tableReader (pool : Pool) (depth : Nat) : Reader (List Attribute) :=
  Reader.table16 (reader pool depth)

end Attribute
end JvmClass
