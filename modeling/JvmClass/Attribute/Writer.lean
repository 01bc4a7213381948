import JvmClass.Attribute
import JvmClass.Pool.Intern
import JvmClass.StackMap.Codec

namespace JvmClass

/-!
# Writing attributes

An attribute is written as its name, its length and its bytes.  The name is
interned before anything inside the attribute is.
-/

/-- The bytes of one row of an exception table. -/
def HandlerEntry.encode (entry : HandlerEntry) : Bytes :=
  Bytes.ofUInt16 entry.start ++ Bytes.ofUInt16 entry.stop ++ Bytes.ofUInt16 entry.handler
    ++ Bytes.ofUInt16 entry.catchType

/-- The bytes of one row of a line number table. -/
def LineEntry.encode (entry : LineEntry) : Bytes :=
  Bytes.ofUInt16 entry.start ++ Bytes.ofUInt16 entry.line

/-- The bytes of one row of a local variable table. -/
def LocalEntry.encode (entry : LocalEntry) : Bytes :=
  Bytes.ofUInt16 entry.start ++ Bytes.ofUInt16 entry.length ++ Bytes.ofUInt16 entry.name
    ++ Bytes.ofUInt16 entry.descriptor ++ Bytes.ofUInt16 entry.index

/-- The bytes of one inner class. -/
def InnerClass.encode (entry : InnerClass) : Bytes :=
  Bytes.ofUInt16 entry.inner ++ Bytes.ofUInt16 entry.outer ++ Bytes.ofUInt16 entry.name
    ++ Bytes.ofUInt16 entry.access

/-- The bytes of one bootstrap method with its arguments. -/
def BootstrapMethod.encode (entry : BootstrapMethod) : Bytes :=
  Bytes.ofUInt16 entry.method ++ Bytes.table16 Bytes.ofUInt16 entry.arguments

/-- The bytes of one method parameter. -/
def MethodParameter.encode (entry : MethodParameter) : Bytes :=
  Bytes.ofUInt16 entry.name ++ Bytes.ofUInt16 entry.access

namespace Attribute

/-- A name and a length in front of the bytes of an attribute. -/
def frame (name : UInt16) (content : Bytes) : Bytes :=
  Bytes.ofUInt16 name ++ Bytes.count32 content ++ content

/-- The bytes of a method body before the table of its attributes. -/
def codeHead (body : CodeAttribute Attribute) : Bytes :=
  Bytes.ofUInt16 body.maxStack ++ Bytes.ofUInt16 body.maxLocals
    ++ Bytes.count32 body.code ++ body.code
    ++ Bytes.table16 HandlerEntry.encode body.handlers

/-- The bytes of an attribute that holds no other. -/
def flatContent : Attribute → Bytes
  | .code body => codeHead body
  | .constantValue index | .sourceFile index | .signature index => Bytes.ofUInt16 index
  | .exceptions indices => Bytes.table16 Bytes.ofUInt16 indices
  | .lineNumberTable entries => Bytes.table16 LineEntry.encode entries
  | .localVariableTable entries => Bytes.table16 LocalEntry.encode entries
  | .stackMapTable frames => Bytes.table16 StackMap.Frame.encode frames
  | .deprecated | .synthetic => []
  | .innerClasses classes => Bytes.table16 InnerClass.encode classes
  | .enclosingMethod owner method => Bytes.ofUInt16 owner ++ Bytes.ofUInt16 method
  | .bootstrapMethods methods => Bytes.table16 BootstrapMethod.encode methods
  | .methodParameters parameters =>
      UInt8.ofNat parameters.length :: parameters.flatMap MethodParameter.encode
  | .unknown _ content => content

mutual

/-- The bytes of an attribute, with the names it needs interned. -/
def encode : Attribute → StateM Pool Bytes
  | .code ⟨maxStack, maxLocals, bytes, handlers, attributes⟩ => do
      let name ← Pool.internText "Code"
      let nested ← encodeAll [] attributes
      return frame name
        (codeHead ⟨maxStack, maxLocals, bytes, handlers, attributes⟩
          ++ Bytes.count16 attributes ++ nested)
  | other => do
      let name ← Pool.internText other.name
      return frame name other.flatContent

/-- The bytes of several attributes in a row, after those in `done`, which is reversed. -/
def encodeAll (done : List Bytes) : List Attribute → StateM Pool Bytes
  | [] => return done.reverse.flatten
  | first :: rest => do
      let bytes ← encode first
      encodeAll (bytes :: done) rest

end

/-- The bytes of a table of attributes. -/
def encodeTable (attributes : List Attribute) : StateM Pool Bytes := do
  let bytes ← encodeAll [] attributes
  return Bytes.count16 attributes ++ bytes

/-- The content of a `Code` attribute, with the names it needs interned. -/
def encodeCode (body : CodeAttribute Attribute) : StateM Pool Bytes := do
  let nested ← encodeTable body.attributes
  return codeHead body ++ nested

end Attribute
end JvmClass
