import JvmClass.Bytes.Writer
import JvmClass.StackMap

namespace JvmClass

/-!
# Attributes

Classes, fields, methods and method bodies carry named attributes.  The ones
this library knows are taken apart; any other is kept as its bytes.  A method
body is itself an attribute with attributes of its own.
-/

/-- A range of bytecode and where an exception raised in it goes.  A zero catches everything. -/
structure HandlerEntry where
  start : UInt16
  stop : UInt16
  handler : UInt16
  catchType : UInt16
  deriving Repr, DecidableEq

/-- The source line that begins at an offset. -/
structure LineEntry where
  start : UInt16
  line : UInt16
  deriving Repr, DecidableEq

/-- The name and type of a local variable over a range of bytecode. -/
structure LocalEntry where
  start : UInt16
  length : UInt16
  name : UInt16
  descriptor : UInt16
  index : UInt16
  deriving Repr, DecidableEq

/-- A class declared inside another. -/
structure InnerClass where
  inner : UInt16
  outer : UInt16
  name : UInt16
  access : UInt16
  deriving Repr, DecidableEq

/-- A method that makes a constant or call site at run time, with its arguments. -/
structure BootstrapMethod where
  method : UInt16
  arguments : List UInt16
  deriving Repr, DecidableEq

/-- The name and flags of a method parameter. -/
structure MethodParameter where
  name : UInt16
  access : UInt16
  deriving Repr, DecidableEq

/-- A method body with its bytecode still encoded, over the type `α` of its attributes. -/
structure CodeAttribute (α : Type) where
  maxStack : UInt16
  maxLocals : UInt16
  code : Bytes
  handlers : List HandlerEntry
  attributes : List α
  deriving Repr

/-- A named attribute. -/
inductive Attribute where
  | code (body : CodeAttribute Attribute)
  | constantValue (index : UInt16)
  | exceptions (indices : List UInt16)
  | sourceFile (index : UInt16)
  | lineNumberTable (entries : List LineEntry)
  | localVariableTable (entries : List LocalEntry)
  | signature (index : UInt16)
  | stackMapTable (frames : List StackMap.Frame)
  | deprecated
  | synthetic
  | innerClasses (classes : List InnerClass)
  | enclosingMethod (owner method : UInt16)
  | bootstrapMethods (methods : List BootstrapMethod)
  | methodParameters (parameters : List MethodParameter)
  | unknown (name : String) (content : Bytes)
  deriving Repr

/-- The name of an attribute. -/
def Attribute.name : Attribute → String
  | .code _ => "Code"
  | .constantValue _ => "ConstantValue"
  | .exceptions _ => "Exceptions"
  | .sourceFile _ => "SourceFile"
  | .lineNumberTable _ => "LineNumberTable"
  | .localVariableTable _ => "LocalVariableTable"
  | .signature _ => "Signature"
  | .stackMapTable _ => "StackMapTable"
  | .deprecated => "Deprecated"
  | .synthetic => "Synthetic"
  | .innerClasses _ => "InnerClasses"
  | .enclosingMethod _ _ => "EnclosingMethod"
  | .bootstrapMethods _ => "BootstrapMethods"
  | .methodParameters _ => "MethodParameters"
  | .unknown name _ => name

end JvmClass
