import JvmClass.Body.Assemble
import JvmClass.ClassFile
import JvmClass.ClassModel
import JvmClass.Hierarchy.Platform

namespace JvmClass

/-!
# Writing classes

A class is written against a copy of its own pool, to which names are appended
in the order in which they are first needed.  The pool stands in front of
everything that may still add to it, so it is encoded last.
-/

/-- The bytes of an attribute table. -/
def Writing.attributes (attributes : List Attribute) : Writing Bytes :=
  Writing.intern (Attribute.encodeTable attributes)

/-- The bytes of the number of a text. -/
def Writing.text (text : String) : Writing Bytes := do
  let index ← Writing.intern (Pool.internText text)
  return Bytes.ofUInt16 index

/-- The bytes of the number of a class. -/
def Writing.className (name : String) : Writing Bytes := do
  let index ← Writing.intern (Pool.internClass name)
  return Bytes.ofUInt16 index

/-- The bytes of the number of a class that there may be none of. -/
def Writing.classOrNone : Option String → Writing Bytes
  | some name => Writing.className name
  | none => return Bytes.ofUInt16 0

/-- A table: the number of elements in two bytes, then each element. -/
def Writing.table16 (encode : α → Writing Bytes) (elements : List α) : Writing Bytes := do
  let encoded ← elements.mapM encode
  return Bytes.count16 elements ++ encoded.flatten

namespace Field

/-- The bytes of a field. -/
def encode (field : Field) : Writing Bytes := do
  let name ← Writing.text field.name
  let descriptor ← Writing.text field.descriptor
  let attributes ← Writing.attributes field.attributes
  return Bytes.ofUInt16 field.access ++ name ++ descriptor ++ attributes

end Field

namespace Method

/-- The bytes of the body of a method as an attribute. -/
def encodeBody (context : WriteContext) (method : Method) (body : Body) : Writing Bytes := do
  let assembled ← body.assemble context method.access method.name method.descriptor
  let content ← Writing.intern (Attribute.encodeCode assembled)
  let name ← Writing.intern (Pool.internText "Code")
  return Attribute.frame name content

/-- The bytes of a method.  Its body comes first among its attributes. -/
def encode (context : WriteContext) (method : Method) : Writing Bytes := do
  let name ← Writing.text method.name
  let descriptor ← Writing.text method.descriptor
  let body ←
    match method.body with
    | some body => method.encodeBody context body
    | none => pure []
  let attributes ← Writing.intern (Attribute.encodeAll [] method.attributes)
  let count := method.attributes.length + if method.body.isSome then 1 else 0
  return Bytes.ofUInt16 method.access ++ name ++ descriptor
    ++ Bytes.ofUInt16 (UInt16.ofNat count) ++ body ++ attributes

end Method

namespace ClassModel

/-- The platform classes and a class itself. -/
def ownTable (model : ClassModel) : SuperclassTable :=
  SuperclassTable.forClass model.name model.superName model.access

/-- The bytes of a class behind its pool. -/
def encodeContent (model : ClassModel) (context : WriteContext) : Writing Bytes := do
  let thisClass ← Writing.className model.name
  let superClass ← Writing.classOrNone model.superName
  let interfaces ← Writing.table16 Writing.className model.interfaces
  let fields ← Writing.table16 Field.encode model.fields
  let methods ← Writing.table16 (Method.encode context) model.methods
  let attributes ← Writing.attributes model.attributes
  return Bytes.ofUInt16 model.access ++ thisClass ++ superClass ++ interfaces ++ fields
    ++ methods ++ attributes

/--
The bytes of a class.  Where computed frames merge classes, the platform classes
and the class itself are asked first and `hierarchy` after them.
-/
def writeWith (model : ClassModel) (options : WriteOptions) (hierarchy : Hierarchy) :
    Except WriteError Bytes := do
  let context : WriteContext :=
    ⟨model.name, model.major, options, .table model.ownTable :: hierarchy⟩
  let (content, pool) ← model.encodeContent context model.pool
  let pool ← pool.encode
  return Bytes.ofUInt32 classMagic ++ Bytes.ofUInt16 model.minor ++ Bytes.ofUInt16 model.major
    ++ pool ++ content

/-- The bytes of a class, with no other classes to ask. -/
def write (model : ClassModel) (options : WriteOptions) : Except WriteError Bytes :=
  model.writeWith options []

end ClassModel
end JvmClass
