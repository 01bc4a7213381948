import JvmClass.Body
import JvmClass.Pool.Intern

namespace JvmClass

/-!
# Classes in memory

A class with its names resolved and its method bodies decoded.  The pool is kept
because instructions and attributes may still refer to it by number.
-/

/-- A field. -/
structure Field where
  access : UInt16
  name : String
  descriptor : String
  attributes : List Attribute
  deriving Repr

/-- A method.  Abstract and native methods have no body. -/
structure Method where
  access : UInt16
  name : String
  descriptor : String
  body : Option Body
  /-- Attributes other than the body. -/
  attributes : List Attribute
  deriving Repr

/-- A class. -/
structure ClassModel where
  minor : UInt16
  major : UInt16
  access : UInt16
  pool : Pool
  name : String
  superName : Option String
  interfaces : List String
  fields : List Field
  methods : List Method
  attributes : List Attribute

namespace ClassModel

/-- The first field of a name and a descriptor. -/
def field? (model : ClassModel) (name descriptor : String) : Option Field :=
  model.fields.find? fun field => field.name == name && field.descriptor == descriptor

/-- The first method of a name and a descriptor. -/
def method? (model : ClassModel) (name descriptor : String) : Option Method :=
  model.methods.find? fun method => method.name == name && method.descriptor == descriptor

end ClassModel
end JvmClass
