import JvmClass.ClassModel

namespace JvmClass

/-!
# Classes as events

A class can be handed from one stage to the next as a row of events in the order
of a class file: the header, fields, methods, attributes.  A stage that changes
classes is a function on such rows, so stages can be put behind each other.

The receiver of a class decides for each method whether it takes the body; of a
method that it declines it sees the header only.
-/

/-- What stands in front of the members of a class. -/
structure ClassHeader where
  minor : UInt16
  major : UInt16
  access : UInt16
  name : String
  superName : Option String
  interfaces : List String
  deriving Repr, DecidableEq

/-- What stands in front of the body of a method. -/
structure MethodHeader where
  access : UInt16
  name : String
  descriptor : String
  attributes : List Attribute
  deriving Repr

/--
A part of a method body.  Parts come in this order, except that a stage that
adds a handler sends it with the first instruction that the handler covers.
-/
inductive BodyEvent where
  /-- The declared sizes, and a label from which on labels are free to use. -/
  | code (maxStack maxLocals : UInt16) (freeLabel : Label)
  | handler (handler : Handler)
  | frame (frame : PlacedFrame)
  | node (node : Node)
  | localVariable (entry : LocalVariable)
  | codeAttribute (item : Attribute)
  | hints (hints : FrameHints)
  /-- The sizes once the body is complete. -/
  | maxima (maxStack maxLocals : UInt16)
  deriving Repr

/-- A part of a class. -/
inductive ClassEvent where
  | header (header : ClassHeader)
  | field (field : Field)
  /-- A method, with the parts of its body unless the receiver declines it. -/
  | method (header : MethodHeader) (body : Option (List BodyEvent))
  | classAttribute (item : Attribute)
  deriving Repr

namespace Body

/-- The parts of a body. -/
def events (body : Body) : List BodyEvent :=
  [.code body.maxStack body.maxLocals body.nextLabel]
    ++ body.handlers.map .handler
    ++ body.frames.map .frame
    ++ body.nodes.map .node
    ++ body.locals.map .localVariable
    ++ body.attributes.map .codeAttribute
    ++ body.hints.toList.map .hints
    ++ [.maxima body.maxStack body.maxLocals]

end Body

namespace Method

/-- The header of a method. -/
def header (method : Method) : MethodHeader :=
  ⟨method.access, method.name, method.descriptor, method.attributes⟩

/-- A method as an event.  One without a body has no parts. -/
def event (method : Method) : ClassEvent :=
  .method method.header (some ((method.body.map Body.events).getD []))

end Method

namespace ClassModel

/-- The header of a class. -/
def header (model : ClassModel) : ClassHeader :=
  ⟨model.minor, model.major, model.access, model.name, model.superName, model.interfaces⟩

/-- The parts of a class for a receiver that takes every method. -/
def events (model : ClassModel) : List ClassEvent :=
  .header model.header :: model.fields.map .field ++ model.methods.map Method.event
    ++ model.attributes.map .classAttribute

end ClassModel

namespace ClassEvent

/-- Leaves out the body of a method that the receiver declines. -/
def offer (accepts : MethodHeader → Bool) : ClassEvent → ClassEvent
  | .method front body => .method front (if accepts front then body else none)
  | event => event

end ClassEvent
end JvmClass
