import JvmClass.Event.Receiver

namespace JvmClass

/-!
# Classes from events

Collecting the parts of a class gives the class.  Where a part comes more than
once and there is room for one only, the last one counts.
-/

namespace BodyEvent

/-- The handler of a part. -/
def handler? : BodyEvent → Option Handler
  | .handler part => some part
  | _ => none

/-- The frame of a part. -/
def frame? : BodyEvent → Option PlacedFrame
  | .frame part => some part
  | _ => none

/-- The node of a part. -/
def node? : BodyEvent → Option Node
  | .node part => some part
  | _ => none

/-- The local variable of a part. -/
def localVariable? : BodyEvent → Option LocalVariable
  | .localVariable entry => some entry
  | _ => none

/-- The attribute of a part. -/
def codeAttribute? : BodyEvent → Option Attribute
  | .codeAttribute item => some item
  | _ => none

/-- The declared types of a part. -/
def hints? : BodyEvent → Option FrameHints
  | .hints part => some part
  | _ => none

/-- The sizes of a part: stack, then local variables. -/
def sizes? : BodyEvent → Option (UInt16 × UInt16)
  | .code maxStack maxLocals _ | .maxima maxStack maxLocals => some (maxStack, maxLocals)
  | _ => none

end BodyEvent

namespace Body

/-- The body of some parts, if there are any. -/
def ofEvents? (events : List BodyEvent) : Option Body :=
  if events.isEmpty then
    none
  else
    let (maxStack, maxLocals) := (events.filterMap BodyEvent.sizes?).getLastD (0, 0)
    some {
      maxStack, maxLocals
      nodes := events.filterMap BodyEvent.node?
      handlers := events.filterMap BodyEvent.handler?
      locals := events.filterMap BodyEvent.localVariable?
      frames := events.filterMap BodyEvent.frame?
      hints := (events.filterMap BodyEvent.hints?).getLast?
      attributes := events.filterMap BodyEvent.codeAttribute?
    }

end Body

namespace ClassEvent

/-- The header of a part. -/
def header? : ClassEvent → Option ClassHeader
  | .header front => some front
  | _ => none

/-- The field of a part. -/
def field? : ClassEvent → Option Field
  | .field part => some part
  | _ => none

/-- The method of a part.  One whose body was declined is left out. -/
def method? : ClassEvent → Option Method
  | .method front (some events) =>
      some {
        access := front.access
        name := front.name
        descriptor := front.descriptor
        body := Body.ofEvents? events
        attributes := front.attributes
      }
  | _ => none

/-- The attribute of a part. -/
def classAttribute? : ClassEvent → Option Attribute
  | .classAttribute item => some item
  | _ => none

end ClassEvent

/-- The header of a class that was sent without one. -/
def ClassHeader.blank : ClassHeader :=
  ⟨0, 52, 0, "", none, []⟩

namespace ClassModel

/-- The class of some parts, over the pool that its numbers refer to. -/
def ofEvents (pool : Pool) (events : List ClassEvent) : ClassModel :=
  let header := (events.filterMap ClassEvent.header?).getLastD .blank
  {
    minor := header.minor
    major := header.major
    access := header.access
    pool
    name := header.name
    superName := header.superName
    interfaces := header.interfaces
    fields := events.filterMap ClassEvent.field?
    methods := events.filterMap ClassEvent.method?
    attributes := events.filterMap ClassEvent.classAttribute?
  }

end ClassModel

/-!
## Collecting a class part by part

The collector takes a class as its parts come.  A method is kept aside until it
ends, so one whose end never comes is not in the class.
-/

/-- The class so far, and the method whose body is being sent. -/
structure Collecting where
  model : ClassModel
  method : Option Method

namespace Collecting

/-- Nothing but the pool that the numbers of a class refer to. -/
def start (pool : Pool) : Collecting where
  model := {
    minor := 0
    major := 52
    access := 0
    pool
    name := ""
    superName := none
    interfaces := []
    fields := []
    methods := []
    attributes := []
  }
  method := none

/-- Changes the body of the method that is kept aside, which has one from then on. -/
def inBody (collecting : Collecting) (change : Body → Body) : Collecting :=
  { collecting with
    method := collecting.method.map fun method =>
      { method with body := some (change (method.body.getD .empty)) } }

end Collecting

/-- Collects a class. -/
def collector : Receiver Collecting where
  header collecting front :=
    { collecting with
      model := { collecting.model with
        minor := front.minor
        major := front.major
        access := front.access
        name := front.name
        superName := front.superName
        interfaces := front.interfaces } }
  field collecting item :=
    { collecting with
      model := { collecting.model with fields := collecting.model.fields ++ [item] } }
  method collecting front :=
    ({ collecting with
      method := some {
        access := front.access
        name := front.name
        descriptor := front.descriptor
        body := none
        attributes := front.attributes
      } }, true)
  code collecting maxStack maxLocals _ :=
    collecting.inBody fun body => { body with maxStack, maxLocals }
  handler collecting handler :=
    collecting.inBody fun body => { body with handlers := body.handlers ++ [handler] }
  frame collecting frame :=
    collecting.inBody fun body => { body with frames := body.frames ++ [frame] }
  node collecting node :=
    collecting.inBody fun body => { body with nodes := body.nodes ++ [node] }
  localVariable collecting entry :=
    collecting.inBody fun body => { body with locals := body.locals ++ [entry] }
  codeAttribute collecting item :=
    collecting.inBody fun body => { body with attributes := body.attributes ++ [item] }
  hints collecting hints :=
    collecting.inBody fun body => { body with hints := some hints }
  maxima collecting maxStack maxLocals :=
    collecting.inBody fun body => { body with maxStack, maxLocals }
  methodEnd collecting :=
    { model := { collecting.model with
        methods := collecting.model.methods ++ collecting.method.toList }
      method := none }
  classAttribute collecting item :=
    { collecting with
      model := { collecting.model with attributes := collecting.model.attributes ++ [item] } }
  classEnd collecting := collecting

end JvmClass
