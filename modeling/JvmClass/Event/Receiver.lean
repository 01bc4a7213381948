import JvmClass.Event

namespace JvmClass

/-!
# Receivers of classes

A receiver says for each kind of part what becomes of what it knows.  Of a method
it is told the header; only if it takes the method are the parts of the body sent,
and behind the last one that the method ends.
-/

/-- What a receiver does with each part of a class, over what it knows so far. -/
structure Receiver (State : Type) where
  header : State → ClassHeader → State
  field : State → Field → State
  /-- Takes the header of a method, and says whether the body is to be sent. -/
  method : State → MethodHeader → State × Bool
  code : State → UInt16 → UInt16 → Label → State
  handler : State → Handler → State
  frame : State → PlacedFrame → State
  node : State → Node → State
  localVariable : State → LocalVariable → State
  codeAttribute : State → Attribute → State
  hints : State → FrameHints → State
  maxima : State → UInt16 → UInt16 → State
  methodEnd : State → State
  classAttribute : State → Attribute → State
  classEnd : State → State

namespace Receiver

variable {State : Type} (receiver : Receiver State)

/-- Sends a part of a body. -/
def takePart (state : State) : BodyEvent → State
  | .code maxStack maxLocals freeLabel => receiver.code state maxStack maxLocals freeLabel
  | .handler handler => receiver.handler state handler
  | .frame frame => receiver.frame state frame
  | .node node => receiver.node state node
  | .localVariable entry => receiver.localVariable state entry
  | .codeAttribute item => receiver.codeAttribute state item
  | .hints hints => receiver.hints state hints
  | .maxima maxStack maxLocals => receiver.maxima state maxStack maxLocals

/-- Sends the body of a method that was taken. -/
def takeBody (state : State) (parts : List BodyEvent) : State :=
  receiver.methodEnd (parts.foldl receiver.takePart state)

/-- Sends a part of a class.  A body that was declined on the way is not sent on. -/
def take (state : State) : ClassEvent → State
  | .header front => receiver.header state front
  | .field item => receiver.field state item
  | .method front body =>
      match receiver.method state front, body with
      | (state, true), some parts => receiver.takeBody state parts
      | (state, _), _ => state
  | .classAttribute item => receiver.classAttribute state item

/-- Sends a class. -/
def replay (state : State) (events : List ClassEvent) : State :=
  receiver.classEnd (events.foldl receiver.take state)

end Receiver

/-! ## Recording -/

/-- What was recorded of a class, the latest first. -/
structure Recording where
  events : List ClassEvent
  /-- What was recorded of the body of the latest method. -/
  parts : List BodyEvent

namespace Recording

/-- Records a part of a class. -/
def add (recording : Recording) (event : ClassEvent) : Recording :=
  { recording with events := event :: recording.events }

/-- Records a part of a body. -/
def addPart (recording : Recording) (part : BodyEvent) : Recording :=
  { recording with parts := part :: recording.parts }

/-- Puts the body that was recorded into the latest method. -/
def endMethod (recording : Recording) : Recording :=
  match recording.events with
  | .method front _ :: earlier => ⟨.method front (some recording.parts.reverse) :: earlier, []⟩
  | _ => recording

end Recording

/-- Records a class, of the methods only the ones that it accepts. -/
def recorder (accepts : MethodHeader → Bool) : Receiver Recording where
  header recording front := recording.add (.header front)
  field recording item := recording.add (.field item)
  method recording front := (⟨.method front none :: recording.events, []⟩, accepts front)
  code recording maxStack maxLocals freeLabel :=
    recording.addPart (.code maxStack maxLocals freeLabel)
  handler recording handler := recording.addPart (.handler handler)
  frame recording frame := recording.addPart (.frame frame)
  node recording node := recording.addPart (.node node)
  localVariable recording entry := recording.addPart (.localVariable entry)
  codeAttribute recording item := recording.addPart (.codeAttribute item)
  hints recording hints := recording.addPart (.hints hints)
  maxima recording maxStack maxLocals := recording.addPart (.maxima maxStack maxLocals)
  methodEnd := Recording.endMethod
  classAttribute recording item := recording.add (.classAttribute item)
  classEnd recording := recording

/-! ## Dropping methods -/

/-- What stands behind a stage that drops methods, and how many methods came. -/
structure Dropping (State : Type) where
  passed : Nat
  next : State

namespace Dropping

variable {State : Type}

/-- Passes a part on. -/
def forward (state : Dropping State) (pass : State → State) : Dropping State :=
  { state with next := pass state.next }

end Dropping

/-- Declines methods, by their position and their header, and passes everything else on. -/
def dropping {State : Type} (drops : Nat → MethodHeader → Bool) (receiver : Receiver State) :
    Receiver (Dropping State) where
  header state front := state.forward fun next => receiver.header next front
  field state item := state.forward fun next => receiver.field next item
  method state front :=
    if drops state.passed front then
      (⟨state.passed + 1, state.next⟩, false)
    else
      let (next, taken) := receiver.method state.next front
      (⟨state.passed + 1, next⟩, taken)
  code state maxStack maxLocals freeLabel :=
    state.forward fun next => receiver.code next maxStack maxLocals freeLabel
  handler state handler := state.forward fun next => receiver.handler next handler
  frame state frame := state.forward fun next => receiver.frame next frame
  node state node := state.forward fun next => receiver.node next node
  localVariable state entry := state.forward fun next => receiver.localVariable next entry
  codeAttribute state item := state.forward fun next => receiver.codeAttribute next item
  hints state hints := state.forward fun next => receiver.hints next hints
  maxima state maxStack maxLocals :=
    state.forward fun next => receiver.maxima next maxStack maxLocals
  methodEnd state := state.forward receiver.methodEnd
  classAttribute state item := state.forward fun next => receiver.classAttribute next item
  classEnd state := state.forward receiver.classEnd

end JvmClass
