import JvmClass.Event
import JvmClass.Weave.Advice

namespace JvmClass

/-!
# Weaving advice into a body

Weaving inserts a snippet in front of the first node of a body and in front of
each exit, and nothing is taken away or moved: branches, handlers and ranges go
by labels, so what is inserted only shifts positions.  Frames are the exception.
The ones that were declared no longer fit and are passed on as hints for
computing new ones, and the attributes of the body are dropped.
-/

/-- A part of a woven body by where it comes from. -/
inductive WovenPart where
  /-- A part of the body as it was. -/
  | kept (event : BodyEvent)
  /-- The snippet for the start and the slots that were handed out for it. -/
  | entry (reserved : List (Nat × Nat)) (nodes : List Node)
  /-- The snippet in front of an exit. -/
  | exit (opcode : Opcode) (nodes : List Node)
  /-- The handler around the whole body, where its range begins. -/
  | opening (handler : Handler)
  /-- The end of the range of that handler, and the place of the handler. -/
  | closing (handler : Handler)
  /-- The throw at the end of that handler. -/
  | rethrow
  /-- The frames that the body declared. -/
  | declared (hints : FrameHints)
  /-- The sizes, raised by what was inserted. -/
  | sizes (maxStack maxLocals : UInt16)
  deriving Repr

/-- The parts of a body that a part of a woven body stands for. -/
def WovenPart.events : WovenPart → List BodyEvent
  | .kept event => [event]
  | .entry _ nodes => nodes.map .node
  | .exit _ nodes => nodes.map .node
  | .opening handler => [.handler handler, .node (.label handler.start)]
  | .closing handler => [.node (.label handler.stop), .node (.label handler.handler)]
  | .rethrow => [.node (.insn (.plain Opcode.throwReference))]
  | .declared hints => [.hints hints]
  | .sizes maxStack maxLocals => [.maxima maxStack maxLocals]

/-- The operand stack that a snippet may use above what it finds: two longs. -/
def adviceStack : Nat := 4

/-- How many labels a handler around a body needs. -/
def guardLabels : Nat := 3

/-- How far the weaving of a body has come. -/
structure WeaveState (Memory : Type) where
  memory : Memory
  slots : SlotAllocator
  freeLabel : Label
  /-- The number of local variables that the body declares. -/
  maxLocals : UInt16
  /-- The frames that the body declares, the latest first. -/
  frames : List PlacedFrame
  entered : Bool
  /-- The handler around the body while its range is open. -/
  guard : Option Handler
  /-- The first failure. -/
  failure : Option RunError

/-- The parts of a woven body, and the first failure.  With a failure the parts are useless. -/
structure WovenBody where
  parts : List WovenPart
  failure : Option RunError

/-- The events of a woven body. -/
def WovenBody.events (woven : WovenBody) : List BodyEvent :=
  woven.parts.flatMap WovenPart.events

/-- Advice for a method, and where to put it. -/
structure Weaver (Memory : Type) where
  advice : Advice Memory
  detection : ExitDetection
  access : UInt16
  descriptor : String

namespace WeaveState

variable {Memory : Type}

/-- Before the first part of a body. -/
def start (memory : Memory) : WeaveState Memory :=
  ⟨memory, .startingAt 0, 0, 0, [], false, none, none⟩

/-- Notes a failure unless there is one already. -/
def fail (state : WeaveState Memory) (failure : Option RunError) : WeaveState Memory :=
  { state with failure := state.failure.or failure }

end WeaveState

namespace Weaver

variable {Memory : Type}

/-- Takes the sizes of a body and starts to hand out slots above them. -/
def begin (weaver : Weaver Memory) (state : WeaveState Memory) (maxLocals : UInt16)
    (freeLabel : Label) : WeaveState Memory :=
  let state := { state with maxLocals, freeLabel }
  match SlotAllocator.forMethod weaver.access weaver.descriptor maxLocals with
  | .ok slots => { state with slots }
  | .error error => state.fail (some (.ofDescriptor error))

/-- The first label that is free behind a woven body. -/
def labelAfter (weaver : Weaver Memory) (freeLabel : Label) : Label :=
  match weaver.detection with
  | .explicit => freeLabel
  | .guarded => freeLabel + guardLabels

/-- The handler around a body, from its first free label on. -/
def guardAt (freeLabel : Label) : Handler :=
  ⟨freeLabel, freeLabel + 1, freeLabel + 2, none⟩

/-- Inserts the snippet for the start, and opens the range of the handler around the body. -/
def enter (weaver : Weaver Memory) (state : WeaveState Memory) :
    WeaveState Memory × List WovenPart :=
  let (snippet, slots, memory) := weaver.advice.enter state.memory state.slots
  let reserved := slots.reserved.drop state.slots.reserved.length
  let entry := WovenPart.entry reserved snippet.nodes
  let state := { state with memory, slots, entered := true }.fail snippet.failure
  match weaver.detection with
  | .explicit => (state, [entry])
  | .guarded =>
      let guard := guardAt state.freeLabel
      ({ state with guard := some guard }, [entry, .opening guard])

/-- Inserts the snippet for the start unless that was done. -/
def ensureEntered (weaver : Weaver Memory) (state : WeaveState Memory) :
    WeaveState Memory × List WovenPart :=
  if state.entered then (state, []) else weaver.enter state

/-- Inserts the snippet in front of an exit. -/
def exit (weaver : Weaver Memory) (state : WeaveState Memory) (opcode : Opcode) :
    WeaveState Memory × List WovenPart :=
  let snippet := weaver.advice.exit state.memory opcode
  (state.fail snippet.failure, [.exit opcode snippet.nodes])

/-- The failure of an instruction of the body that touches a slot handed out. -/
def slotFailure (state : WeaveState Memory) (insn : Insn) : Option RunError :=
  match insn.access? with
  | none => none
  | some access =>
      match state.slots.checkAccess access with
      | .ok () => none
      | .error conflict => some (.slotConflict conflict)

/-- Passes a node of the body on, behind what has to stand in front of it. -/
def passNode (weaver : Weaver Memory) (state : WeaveState Memory) (node : Node) :
    WeaveState Memory × List WovenPart :=
  let (state, entering) := weaver.ensureEntered state
  match node with
  | .insn insn =>
      let state := state.fail (slotFailure state insn)
      let (state, exiting) :=
        if weaver.detection.isExit insn.opcode then weaver.exit state insn.opcode else (state, [])
      (state, entering ++ exiting ++ [.kept (.node node)])
  | .label _ | .line _ _ => (state, entering ++ [.kept (.node node)])

/-- Ends the range of the handler around the body and puts the handler behind it. -/
def closeGuard (weaver : Weaver Memory) (state : WeaveState Memory) :
    WeaveState Memory × List WovenPart :=
  match state.guard with
  | none => (state, [])
  | some guard =>
      let (state, exiting) := weaver.exit state Opcode.throwReference
      ({ state with guard := none }, [.closing guard] ++ exiting ++ [.rethrow])

/-- Passes the frames that the body declares on as hints. -/
def passFrames (state : WeaveState Memory) : WeaveState Memory × List WovenPart :=
  if state.frames.isEmpty then
    (state, [])
  else
    ({ state with frames := [] }, [.declared ⟨state.maxLocals, state.frames.reverse⟩])

/-- The sizes of a woven body, with room for a snippet and for the slots handed out. -/
def raisedSizes (state : WeaveState Memory) (maxStack maxLocals : UInt16) : WovenPart :=
  let stack := min 0xFFFF (max 1 maxStack.toNat + adviceStack)
  let locals := max maxLocals.toNat state.slots.next
  .sizes (UInt16.ofNat stack) (UInt16.ofNat locals)

/-- Ends the body.  One without a node is entered here. -/
def finish (weaver : Weaver Memory) (state : WeaveState Memory) (maxStack maxLocals : UInt16) :
    WeaveState Memory × List WovenPart :=
  let (state, entering) := weaver.ensureEntered state
  let (state, closing) := weaver.closeGuard state
  let (state, declared) := passFrames state
  (state, entering ++ closing ++ declared ++ [raisedSizes state maxStack maxLocals])

/-- Takes one part of the body. -/
def step (weaver : Weaver Memory) (state : WeaveState Memory) (event : BodyEvent) :
    WeaveState Memory × List WovenPart :=
  match event with
  | .code maxStack maxLocals freeLabel =>
      (weaver.begin state maxLocals freeLabel,
        [.kept (.code maxStack maxLocals (weaver.labelAfter freeLabel))])
  | .handler _ | .localVariable _ => (state, [.kept event])
  | .frame frame => ({ state with frames := frame :: state.frames }, [])
  | .node node => weaver.passNode state node
  | .codeAttribute _ | .hints _ => (state, [])
  | .maxima maxStack maxLocals => weaver.finish state maxStack maxLocals

/-- Takes the parts of a body one by one, behind the woven parts in `done`, the latest first. -/
def weaveFrom (weaver : Weaver Memory) (done : List WovenPart) (state : WeaveState Memory) :
    List BodyEvent → WovenBody
  | [] => ⟨done.reverse, state.failure⟩
  | event :: rest =>
      let (state, parts) := weaver.step state event
      weaver.weaveFrom (parts.reverse ++ done) state rest

/-- Weaves advice into the parts of a body. -/
def weave (weaver : Weaver Memory) (memory : Memory) (events : List BodyEvent) : WovenBody :=
  weaver.weaveFrom [] (.start memory) events

end Weaver
end JvmClass
