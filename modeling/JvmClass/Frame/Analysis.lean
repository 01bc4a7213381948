import Std.Data.TreeSet
import Std.Data.TreeMap
import JvmClass.Frame.Merge
import JvmClass.Frame.Step
import JvmClass.Insn.Decode
import JvmClass.Insn.Located
import JvmClass.Queue

namespace JvmClass

/-!
# Type analysis of method bodies

Every instruction gets a state that covers the states of all paths that reach
it.  Instructions whose state has changed wait in a queue, each at most once;
an instruction that leaves the queue is stepped through, and what it gives is
absorbed by its successors and by the handlers that cover it.  Every instruction
has to be reached in the end.

A frame is needed at each target of a branch, at each handler, and behind each
instruction that control does not fall through.

Offsets have sixteen bits and wrap in a body that is longer.  Of the
instructions at one offset the last one is meant; control that falls through an
instruction is no exception, but a body is entered at its first instruction.
-/

/-- A range of offsets and where an exception raised in it goes. -/
structure HandlerRange where
  start : UInt16
  stop : UInt16
  handler : UInt16
  /-- The class of the exceptions caught; everything is caught if absent. -/
  catchType : Option String
  deriving Repr, DecidableEq

/-- Whether an instruction lies in the range of a handler. -/
def HandlerRange.covers (range : HandlerRange) (offset : UInt16) : Bool :=
  range.start ≤ offset && offset < range.stop

/-- The type of the exception that a handler finds on the stack. -/
def HandlerRange.caught (range : HandlerRange) : SlotType :=
  .object (range.catchType.getD throwableName)

/-- How far an analysis has come. -/
structure FlowProgress where
  /-- What is known at each position. -/
  states : Array (Option FrameState)
  queue : Queue Nat
  /-- Which positions are in the queue. -/
  waiting : Array Bool
  maxStack : Nat

namespace FlowProgress

/-- Puts a position into the queue unless it waits there already. -/
def enqueue (progress : FlowProgress) (position : Nat) : FlowProgress :=
  if progress.waiting.getD position false then
    progress
  else
    { progress with
      queue := progress.queue.push position
      waiting := progress.waiting.setIfInBounds position true }

/--
Lets the instruction at a position, which is meant by an offset, absorb a state,
and queues it if its own has changed.
-/
def reach (rules : TypeRules) (progress : FlowProgress) (position : Nat) (offset : UInt16)
    (incoming : FrameState) : Except WriteError FlowProgress := do
  let existing := progress.states.getD position none
  let merged ← FrameState.absorb rules offset existing incoming
  if existing.any (FrameState.sameAs merged) then
    return progress
  else
    let states := progress.states.setIfInBounds position (some merged)
    return enqueue { progress with states } position

/-- Lets the instruction at an offset absorb a state. -/
def flowTo (code : LocatedCode) (rules : TypeRules) (progress : FlowProgress)
    (offset : UInt16) (incoming : FrameState) : Except WriteError FlowProgress :=
  match code.positions[offset]? with
  | none => .error (.analysis (.noInstruction offset))
  | some position => reach rules progress position offset incoming

/-- Takes note of the height of a stack. -/
def noteStack (progress : FlowProgress) (state : FrameState) : FlowProgress :=
  { progress with maxStack := max progress.maxStack (SlotType.stackSlots state.stack) }

/-- Lets a handler absorb the locals before and behind an instruction that it covers. -/
def flowToHandler (code : LocatedCode) (rules : TypeRules) (before behind : FrameState)
    (progress : FlowProgress) (range : HandlerRange) : Except WriteError FlowProgress := do
  let stack := [range.caught]
  let progress := { progress with maxStack := max progress.maxStack 1 }
  let progress ← flowTo code rules progress range.handler ⟨before.locals, stack⟩
  flowTo code rules progress range.handler ⟨behind.locals, stack⟩

/-- The offsets that control can go to behind the instruction at a position. -/
def successors (code : LocatedCode) (position : Nat) (offset : UInt16) (insn : Insn) :
    Except WriteError (List UInt16) :=
  let targets := insn.targets.map UInt16.ofNat
  if insn.opcode.endsFlow then
    .ok targets
  else
    match code.offsetAfter? position with
    | some next => .ok (targets ++ [next])
    | none => .error (.inconsistentFrame offset .fallsOffEnd)

/-- Steps through the instruction at a position that has left the queue. -/
def visit (context : StepContext) (rules : TypeRules) (code : LocatedCode)
    (handlers : List HandlerRange) (progress : FlowProgress) (position : Nat) :
    Except WriteError FlowProgress := do
  match code.insns[position]? with
  | none => return progress
  | some (offset, insn) =>
      match progress.states.getD position none with
      | none => .error (.analysis (.missingState offset))
      | some before =>
          let progress := progress.noteStack before
          let behind ← insn.step context offset before
          let progress := progress.noteStack behind
          let successors ← successors code position offset insn
          let progress ← successors.foldlM
            (fun progress successor => flowTo code rules progress successor behind) progress
          (handlers.filter (·.covers offset)).foldlM
            (flowToHandler code rules before behind) progress

/-- Steps through queued instructions until none is left, at most `steps` of them. -/
def run (context : StepContext) (rules : TypeRules) (code : LocatedCode)
    (handlers : List HandlerRange) : (steps : Nat) → FlowProgress → Except WriteError FlowProgress
  | 0, progress =>
      match progress.queue.pop? with
      | none => .ok progress
      | some _ => .error (.analysis .iterationLimit)
  | steps + 1, progress =>
      match progress.queue.pop? with
      | none => .ok progress
      | some (position, queue) => do
          let waiting := progress.waiting.setIfInBounds position false
          let progress ←
            visit context rules code handlers { progress with queue, waiting } position
          run context rules code handlers steps progress

end FlowProgress

/-- How many instructions an analysis steps through before it gives up. -/
def analysisLimit : Nat := 100000

/-- What the analysis of a body gives. -/
structure FrameAnalysis where
  maxStack : UInt16
  maxLocals : UInt16
  /-- The state on entry, without the local variables of the body. -/
  initial : FrameState
  /-- The state before each instruction, in their order, and its offset. -/
  states : List (UInt16 × FrameState)
  /-- The states that need a frame, by offset. -/
  frames : Std.TreeMap UInt16 FrameState

namespace FrameAnalysis

/-- The number of local variables that a body needs, `atLeast` or more. -/
def localsNeeded (atLeast : Nat) (insns : List (Nat × Insn)) : Nat :=
  insns.foldl
    (fun needed (_, insn) =>
      match insn.access? with
      | some access => max needed (access.index.toNat + access.width)
      | none => needed)
    atLeast

/-- Every offset that needs a frame if there is an instruction at it. -/
def frameOffsets (insns : List (Nat × Insn)) (handlers : List HandlerRange) :
    Std.TreeSet UInt16 :=
  let targets := insns.flatMap fun (_, insn) => insn.targets.map UInt16.ofNat
  let behindEnds := (insns.zip (insns.drop 1)).filterMap fun ((_, insn), (next, _)) =>
    if insn.opcode.endsFlow then some (UInt16.ofNat next) else none
  Std.TreeSet.ofList (targets ++ behindEnds ++ handlers.map HandlerRange.handler)

/-- Pairs every instruction with its state; one without a state is not reachable. -/
def collectStates (insns : List (UInt16 × Insn)) (states : List (Option FrameState)) :
    Except WriteError (List (UInt16 × FrameState)) :=
  (insns.zip states).mapM fun ((offset, _), state) =>
    match state with
    | some state => .ok (offset, state)
    | none => .error (.inconsistentFrame offset .unreachable)

/-- Analyses a body that has at least one instruction. -/
def solve (method : MethodContext) (insns : List (Nat × Insn)) (initial : FrameState)
    (handlers : List HandlerRange) (pool : Pool) (rules : TypeRules) :
    Except WriteError FrameAnalysis := do
  let code := LocatedCode.ofInsns insns
  let needed := localsNeeded (max method.maxLocals.toNat initial.locals.length) insns
  if 0x10000 ≤ needed then
    .error (.analysis .tooManyLocals)
  else
    let entry : FrameState := ⟨SlotType.padTo needed initial.locals, []⟩
    let blank := insns.map fun _ => (none : Option FrameState)
    let entered ← FlowProgress.reach rules
      ⟨blank.toArray, .ofList [], (blank.map fun _ => false).toArray, 0⟩ 0 0 entry
    let context : StepContext := ⟨method, pool, rules.emitFrames⟩
    let solved ← entered.run context rules code handlers analysisLimit
    let states ← collectStates code.insns.toList solved.states.toList
    let offsets := frameOffsets insns handlers
    if 0x10000 ≤ solved.maxStack then
      .error (.analysis .stackTooDeep)
    else
      return {
        maxStack := UInt16.ofNat solved.maxStack
        maxLocals := UInt16.ofNat needed
        initial, states
        frames := .ofList (states.filter fun (offset, _) => offsets.contains offset)
      }

/-- Analyses bytecode. -/
def ofCode (method : MethodContext) (code : Bytes) (handlers : List HandlerRange) (pool : Pool)
    (rules : TypeRules) : Except WriteError FrameAnalysis := do
  let insns ← (Insn.decode code).mapError WriteError.ofRead
  let initial ← (FrameState.initial method).mapError WriteError.ofDescriptor
  if insns.isEmpty then
    return {
      maxStack := 0
      maxLocals := max method.maxLocals (UInt16.ofNat initial.locals.length)
      initial
      states := []
      frames := ∅
    }
  else
    solve method insns initial handlers pool rules

end FrameAnalysis
end JvmClass
