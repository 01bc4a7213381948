import Std.Data.TreeSet
import JvmClass.Insn.Located
import JvmClass.Queue
import JvmClass.Verify.DepthState

namespace JvmClass

/-!
# Depth along all paths

Every instruction that a path reaches gets one state, which holds for all paths.
An instruction is queued when it gets its state and again whenever its state
loses an assigned local variable, so no more than one entry for each instruction
and each of its local variables is ever queued, and one more for each
instruction itself.
-/

/-- Whether an instruction lies in the range of a handler. -/
def HandlerEntry.covers (entry : HandlerEntry) (offset : UInt16) : Bool :=
  entry.start ≤ offset && offset < entry.stop

/-- How far a depth check has come. -/
structure DepthProgress where
  /-- What is known at each position. -/
  states : Array (Option DepthState)
  queue : Queue Nat
  /-- The offsets that need a frame. -/
  needed : Std.TreeSet UInt16
  /-- What was found, and at which offset, the latest first. -/
  reports : List (UInt16 × Finding)

namespace DepthProgress

/-- Notes a finding at an offset, once. -/
def report (progress : DepthProgress) (offset : UInt16) (finding : Finding) : DepthProgress :=
  if progress.reports.contains (offset, finding) then
    progress
  else
    { progress with reports := (offset, finding) :: progress.reports }

/-- Notes findings at an offset. -/
def reportAll (progress : DepthProgress) (offset : UInt16) (findings : List Finding) :
    DepthProgress :=
  findings.foldl (fun progress finding => progress.report offset finding) progress

/-- Notes that an offset needs a frame. -/
def need (progress : DepthProgress) (offset : UInt16) : DepthProgress :=
  { progress with needed := progress.needed.insert offset }

/-- Gives a position a state and queues it. -/
def revise (progress : DepthProgress) (position : Nat) (state : DepthState) : DepthProgress :=
  { progress with
    states := progress.states.setIfInBounds position (some state)
    queue := progress.queue.push position }

/-- Lets a state reach a target from the instruction at `source`. -/
def flowTo (code : LocatedCode) (source : UInt16) (incoming : DepthState)
    (progress : DepthProgress) (target : UInt16) : DepthProgress :=
  match code.positions[target]? with
  | none => progress.report source (.badBranchTarget target)
  | some position =>
      match progress.states.getD position none with
      | none => progress.revise position incoming
      | some existing =>
          let progress :=
            if existing.depth = incoming.depth then
              progress
            else
              progress.report target
                (.stackHeightMismatch existing.depth incoming.depth source)
          let met := existing.meet incoming
          if met = existing then progress else progress.revise position met

/-- Lets a state reach a target that needs a frame. -/
def jumpTo (code : LocatedCode) (source : UInt16) (incoming : DepthState)
    (progress : DepthProgress) (target : UInt16) : DepthProgress :=
  flowTo code source incoming (progress.need target) target

/-- Lets a state reach the instruction behind a position. -/
def fallThrough (code : LocatedCode) (source : UInt16) (position : Nat) (insn : Insn)
    (incoming : DepthState) (progress : DepthProgress) : DepthProgress :=
  match insn.opcode.endsFlow, code.offsetAfter? position with
  | true, some next => progress.need next
  | true, none => progress
  | false, some next => flowTo code source incoming progress next
  | false, none => progress.report source .fallsOffEnd

/-- Follows every edge from the instruction at a position that has left the queue. -/
def visit (context : DepthContext) (code : LocatedCode) (handlers : List HandlerEntry)
    (progress : DepthProgress) (position : Nat) : DepthProgress :=
  match code.insns[position]?, progress.states.getD position none with
  | some (offset, insn), some before =>
      let caught := (handlers.filter (·.covers offset)).map HandlerEntry.handler
      let progress := caught.foldl (jumpTo code offset ⟨1, before.assigned⟩) progress
      let (behind, findings) := before.step context insn
      let progress := progress.reportAll offset findings
      let progress := (insn.targets.map UInt16.ofNat).foldl (jumpTo code offset behind) progress
      fallThrough code offset position insn behind progress
  | _, _ => progress

/-- Works through queued positions until none is left, at most `steps` of them. -/
def run (context : DepthContext) (code : LocatedCode) (handlers : List HandlerEntry) :
    (steps : Nat) → DepthProgress → DepthProgress
  | 0, progress => progress
  | steps + 1, progress =>
      match progress.queue.pop? with
      | none => progress
      | some (position, queue) =>
          run context code handlers steps (visit context code handlers { progress with queue } position)

/-- As many positions as can ever be queued. -/
def stepBound (insns : List (Nat × Insn)) (maxLocals : UInt16) : Nat :=
  insns.length * (maxLocals.toNat + 1)

/-- Before the first instruction, which waits in a state of its own. -/
def start (insns : List (Nat × Insn)) (entry : DepthState) (findings : List Finding) :
    DepthProgress :=
  let blank := (insns.map fun _ => (none : Option DepthState)).toArray
  let progress : DepthProgress := ⟨blank, .ofList [], ∅, []⟩
  (progress.reportAll 0 findings).revise 0 entry

/-- Whether a path reaches the instruction at an offset. -/
def reaches (progress : DepthProgress) (code : LocatedCode) (offset : UInt16) : Bool :=
  match code.positions[offset]? with
  | some position => (progress.states.getD position none).isSome
  | none => false

/-- Reports the offsets that are reached, need a frame and have none, in ascending order. -/
def reportMissing (progress : DepthProgress) (code : LocatedCode) (declared : Std.TreeSet UInt16) :
    DepthProgress :=
  let missing := progress.needed.toList.filter fun offset =>
    progress.reaches code offset && !declared.contains offset
  missing.foldl (fun progress offset => progress.report offset .missingFrame) progress

end DepthProgress
end JvmClass
