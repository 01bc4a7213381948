import JvmClass.Weave

namespace JvmClass

/-!
# Advice that remembers its exits

What advice knows of the start is enough for a timer.  Advice that numbers its
exits, or treats the first unlike the others, learns something at each of them.
Exits are asked for one by one in the order in which they stand in the body, and
the throw in the handler around the body comes last.
-/

namespace Weaver

variable {Memory : Type}

/-- What advice knows once it has been asked for the exits among some parts. -/
def recalled (remember : Memory → Opcode → Memory) (memory : Memory) (parts : List WovenPart) :
    Memory :=
  parts.foldl
    (fun memory part =>
      match part with
      | .exit opcode _ => remember memory opcode
      | _ => memory)
    memory

/-- Takes one part of the body, and lets the advice remember the exit that it was asked for. -/
def recallStep (weaver : Weaver Memory) (remember : Memory → Opcode → Memory)
    (state : WeaveState Memory) (event : BodyEvent) : WeaveState Memory × List WovenPart :=
  let (next, parts) := weaver.step state event
  ({ next with memory := recalled remember next.memory parts }, parts)

/-- Takes parts of a body one by one. -/
def recallSteps (weaver : Weaver Memory) (remember : Memory → Opcode → Memory)
    (state : WeaveState Memory) : List BodyEvent → WeaveState Memory × List WovenPart
  | [] => (state, [])
  | event :: rest =>
      let (next, parts) := weaver.recallStep remember state event
      let (last, others) := weaver.recallSteps remember next rest
      (last, parts ++ others)

/-- Weaves advice that remembers its exits into the parts of a body. -/
def weaveRecalling (weaver : Weaver Memory) (remember : Memory → Opcode → Memory) (memory : Memory)
    (events : List BodyEvent) : WovenBody :=
  let (last, parts) := weaver.recallSteps remember (.start memory) events
  ⟨parts, last.failure⟩

end Weaver
end JvmClass
