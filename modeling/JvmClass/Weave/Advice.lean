import JvmClass.RunError

namespace JvmClass

/-!
# Advice

Advice is code for the start of a method body and for each of its exits.  A
snippet is stack-neutral: what it pushes it pops again, so the instruction
behind it finds the stack that it always found.
-/

/-- Nodes to insert, and why there are no more of them if building them failed. -/
structure Snippet where
  nodes : List Node
  failure : Option RunError
  deriving Repr, DecidableEq

namespace Snippet

/-- A snippet of instructions. -/
def ofInsns (insns : List Insn) : Snippet :=
  ⟨insns.map .insn, none⟩

/-- A snippet that could not be built. -/
def failed (error : RunError) : Snippet :=
  ⟨[], some error⟩

end Snippet

/-- Code for the start and the exits of a body, over what the exits have to know of the start. -/
structure Advice (Memory : Type) where
  /-- The snippet for the start, the slots behind it and what to know of it. -/
  enter : Memory → SlotAllocator → Snippet × SlotAllocator × Memory
  /-- The snippet in front of the instruction that leaves the method. -/
  exit : Memory → Opcode → Snippet

/-- Which exits of a method get a snippet. -/
inductive ExitDetection where
  /-- Returns and throws that stand in the body. -/
  | explicit
  /--
  Returns, and every exception that leaves the body: it passes through a handler
  behind the body that runs a snippet of its own.
  -/
  | guarded
  deriving Repr, DecidableEq

/-- Whether an instruction gets a snippet in front of it. -/
def ExitDetection.isExit : ExitDetection → Opcode → Bool
  | .explicit, opcode => opcode.isExit
  | .guarded, opcode => opcode.isReturn

end JvmClass
