import JvmClass.Attribute
import JvmClass.Descriptor
import JvmClass.Verify.Defect

namespace JvmClass

/-!
# Stack depth and assigned local variables

The depth check follows how many slots are on the operand stack and which local
variables have been assigned on every path.  It does not tell types apart, and it
counts slots with sixteen bits: a stack of 65536 slots counts as empty.
-/

/-- What the depth check knows before an instruction. -/
structure DepthState where
  depth : UInt16
  /-- For each local variable, whether every path has assigned it. -/
  assigned : List Bool
  deriving Repr, DecidableEq

/-- What the depth check has to know of the method around an instruction. -/
structure DepthContext where
  pool : Pool
  maxStack : UInt16
  result : Option FieldType

/-- The opcode that returns a result of a type. -/
def Opcode.returnFor : Option FieldType → Opcode
  | none => voidReturn
  | some .long => longReturn
  | some .float => floatReturn
  | some .double => doubleReturn
  | some (.object _) | some (.array _) => referenceReturn
  | some _ => intReturn

namespace DepthState

/-- Marks consecutive slots as assigned, all of them or, if some do not exist, none. -/
def assign (state : DepthState) (slot width : Nat) : DepthState × List Finding :=
  let count := state.assigned.length
  if slot + width ≤ count then
    let assigned := state.assigned.take slot ++ List.replicate width true
      ++ state.assigned.drop (slot + width)
    ({ state with assigned }, [])
  else
    (state, [.writeOutOfRange slot width count])

/-- What is wrong with reading consecutive slots. -/
def readFindings (state : DepthState) (opcode : Opcode) (slot width : Nat) : List Finding :=
  let count := state.assigned.length
  if count < slot + width then
    [.readOutOfRange slot count]
  else if ((state.assigned.drop slot).take width).all id then
    []
  else
    [.uninitializedLocal opcode slot]

/-- Consecutive ranges of given widths from a slot on: the first slot and the width of each. -/
def rangesFrom (slot : Nat) : List Nat → List (Nat × Nat)
  | [] => []
  | width :: rest => (slot, width) :: rangesFrom (slot + width) rest

/--
The state on entry, in which the arguments are assigned from slot zero on.  One
that goes beyond the local variables is reported, and so are all behind it.
-/
def onEntry (type : MethodType) (isStatic : Bool) (maxLocals : UInt16) :
    DepthState × List Finding :=
  let count := maxLocals.toNat
  let widths := (if isStatic then [] else [1]) ++ type.params.map FieldType.size
  let (inside, outside) := (rangesFrom 0 widths).span fun (slot, width) => slot + width ≤ count
  let assigned := (inside.map Prod.snd).foldr (· + ·) 0
  (⟨0, List.replicate assigned true ++ List.replicate (count - assigned) false⟩,
    outside.map fun (slot, width) => .writeOutOfRange slot width count)

/-- The local variable that an instruction touches; `iinc` reads and writes. -/
def touchLocal (state : DepthState) (insn : Insn) : DepthState × List Finding :=
  match insn.access? with
  | none => (state, [])
  | some access =>
      let slot := access.index.toNat
      let read :=
        if !access.isStore || insn.opcode = Opcode.iinc then
          state.readFindings insn.opcode slot access.width
        else
          []
      if access.isStore then
        let (state, written) := state.assign slot access.width
        (state, read ++ written)
      else
        (state, read)

/-- Whether a return fits the result of the method. -/
def returnFindings (context : DepthContext) (insn : Insn) : List Finding :=
  if insn.opcode.isReturn && insn.opcode ≠ Opcode.returnFor context.result then
    [.returnMismatch insn.opcode ((context.result.map FieldType.descriptor).getD "V")]
  else
    []

/--
What an instruction takes off the stack and puts on it.  A stack that is too
short counts as empty, and a stack that is too deep is reported only where it
becomes so.
-/
def moveStack (context : DepthContext) (state : DepthState) (insn : Insn) :
    DepthState × List Finding :=
  match insn.effect context.pool with
  | .error fault => (state, [.unsupported fault])
  | .ok effect =>
      let underflow :=
        if state.depth < effect.pops then
          [.stackUnderflow insn.opcode effect.pops state.depth]
        else
          []
      let depth :=
        (if state.depth < effect.pops then 0 else state.depth - effect.pops) + effect.pushes
      let overflow :=
        if context.maxStack < depth && state.depth ≤ context.maxStack then
          [.stackOverflow depth context.maxStack]
        else
          []
      ({ state with depth }, underflow ++ overflow)

/-- The state behind an instruction and what is wrong with the instruction. -/
def step (context : DepthContext) (before : DepthState) (insn : Insn) :
    DepthState × List Finding :=
  let (touched, localFindings) := before.touchLocal insn
  let (behind, stackFindings) := moveStack context touched insn
  (behind, localFindings ++ returnFindings context insn ++ stackFindings)

/-- The state where paths meet; the depth of the first one stays. -/
def meet (existing incoming : DepthState) : DepthState :=
  { existing with assigned := List.zipWith and existing.assigned incoming.assigned }

end DepthState
end JvmClass
