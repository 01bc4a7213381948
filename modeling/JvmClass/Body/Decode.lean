import JvmClass.Body
import JvmClass.Body.Labeling
import JvmClass.Insn.Decode
import JvmClass.Pool.Intern

namespace JvmClass

/-!
# Decoding method bodies

A `Code` attribute refers to its instructions by offset, from branches, from the
exception table and from three of its own attributes.  Each reference has to be
the offset of an instruction, or the end of the body where a range ends.
Decoding turns every offset referred to into a label.  Line numbers become
marks behind their label; several tables of one kind are read as one.
-/

/-!
## Pool references of instructions

An instruction that carries a pool index expects an entry of a certain kind
there.  A body is accepted only if all its instructions find what they expect.
-/

namespace Entry

/-- Whether an entry refers to a member of one of some kinds. -/
def isMemberOf (kinds : List MemberKind) : Entry → Bool
  | .member kind _ _ => kinds.contains kind
  | _ => false

/-- Whether an entry is a constant that takes one slot when it is loaded by its index. -/
def isLoadable : Entry → Bool
  | .integer _ | .float _ | .string _ | .classRef _ | .methodType _ | .methodHandle _ _
  | .dynamic _ _ => true
  | _ => false

/-- Whether an entry is a call site computed at run time. -/
def isCallSite : Entry → Bool
  | .invokeDynamic _ _ => true
  | _ => false

end Entry

/-- Checks that an index leads to an entry of which `accepts` holds. -/
def Pool.expect (pool : Pool) (index : UInt16) (accepts : Entry → Bool) :
    Except ReadError Unit := do
  let entry ← pool.entry index
  if accepts entry then .ok () else .error (.poolIndex index)

/-- Checks that an instruction finds what it expects in the pool. -/
def Insn.checkOperand (pool : Pool) : Insn → Except ReadError Unit
  | .field _ (.index index) => pool.expect index (Entry.isMemberOf [.field])
  | .method _ (.index index) => pool.expect index (Entry.isMemberOf [.method, .interfaceMethod])
  | .interfaceMethod _ index _ => pool.expect index (Entry.isMemberOf [.interfaceMethod])
  | .callSite _ index => pool.expect index Entry.isCallSite
  | .classRef _ index | .multiArray _ index _ => do
      let _ ← pool.className index
  | .load opcode (.index index) =>
      pool.expect index (if opcode = Opcode.ldc2W then Entry.isWide else Entry.isLoadable)
  | _ => .ok ()

/-! ## Decoded bodies -/

namespace Body

/-- The instructions of a body and which offsets start one; the end of the body counts. -/
structure Decoded where
  size : Nat
  insns : List (Nat × Insn)
  boundaries : Array Bool

namespace Decoded

/-- Decodes bytecode and notes where instructions start. -/
def ofCode (code : Bytes) : Except ReadError Decoded := do
  let insns ← Insn.decode code
  let size := code.length
  return ⟨size, insns, Labeling.mark size (size :: insns.map Prod.fst)⟩

/-- Whether an offset starts an instruction or ends the body. -/
def isBoundary (decoded : Decoded) (offset : Nat) : Bool :=
  decoded.boundaries.getD offset false

/-- Checks that an offset named in a table starts an instruction or ends the body. -/
def checkBoundary (decoded : Decoded) (table : String) (offset : Nat) : Except ReadError Unit :=
  if decoded.isBoundary offset then .ok () else .error (.attribute table)

/-- Checks that an offset named in a table starts an instruction. -/
def checkStart (decoded : Decoded) (table : String) (offset : Nat) : Except ReadError Unit := do
  decoded.checkBoundary table offset
  if offset < decoded.size then .ok () else .error (.attribute table)

/-- Checks the pool reference and then the targets of an instruction. -/
def checkInsn (decoded : Decoded) (pool : Pool) (located : Nat × Insn) :
    Except ReadError Unit := do
  located.2.checkOperand pool
  located.2.targets.forM fun target =>
    if decoded.isBoundary target then .ok () else .error (.branchTarget located.1 target)

/-- Checks one row of the exception table: a range that is not empty, and a handler. -/
def checkHandler (decoded : Decoded) (entry : HandlerEntry) : Except ReadError Unit := do
  let table := "exception table"
  decoded.checkBoundary table entry.start.toNat
  decoded.checkBoundary table entry.stop.toNat
  decoded.checkBoundary table entry.handler.toNat
  if entry.start < entry.stop ∧ entry.handler.toNat < decoded.size then
    .ok ()
  else
    .error (.attribute table)

/-- Checks the range of a local variable, which may end where the body ends. -/
def checkLocal (decoded : Decoded) (entry : LocalEntry) : Except ReadError Unit := do
  decoded.checkBoundary "LocalVariableTable" entry.start.toNat
  decoded.checkBoundary "LocalVariableTable" (entry.start.toNat + entry.length.toNat)

/--
The offsets of the frames of one table, after those in `done`, which is
reversed.  Each frame lies one more than its distance behind the one before it.
-/
def frameOffsets (decoded : Decoded) (done : List (Nat × StackMap.Frame)) :
    (base : Nat) → List StackMap.Frame → Except ReadError (List (Nat × StackMap.Frame))
  | _, [] => .ok done.reverse
  | base, frame :: rest => do
      let offset := base + frame.delta.toNat
      if offset < decoded.size then
        decoded.checkBoundary "StackMapTable" offset
        frameOffsets decoded ((offset, frame) :: done) (offset + 1) rest
      else
        .error (.attribute "StackMapTable")

end Decoded

/-- What the attributes of a body say about it, at offsets. -/
structure Tables where
  lines : List LineEntry
  locals : List LocalEntry
  frames : List (Nat × StackMap.Frame)
  attributes : List Attribute

namespace Tables

/-- Adds what one attribute says, in front of what is there. -/
def add (decoded : Decoded) (tables : Tables) : Attribute → Except ReadError Tables
  | .lineNumberTable entries => do
      entries.forM fun entry => decoded.checkStart "LineNumberTable" entry.start.toNat
      return { tables with lines := entries.reverse ++ tables.lines }
  | .localVariableTable entries => do
      entries.forM decoded.checkLocal
      return { tables with locals := entries.reverse ++ tables.locals }
  | .stackMapTable frames => do
      let frames ← decoded.frameOffsets [] 0 frames
      return { tables with frames := frames.reverse ++ tables.frames }
  | other => .ok { tables with attributes := other :: tables.attributes }

/-- What a list of attributes says, in order. -/
def ofAttributes (decoded : Decoded) (attributes : List Attribute) :
    Except ReadError Tables := do
  let tables ← attributes.foldlM (add decoded) ⟨[], [], [], []⟩
  return ⟨tables.lines.reverse, tables.locals.reverse, tables.frames.reverse,
    tables.attributes.reverse⟩

/-- The lines that begin at each offset, in order. -/
def linesAt (size : Nat) (entries : List LineEntry) : Array (List UInt16) :=
  entries.reverse.foldl
    (fun lines entry => lines.modify entry.start.toNat (entry.line :: ·))
    (Array.replicate size [])

end Tables

/-- Every offset that a body refers to. -/
def references (decoded : Decoded) (handlers : List HandlerEntry) (tables : Tables) : List Nat :=
  decoded.insns.flatMap (fun located => located.2.targets)
    ++ handlers.flatMap (fun entry =>
        [entry.start.toNat, entry.stop.toNat, entry.handler.toNat])
    ++ tables.lines.map (fun entry => entry.start.toNat)
    ++ tables.locals.flatMap (fun entry =>
        [entry.start.toNat, entry.start.toNat + entry.length.toNat])
    ++ tables.frames.map Prod.fst

/-- A label and its line marks, if the offset carries one. -/
def labelNodes (labeling : Labeling) (lines : Array (List UInt16)) (offset : Nat) : List Node :=
  match labeling.label? offset with
  | some label => .label label :: (lines.getD offset []).map (Node.line · label)
  | none => []

/-- An instruction with its targets as labels, behind the label at its offset. -/
def insnNodes (labeling : Labeling) (lines : Array (List UInt16)) (located : Nat × Insn) :
    List Node :=
  labelNodes labeling lines located.1 ++ [.insn (located.2.mapTargets labeling.labelAt)]

/-- The body as instructions, labels and line marks. -/
def nodesOf (decoded : Decoded) (labeling : Labeling) (lines : Array (List UInt16)) :
    List Node :=
  decoded.insns.flatMap (insnNodes labeling lines) ++ labelNodes labeling lines decoded.size

/-- A row of the exception table with labels and the name of the class caught. -/
def handlerOf (pool : Pool) (labeling : Labeling) (entry : HandlerEntry) :
    Except ReadError Handler := do
  let catchType ← if entry.catchType = 0 then pure none else some <$> pool.className entry.catchType
  return {
    start := labeling.labelAt entry.start.toNat
    stop := labeling.labelAt entry.stop.toNat
    handler := labeling.labelAt entry.handler.toNat
    catchType
  }

/-- A row of a local variable table with labels and names. -/
def localOf (pool : Pool) (labeling : Labeling) (entry : LocalEntry) :
    Except ReadError LocalVariable := do
  let name ← pool.text entry.name
  let descriptor ← pool.text entry.descriptor
  return {
    name, descriptor
    start := labeling.labelAt entry.start.toNat
    stop := labeling.labelAt (entry.start.toNat + entry.length.toNat)
    index := entry.index
  }

/-- Decodes a `Code` attribute. -/
def ofAttribute (pool : Pool) (raw : CodeAttribute Attribute) : Except ReadError Body := do
  let decoded ← Decoded.ofCode raw.code
  decoded.insns.forM (decoded.checkInsn pool)
  raw.handlers.forM decoded.checkHandler
  let tables ← Tables.ofAttributes decoded raw.attributes
  let labeling := Labeling.ofOffsets decoded.size (references decoded raw.handlers tables)
  let handlers ← raw.handlers.mapM (handlerOf pool labeling)
  let locals ← tables.locals.mapM (localOf pool labeling)
  return {
    maxStack := raw.maxStack
    maxLocals := raw.maxLocals
    nodes := nodesOf decoded labeling (Tables.linesAt decoded.size tables.lines)
    handlers, locals
    frames := tables.frames.map fun (offset, frame) => ⟨labeling.labelAt offset, frame⟩
    hints := none
    attributes := tables.attributes
  }

end Body
end JvmClass
