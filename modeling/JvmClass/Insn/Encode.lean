import Std.Data.TreeMap
import JvmClass.Attribute.Reader
import JvmClass.Insn.Decode
import JvmClass.Pool.Intern

namespace JvmClass

/-!
# Encoding instructions

Instructions are laid out before it is known where their targets are.  What is
still missing is a cell that names a label and the offset that the distance is
taken from; linking fills the cells in once all labels have an offset.
-/

/-- A piece of bytecode. -/
inductive Cell where
  | byte (value : UInt8)
  /-- A distance in two bytes. -/
  | near (origin : Nat) (target : Label)
  /-- A distance in four bytes. -/
  | far (origin : Nat) (target : Label)
  deriving Repr, DecidableEq

namespace Cell

/-- How many bytes a cell takes. -/
def width : Cell → Nat
  | .byte _ => 1
  | .near _ _ => 2
  | .far _ _ => 4

/-- How many bytes several cells take. -/
def widths (cells : List Cell) : Nat :=
  cells.foldl (fun total cell => total + cell.width) 0

/-- Bytes as cells. -/
def ofBytes (bytes : Bytes) : List Cell :=
  bytes.map byte

end Cell

/-- The offsets of the labels that were placed.  Of two places of one label the later counts. -/
abbrev PlacedLabels := Std.TreeMap Label UInt16

/-- The offset of a label. -/
def PlacedLabels.offset (labels : PlacedLabels) (label : Label) : Except WriteError UInt16 :=
  match labels[label]? with
  | some offset => .ok offset
  | none => .error (.unplacedLabel label)

namespace Cell

/-- The bytes of a cell.  A near target has to be within reach. -/
def link (labels : PlacedLabels) : Cell → Except WriteError Bytes
  | .byte value => .ok [value]
  | .near origin target => do
      let offset ← labels.offset target
      let distance := (offset.toNat : Int) - origin
      if -0x8000 ≤ distance ∧ distance < 0x8000 then
        return Bytes.ofUInt16 (Int16.ofInt distance).toUInt16
      else
        .error (.branchOutOfRange distance)
  | .far origin target => do
      let offset ← labels.offset target
      return Bytes.ofUInt32 (Int32.ofInt ((offset.toNat : Int) - origin)).toUInt32

end Cell

namespace Insn

/-- The cells of an opcode and bytes behind it. -/
def cellsOf (opcode : Opcode) (operands : Bytes) : List Cell :=
  Cell.ofBytes (opcode :: operands)

/-- The opcode of a load that has to hold an index; an index above 255 takes two bytes. -/
def loadOpcode (opcode : Opcode) (index : UInt16) : Opcode :=
  if opcode = Opcode.ldc2W ∨ opcode = Opcode.ldcW then opcode
  else if index ≤ 255 then Opcode.ldc
  else Opcode.ldcW

/-- The cells of a load from the pool. -/
def encodeLoad (opcode : Opcode) (index : UInt16) : List Cell :=
  let opcode := loadOpcode opcode index
  cellsOf opcode (if opcode = Opcode.ldc then [index.toUInt8] else Bytes.ofUInt16 index)

/-- The cells of an instruction that starts at an offset, with what it names interned. -/
def encode (offset : Nat) : Insn → StateM Pool (List Cell)
  | .plain code => return cellsOf code []
  | .immediate code operand =>
      return cellsOf code <|
        if code = Opcode.sipush then Bytes.ofUInt16 operand.toInt16.toUInt16
        else [operand.toInt8.toUInt8]
  | .slot code index =>
      return if index ≤ 255 then cellsOf code [index.toUInt8]
        else cellsOf Opcode.wide (code :: Bytes.ofUInt16 index)
  | .classRef code index => return cellsOf code (Bytes.ofUInt16 index)
  | .field code (.index index) => return cellsOf code (Bytes.ofUInt16 index)
  | .field code (.named owner name descriptor) => do
      let index ← Pool.internMember .field ⟨owner, name, descriptor⟩
      return cellsOf code (Bytes.ofUInt16 index)
  | .method code (.index index) => return cellsOf code (Bytes.ofUInt16 index)
  | .method code (.named owner name descriptor) => do
      let index ← Pool.internMember .method ⟨owner, name, descriptor⟩
      return cellsOf code (Bytes.ofUInt16 index)
  | .interfaceMethod code index count =>
      return cellsOf code (Bytes.ofUInt16 index ++ [count, 0])
  | .callSite code index => return cellsOf code (Bytes.ofUInt16 index ++ [0, 0])
  | .jump code target =>
      return if code = Opcode.gotoW ∨ code = Opcode.jsrW then [.byte code, .far offset target]
        else [.byte code, .near offset target]
  | .load code (.index index) => return encodeLoad code index
  | .load code (.text value) => do
      let index ← Pool.internString value
      return encodeLoad code index
  | .increment code index amount =>
      return if index ≤ 255 ∧ -128 ≤ amount ∧ amount ≤ 127 then
          cellsOf code [index.toUInt8, amount.toInt8.toUInt8]
        else
          cellsOf Opcode.wide
            (code :: Bytes.ofUInt16 index ++ Bytes.ofUInt16 amount.toUInt16)
  | .tableSwitch code default low high targets =>
      return cellsOf code (List.replicate (switchPadding offset) 0)
        ++ .far offset default :: Cell.ofBytes
            (Bytes.ofUInt32 low.toUInt32 ++ Bytes.ofUInt32 high.toUInt32)
        ++ targets.map (.far offset)
  | .lookupSwitch code default pairs =>
      return cellsOf code (List.replicate (switchPadding offset) 0)
        ++ .far offset default :: Cell.ofBytes (Bytes.ofUInt32 (UInt32.ofNat pairs.length))
        ++ pairs.flatMap fun (key, target) =>
            Cell.ofBytes (Bytes.ofUInt32 key.toUInt32) ++ [.far offset target]
  | .multiArray code index dimensions =>
      return cellsOf code (Bytes.ofUInt16 index ++ [dimensions])

end Insn

/-- A body laid out, with its labels placed. -/
structure LaidOut where
  size : Nat
  /-- The cells of each instruction, the last one first. -/
  cells : List (List Cell)
  labels : PlacedLabels
  /-- The line marks, the last one first. -/
  lines : List (UInt16 × Label)

namespace LaidOut

/-- Nothing laid out yet. -/
def empty : LaidOut :=
  ⟨0, [], ∅, []⟩

/-- Adds an item of a body.  Bytecode has at most 65535 bytes. -/
def add (laidOut : LaidOut) : Node → StateT Pool (Except WriteError) LaidOut
  | .label label =>
      return { laidOut with labels := laidOut.labels.insert label (UInt16.ofNat laidOut.size) }
  | .line number start => return { laidOut with lines := (number, start) :: laidOut.lines }
  | .insn insn => fun pool =>
      let (cells, pool) := insn.encode laidOut.size pool
      let size := laidOut.size + Cell.widths cells
      if maxCodeLength < size then
        .error (.codeTooLarge size)
      else
        .ok ({ laidOut with size, cells := cells :: laidOut.cells }, pool)

/-- Lays out a body. -/
def ofNodes (nodes : List Node) : StateT Pool (Except WriteError) LaidOut :=
  nodes.foldlM add empty

/-- The bytecode of a body, with every distance filled in. -/
def link (laidOut : LaidOut) : Except WriteError Bytes := do
  let linked ← laidOut.cells.reverse.flatten.mapM (Cell.link laidOut.labels)
  return linked.flatten

end LaidOut
end JvmClass
