import JvmClass.Bytes.Reader
import JvmClass.Insn

namespace JvmClass

/-!
# Decoding bytecode

A method body is a row of instructions, each a byte that names the operation
and operands laid out as that byte asks.  Decoding gives every instruction with
its offset.  Where an instruction can transfer control to, its labels are the
offsets of the targets; they lie inside the body, but need not be the offset of
an instruction.
-/

namespace Insn

/-- How many bytes follow the opcode of a switch so that its operands are aligned. -/
def switchPadding (offset : Nat) : Nat :=
  3 - offset % 4

/-- The offset that lies `distance` from `offset`, which has to be inside the body. -/
def targetAt (size offset : Nat) (distance : Int) : Except ReadError Label :=
  let target := (offset : Int) + distance
  if 0 ≤ target ∧ target < size then
    .ok target.toNat
  else
    .error (.branchTarget offset target)

/-- Reads a distance in two bytes. -/
def nearTarget (size offset : Nat) : Reader Label := do
  let distance ← Reader.u2
  targetAt size offset distance.toInt16.toInt

/-- Reads a distance in four bytes. -/
def farTarget (size offset : Nat) : Reader Label := do
  let distance ← Reader.u4
  targetAt size offset distance.toInt32.toInt

/-- Whether an opcode takes a local variable as its operand. -/
def takesSlot (opcode : Opcode) : Bool :=
  opcode.layout? = some .localVariable

/-- Reads the instruction behind `wide`. -/
def wideReader (offset : Nat) : Reader (Insn × Nat) := do
  let inner ← Reader.u1
  if takesSlot inner then
    return (.slot inner (← Reader.u2), 4)
  else if inner = Opcode.iinc then
    let index ← Reader.u2
    let amount ← Reader.u2
    return (.increment inner index amount.toInt16, 6)
  else
    Reader.fail (.undefinedOpcode inner (offset + 1))

/-- Reads the operands of a switch over a range of keys, which must not be empty. -/
def tableSwitchReader (size offset : Nat) (code : Opcode) : Reader (Insn × Nat) := do
  let _ ← Reader.bytes (switchPadding offset)
  let default ← farTarget size offset
  let low := (← Reader.u4).toInt32
  let high := (← Reader.u4).toInt32
  if high < low then
    Reader.fail (.undefinedOpcode code offset)
  else
    let count := (high.toInt - low.toInt + 1).toNat
    let targets ← Reader.times count (farTarget size offset)
    return (.tableSwitch code default low high targets, 13 + switchPadding offset + 4 * count)

/-- Reads a key and where it leads. -/
def lookupPairReader (size offset : Nat) : Reader (Int32 × Label) := do
  let key ← Reader.u4
  let target ← farTarget size offset
  return (key.toInt32, target)

/-- Reads the operands of a switch over single keys, of which there are none or more. -/
def lookupSwitchReader (size offset : Nat) (code : Opcode) : Reader (Insn × Nat) := do
  let _ ← Reader.bytes (switchPadding offset)
  let default ← farTarget size offset
  let count := (← Reader.u4).toInt32
  if count < 0 then
    Reader.fail (.undefinedOpcode code offset)
  else
    let count := count.toInt.toNat
    let pairs ← Reader.times count (lookupPairReader size offset)
    return (.lookupSwitch code default pairs, 9 + switchPadding offset + 8 * count)

/-- Reads the operands of an opcode at an offset, and tells how many bytes the whole takes. -/
def operandReader (size offset : Nat) (code : Opcode) : Reader (Insn × Nat) :=
  match code.layout? with
  | none => Reader.fail (.undefinedOpcode code offset)
  | some .plain => return (.plain code, 1)
  | some .signedByte => return (.immediate code (← Reader.u1).toInt8.toInt32, 2)
  | some .signedShort => return (.immediate code (← Reader.u2).toInt16.toInt32, 3)
  | some .arrayType => return (.immediate code (← Reader.u1).toUInt32.toInt32, 2)
  | some .shortConstant => return (.load code (.index (← Reader.u1).toUInt16), 2)
  | some .longConstant => return (.load code (.index (← Reader.u2)), 3)
  | some .localVariable => return (.slot code (← Reader.u1).toUInt16, 2)
  | some .increment => do
      let index ← Reader.u1
      let amount ← Reader.u1
      return (.increment code index.toUInt16 amount.toInt8.toInt16, 3)
  | some .branch => return (.jump code (← nearTarget size offset), 3)
  | some .wideBranch => return (.jump code (← farTarget size offset), 5)
  | some .tableSwitch => tableSwitchReader size offset code
  | some .lookupSwitch => lookupSwitchReader size offset code
  | some .classRef => return (.classRef code (← Reader.u2), 3)
  | some .fieldRef => return (.field code (.index (← Reader.u2)), 3)
  | some .methodRef => return (.method code (.index (← Reader.u2)), 3)
  | some .interfaceMethodRef => do
      let index ← Reader.u2
      let count ← Reader.u1
      let _ ← Reader.u1
      return (.interfaceMethod code index count, 5)
  | some .callSite => do
      let index ← Reader.u2
      let _ ← Reader.u2
      return (.callSite code index, 5)
  | some .multiArray => do
      let index ← Reader.u2
      let dimensions ← Reader.u1
      return (.multiArray code index dimensions, 4)
  | some .wide => wideReader offset

/-- Reads an instruction at an offset of a body, and tells how many bytes it takes. -/
def reader (size offset : Nat) : Reader (Insn × Nat) := do
  operandReader size offset (← Reader.u1)

/--
The instructions from `offset` on, after those in `done`, which is reversed.
Every instruction takes a byte or more, so as many steps as bytes suffice.
-/
def decodeFrom (size : Nat) (done : List (Nat × Insn)) (offset : Nat) :
    (steps : Nat) → Bytes → Except ReadError (List (Nat × Insn))
  | _, [] => .ok done.reverse
  | 0, _ => .error .endOfInput
  | steps + 1, bytes => do
      let ((insn, width), rest) ← reader size offset bytes
      decodeFrom size ((offset, insn) :: done) (offset + width) steps rest

/-- The instructions of a body with their offsets. -/
def decode (code : Bytes) : Except ReadError (List (Nat × Insn)) :=
  let size := code.length
  decodeFrom size [] 0 size code

end Insn
end JvmClass
