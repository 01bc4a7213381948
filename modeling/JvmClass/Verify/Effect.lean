import JvmClass.Error
import JvmClass.Insn
import JvmClass.Pool.Intern

namespace JvmClass

/-!
# Stack effects

How many operand stack slots an instruction takes off and how many it puts on,
with a long or double counting as two.  Subroutines have no effect that could be
told from the instruction alone.
-/

/-- Slots taken off and slots put on, counted with sixteen bits. -/
structure StackEffect where
  pops : UInt16
  pushes : UInt16
  deriving Repr, DecidableEq

/-- Why an instruction has no known effect. -/
inductive EffectFault where
  | unexpectedOpcode (opcode : Opcode)
  | subroutine
  | unresolvedField
  | unresolvedMethod
  | wideConstant
  | reference (error : ReadError)
  | descriptor (error : InvalidDescriptor)
  deriving Repr, DecidableEq

/-- The wording of each fault. -/
def EffectFault.message : EffectFault → String
  | .unexpectedOpcode opcode => s!"unexpected opcode {opcode.mnemonic}"
  | .subroutine => "subroutines are not supported"
  | .unresolvedField => "unresolved field reference"
  | .unresolvedMethod => "unresolved method reference"
  | .wideConstant => "ldc of a two-slot constant"
  | .reference error => error.message
  | .descriptor error => error.message

namespace Opcode

/-- The effects of opcodes without operands, each with the ranges of the opcodes that have it. -/
def plainEffects : List (StackEffect × List (Opcode × Opcode)) :=
  [ (⟨0, 0⟩, [(0x00, 0x00), (0xB1, 0xB1)]),
    -- constants and loads
    (⟨0, 1⟩, [(0x01, 0x08), (0x0B, 0x0D), (0x1A, 0x1D), (0x22, 0x25), (0x2A, 0x2D)]),
    (⟨0, 2⟩, [(0x09, 0x0A), (0x0E, 0x0F), (0x1E, 0x21), (0x26, 0x29)]),
    (⟨2, 1⟩, [(0x2E, 0x2E), (0x30, 0x30), (0x32, 0x35)]),
    (⟨2, 2⟩, [(0x2F, 0x2F), (0x31, 0x31)]),
    -- stores
    (⟨1, 0⟩, [(0x3B, 0x3E), (0x43, 0x46), (0x4B, 0x4E)]),
    (⟨2, 0⟩, [(0x3F, 0x42), (0x47, 0x4A)]),
    (⟨3, 0⟩, [(0x4F, 0x4F), (0x51, 0x51), (0x53, 0x56)]),
    (⟨4, 0⟩, [(0x50, 0x50), (0x52, 0x52)]),
    -- from `pop` to `swap`
    (⟨1, 0⟩, [(0x57, 0x57)]),
    (⟨2, 0⟩, [(0x58, 0x58)]),
    (⟨1, 2⟩, [(0x59, 0x59)]),
    (⟨2, 3⟩, [(0x5A, 0x5A)]),
    (⟨3, 4⟩, [(0x5B, 0x5B)]),
    (⟨2, 4⟩, [(0x5C, 0x5C)]),
    (⟨3, 5⟩, [(0x5D, 0x5D)]),
    (⟨4, 6⟩, [(0x5E, 0x5E)]),
    (⟨2, 2⟩, [(0x5F, 0x5F)]),
    -- arithmetic on `int` and `float`, then on `long` and `double`
    (⟨2, 1⟩,
      [ (0x60, 0x60), (0x62, 0x62), (0x64, 0x64), (0x66, 0x66), (0x68, 0x68), (0x6A, 0x6A),
        (0x6C, 0x6C), (0x6E, 0x6E), (0x70, 0x70), (0x72, 0x72), (0x78, 0x78), (0x7A, 0x7A),
        (0x7C, 0x7C), (0x7E, 0x7E), (0x80, 0x80), (0x82, 0x82) ]),
    (⟨4, 2⟩,
      [ (0x61, 0x61), (0x63, 0x63), (0x65, 0x65), (0x67, 0x67), (0x69, 0x69), (0x6B, 0x6B),
        (0x6D, 0x6D), (0x6F, 0x6F), (0x71, 0x71), (0x73, 0x73), (0x7F, 0x7F), (0x81, 0x81),
        (0x83, 0x83) ]),
    (⟨3, 2⟩, [(0x79, 0x79), (0x7B, 0x7B), (0x7D, 0x7D)]),
    (⟨1, 1⟩, [(0x74, 0x74), (0x76, 0x76)]),
    (⟨2, 2⟩, [(0x75, 0x75), (0x77, 0x77)]),
    -- conversions and comparisons
    (⟨1, 1⟩, [(0x86, 0x86), (0x8B, 0x8B), (0x91, 0x93)]),
    (⟨1, 2⟩, [(0x85, 0x85), (0x87, 0x87), (0x8C, 0x8D)]),
    (⟨2, 1⟩, [(0x88, 0x89), (0x8E, 0x8E), (0x90, 0x90)]),
    (⟨2, 2⟩, [(0x8A, 0x8A), (0x8F, 0x8F)]),
    (⟨4, 1⟩, [(0x94, 0x94), (0x97, 0x98)]),
    (⟨2, 1⟩, [(0x95, 0x96)]),
    -- ends of methods, arrays and monitors
    (⟨1, 0⟩, [(0xAC, 0xAC), (0xAE, 0xAE), (0xB0, 0xB0)]),
    (⟨2, 0⟩, [(0xAD, 0xAD), (0xAF, 0xAF)]),
    (⟨1, 1⟩, [(0xBE, 0xBE)]),
    (⟨1, 0⟩, [(0xBF, 0xBF), (0xC2, 0xC3)]) ]

/-- The effect of an opcode without operands. -/
def plainEffect? (code : Opcode) : Option StackEffect :=
  let row := plainEffects.find? fun (_, ranges) =>
    ranges.any fun (first, last) => first ≤ code && code ≤ last
  row.map Prod.fst

/-- The effect of an opcode that takes a local variable. -/
def slotEffect? (code : Opcode) : Option StackEffect :=
  if code = iload ∨ code = fload ∨ code = aload then some ⟨0, 1⟩
  else if code = lload ∨ code = dload then some ⟨0, 2⟩
  else if code = istore ∨ code = fstore ∨ code = astore then some ⟨1, 0⟩
  else if code = lstore ∨ code = dstore then some ⟨2, 0⟩
  else none

end Opcode

namespace Insn

/-- The effect of a call through a descriptor with some slots for the receiver. -/
def callEffect (descriptor : String) (receiver : UInt16) : Except EffectFault StackEffect := do
  let type ← (MethodType.ofDescriptor descriptor).mapError .descriptor
  return ⟨type.paramSlots + receiver, type.resultSlots⟩

/-- The effect of an access to a field of a size. -/
def fieldEffect (code : Opcode) (size : UInt16) : StackEffect :=
  if code = Opcode.getStatic then ⟨0, size⟩
  else if code = Opcode.putStatic then ⟨size, 0⟩
  else if code = Opcode.getField then ⟨1, size⟩
  else ⟨1 + size, 0⟩

/-- The effect of a jump. -/
def jumpEffect (code : Opcode) : Except EffectFault StackEffect :=
  if code = Opcode.goto ∨ code = Opcode.gotoW then .ok ⟨0, 0⟩
  else if 0x9F ≤ code ∧ code ≤ 0xA6 then .ok ⟨2, 0⟩
  else if code = Opcode.jsr ∨ code = Opcode.jsrW then .error .subroutine
  else .ok ⟨1, 0⟩

/-- The effect of an instruction, given the pool that it refers to. -/
def effect (pool : Pool) : Insn → Except EffectFault StackEffect
  | .plain code =>
      match code.plainEffect? with
      | some effect => .ok effect
      | none => .error (.unexpectedOpcode code)
  | .immediate code _ => .ok (if code = Opcode.newArray then ⟨1, 1⟩ else ⟨0, 1⟩)
  | .slot code _ =>
      match code.slotEffect? with
      | some effect => .ok effect
      | none => .error .subroutine
  | .classRef code _ => .ok (if code = Opcode.newObject then ⟨0, 1⟩ else ⟨1, 1⟩)
  | .field code (.index index) => do
      let member ← (pool.member index).mapError .reference
      let type ← (FieldType.ofDescriptor member.descriptor).mapError .descriptor
      return fieldEffect code (UInt16.ofNat type.size)
  | .field _ (.named _ _ _) => .error .unresolvedField
  | .method code (.index index) => do
      let member ← (pool.member index).mapError .reference
      callEffect member.descriptor (if code = Opcode.invokeStatic then 0 else 1)
  | .method _ (.named _ _ _) => .error .unresolvedMethod
  | .interfaceMethod _ index _ => do
      let member ← (pool.member index).mapError .reference
      callEffect member.descriptor 1
  | .callSite _ index => do
      let (_, descriptor) ← (pool.dynamic index).mapError .reference
      callEffect descriptor 0
  | .jump code _ => jumpEffect code
  | .load code value =>
      if code = Opcode.ldc2W then
        .ok ⟨0, 2⟩
      else
        match value with
        | .text _ => .ok ⟨0, 1⟩
        | .index index => do
            let entry ← (pool.entry index).mapError .reference
            if entry.isWide then .error .wideConstant else return ⟨0, 1⟩
  | .increment _ _ _ => .ok ⟨0, 0⟩
  | .tableSwitch _ _ _ _ _ | .lookupSwitch _ _ _ => .ok ⟨1, 0⟩
  | .multiArray _ _ dimensions => .ok ⟨dimensions.toUInt16, 1⟩

end Insn
end JvmClass
