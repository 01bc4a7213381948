import JvmClass.Frame.State
import JvmClass.Insn
import JvmClass.Pool.Intern

namespace JvmClass

/-!
# How instructions change types

`Insn.step` gives the type state behind an instruction from the one before it.
It checks the height of the stack and that no instruction tears a long or
double apart; it does not check that operands have the types the instruction
expects.
-/

/-- Why an operand stack does not suit an instruction. -/
inductive StackFault where
  | underflow
  | splitsWideValue (mnemonic : String)
  deriving Repr, DecidableEq

/-- The fault of an instruction at an offset. -/
def StackFault.at (offset : UInt16) : StackFault → WriteError
  | .underflow => .analysis (.stackUnderflow offset)
  | .splitsWideValue mnemonic => .analysis (.splitsWideValue mnemonic offset)

/-- Where a method body is stepped through. -/
structure StepContext where
  method : MethodContext
  pool : Pool
  /-- Whether frames are written.  If not, an unresolved type counts as the root class. -/
  emitFrames : Bool

namespace SlotType

/-- An array of a class or array that is loaded or not, as its element. -/
def elementOf : SlotType → SlotType
  | .object name =>
      match name.toList with
      | '[' :: element =>
          match ClassName.component? element with
          | some component => .object (String.ofList component)
          | none => .object objectName
      | _ => .object objectName
  | _ => .object objectName

/-- The array type of a primitive array code. -/
def ofArrayCode? (code : Int32) : Option SlotType :=
  let name :=
    if code = 4 then some "[Z"
    else if code = 5 then some "[C"
    else if code = 6 then some "[F"
    else if code = 7 then some "[D"
    else if code = 8 then some "[B"
    else if code = 9 then some "[S"
    else if code = 10 then some "[I"
    else if code = 11 then some "[J"
    else none
  name.map SlotType.object

end SlotType

namespace FrameState

/-- Takes the top of a stack off. -/
def pop : List SlotType → Except StackFault (SlotType × List SlotType)
  | value :: rest => .ok (value, rest)
  | [] => .error .underflow

/-- Takes several values off a stack. -/
def popMany : Nat → List SlotType → Except StackFault (List SlotType)
  | 0, stack => .ok stack
  | count + 1, stack => do
      let (_, rest) ← pop stack
      popMany count rest

/-- Fails if one of some values takes two slots. -/
def requireNarrow (mnemonic : String) (values : List SlotType) : Except StackFault Unit :=
  if values.any SlotType.isWide then .error (.splitsWideValue mnemonic) else .ok ()

/-- Removes two slots: one wide value or two narrow ones. -/
def pop2 (stack : List SlotType) : Except StackFault (List SlotType) := do
  let (first, rest) ← pop stack
  if first.isWide then
    return rest
  else
    let (second, rest) ← pop rest
    requireNarrow "pop2" [second]
    return rest

/-- Copies the narrow top value below the one or two slots under it. -/
def dupX2 (stack : List SlotType) : Except StackFault (List SlotType) := do
  let (first, rest) ← pop stack
  requireNarrow "dup_x2" [first]
  let (second, rest) ← pop rest
  if second.isWide then
    return first :: second :: first :: rest
  else
    let (third, rest) ← pop rest
    return first :: second :: third :: first :: rest

/-- Copies the top two slots. -/
def dup2 (stack : List SlotType) : Except StackFault (List SlotType) := do
  let (first, rest) ← pop stack
  if first.isWide then
    return first :: first :: rest
  else
    let (second, rest) ← pop rest
    requireNarrow "dup2" [second]
    return first :: second :: first :: second :: rest

/-- Copies the top two slots below the value under them. -/
def dup2X1 (stack : List SlotType) : Except StackFault (List SlotType) := do
  let (first, rest) ← pop stack
  let (second, rest) ← pop rest
  if first.isWide then
    return first :: second :: first :: rest
  else
    let (third, rest) ← pop rest
    return first :: second :: third :: first :: second :: rest

/-- Copies the top two slots below the two slots under them. -/
def dup2X2 (stack : List SlotType) : Except StackFault (List SlotType) := do
  let (first, rest) ← pop stack
  let (second, rest) ← pop rest
  if first.isWide then
    if second.isWide then
      return first :: second :: first :: rest
    else
      let (third, rest) ← pop rest
      return first :: second :: third :: first :: rest
  else
    let (third, rest) ← pop rest
    if third.isWide then
      return first :: second :: third :: first :: second :: rest
    else
      let (fourth, rest) ← pop rest
      return first :: second :: third :: fourth :: first :: second :: rest

/-- Replaces the top values of a stack by another. -/
def replaceTop (count : Nat) (value : SlotType) (stack : List SlotType) :
    Except StackFault (List SlotType) := do
  let rest ← popMany count stack
  return value :: rest

/-- What an action that touches no local variable does to the operand stack. -/
def applyAction (action : Action) (stack : List SlotType) : Except StackFault (List SlotType) :=
  match action with
  | .nothing | .load _ _ | .store _ _ | .leave none => .ok stack
  | .pushNull => .ok (.null :: stack)
  | .push kind => .ok (SlotType.ofKind kind :: stack)
  | .loadElement .reference => do
      let (_, rest) ← pop stack
      let (array, rest) ← pop rest
      return array.elementOf :: rest
  | .loadElement kind => replaceTop 2 (SlotType.ofKind kind) stack
  | .storeElement _ => popMany 3 stack
  | .pop => do
      let (value, rest) ← pop stack
      requireNarrow "pop" [value]
      return rest
  | .pop2 => pop2 stack
  | .dup => do
      let (value, rest) ← pop stack
      requireNarrow "dup" [value]
      return value :: value :: rest
  | .dupX1 => do
      let (first, rest) ← pop stack
      let (second, rest) ← pop rest
      requireNarrow "dup_x1" [first, second]
      return first :: second :: first :: rest
  | .dupX2 => dupX2 stack
  | .dup2 => dup2 stack
  | .dup2X1 => dup2X1 stack
  | .dup2X2 => dup2X2 stack
  | .swap => do
      let (first, rest) ← pop stack
      let (second, rest) ← pop rest
      requireNarrow "swap" [first, second]
      return second :: first :: rest
  | .combine kind => replaceTop 2 (SlotType.ofKind kind) stack
  | .shift kind => replaceTop 2 (SlotType.ofKind kind) stack
  | .convert _ target => replaceTop 1 (SlotType.ofKind target) stack
  | .compare _ => replaceTop 2 .integer stack
  | .arrayLength => replaceTop 1 .integer stack
  | .leave (some _) | .throw | .monitor => popMany 1 stack

/-- The type of a local variable that an instruction at an offset loads. -/
def loadLocal (context : StepContext) (offset : UInt16) (locals : List SlotType)
    (index : UInt16) : Except WriteError SlotType :=
  match locals[index.toNat]? with
  | some .unmerged =>
      if context.emitFrames then
        .error (.inconsistentFrame offset (.unmergedLocal index))
      else
        .ok (.object objectName)
  | some type => .ok type
  | none => .ok .top

/-- Loads or stores a local variable. -/
def accessLocal (context : StepContext) (offset : UInt16) (state : FrameState)
    (access : SlotAccess) : Except WriteError FrameState :=
  if access.isStore then do
    let (value, stack) ← (pop state.stack).mapError (StackFault.at offset)
    return ⟨storeLocal state.locals access.index value, stack⟩
  else do
    let value ← loadLocal context offset state.locals access.index
    return { state with stack := value :: state.stack }

/--
Calls a method.  A call of `<init>` turns its receiver, wherever it is held,
into an object: of the class being compiled for the receiver of a constructor,
and of the class that declares the called constructor otherwise.
-/
def invoke (context : StepContext) (offset : UInt16) (hasReceiver : Bool) (member : Member)
    (state : FrameState) : Except WriteError FrameState := do
  let type ← (MethodType.ofDescriptor member.descriptor).mapError WriteError.ofDescriptor
  let stack ← (popMany type.params.length state.stack).mapError (StackFault.at offset)
  let state ←
    if hasReceiver then do
      let (receiver, stack) ← (pop stack).mapError (StackFault.at offset)
      if member.name = "<init>" then
        let owner :=
          if receiver = .uninitializedThis then context.method.className else member.owner
        pure (replaceType receiver (.object owner) { state with stack })
      else
        pure { state with stack }
    else
      pure { state with stack }
  return match type.result with
    | some result => { state with stack := SlotType.ofFieldType result :: state.stack }
    | none => state

/-- Lifts what an instruction at an offset does to the operand stack. -/
def onStack (offset : UInt16) (state : FrameState)
    (change : List SlotType → Except StackFault (List SlotType)) : Except WriteError FrameState := do
  let stack ← (change state.stack).mapError (StackFault.at offset)
  return { state with stack }

end FrameState

namespace SlotType

/-- The type of a constant that is loaded. -/
def ofConstant (pool : Pool) (index : UInt16) : Except WriteError SlotType := do
  match ← (pool.entry index).mapError WriteError.ofRead with
  | .integer _ => return .integer
  | .float _ => return .float
  | .long _ => return .long
  | .double _ => return .double
  | .string _ => return .object "java/lang/String"
  | .classRef _ => return .object "java/lang/Class"
  | .methodType _ => return .object "java/lang/invoke/MethodType"
  | .methodHandle _ _ => return .object "java/lang/invoke/MethodHandle"
  | .dynamic _ _ => do
      let (_, descriptor) ← (pool.dynamic index).mapError WriteError.ofRead
      let type ← (FieldType.ofDescriptor descriptor).mapError WriteError.ofDescriptor
      return ofFieldType type
  | _ => .error (.unresolvedReference index)

end SlotType

namespace Insn

open FrameState

/-- The member that an instruction at an offset refers to, which has to be in the pool. -/
def resolveMember (pool : Pool) (offset : UInt16) : MemberRef → Except WriteError Member
  | .index index => (pool.member index).mapError WriteError.ofRead
  | .named _ _ _ => .error (.analysis (.unresolvedMember offset))

/-- What an instruction on a field does to the operand stack, given the type of the field. -/
def fieldStep (code : Opcode) (value : SlotType) (stack : List SlotType) :
    Except StackFault (List SlotType) :=
  if code = Opcode.getStatic then .ok (value :: stack)
  else if code = Opcode.putStatic then popMany 1 stack
  else if code = Opcode.getField then replaceTop 1 value stack
  else popMany 2 stack

/-- What an instruction on a class does to the operand stack, given the name of the class. -/
def classStep (offset : UInt16) (code : Opcode) (name : String) (stack : List SlotType) :
    Except StackFault (List SlotType) :=
  if code = Opcode.newObject then .ok (.uninitialized offset :: stack)
  else if code = Opcode.newReferenceArray then
    replaceTop 1 (.object (String.ofList (ClassName.arrayOf name.toList))) stack
  else if code = Opcode.checkCast then replaceTop 1 (.object name) stack
  else replaceTop 1 .integer stack

/-- How many values a jump takes off the stack; subroutines are not analysed. -/
def jumpOperands? (code : Opcode) : Option Nat :=
  if code = Opcode.goto ∨ code = Opcode.gotoW then some 0
  else if 0x99 ≤ code ∧ code ≤ 0x9E ∨ code = Opcode.ifNull ∨ code = Opcode.ifNonNull then some 1
  else if 0x9F ≤ code ∧ code ≤ 0xA6 then some 2
  else none

/-- The types behind an instruction at an offset, given the types before it. -/
def step (context : StepContext) (offset : UInt16) (insn : Insn) (state : FrameState) :
    Except WriteError FrameState :=
  match insn with
  | .plain code =>
      match code.action? with
      | some (.load _ _) | some (.store _ _) =>
          match insn.access? with
          | some access => accessLocal context offset state access
          | none => .ok state
      | some action => onStack offset state (applyAction action)
      | none => .error (.undefinedOpcode code offset.toNat)
  | .immediate code operand =>
      if code = Opcode.newArray then do
        let rest ← (popMany 1 state.stack).mapError (StackFault.at offset)
        match SlotType.ofArrayCode? operand with
        | some type => return { state with stack := type :: rest }
        | none => .error (.analysis (.arrayType operand))
      else
        .ok { state with stack := .integer :: state.stack }
  | .slot code _ =>
      if code = Opcode.ret then
        .error (.analysis (.subroutine offset))
      else
        match insn.access? with
        | some access => accessLocal context offset state access
        | none => .ok state
  | .increment _ _ _ => .ok state
  | .classRef code index => do
      let name ← (context.pool.className index).mapError WriteError.ofRead
      onStack offset state (classStep offset code name)
  | .field code target => do
      let member ← resolveMember context.pool offset target
      let type ← (FieldType.ofDescriptor member.descriptor).mapError WriteError.ofDescriptor
      onStack offset state (fieldStep code (SlotType.ofFieldType type))
  | .method code target => do
      let member ← resolveMember context.pool offset target
      invoke context offset (code ≠ Opcode.invokeStatic) member state
  | .interfaceMethod _ index _ => do
      let member ← (context.pool.member index).mapError WriteError.ofRead
      invoke context offset true member state
  | .callSite _ index => do
      let (name, descriptor) ← (context.pool.dynamic index).mapError WriteError.ofRead
      invoke context offset false ⟨objectName, name, descriptor⟩ state
  | .jump code _ =>
      match jumpOperands? code with
      | some count => onStack offset state (popMany count)
      | none => .error (.analysis (.subroutine offset))
  | .load _ (.text _) => .ok { state with stack := .object "java/lang/String" :: state.stack }
  | .load _ (.index index) => do
      let type ← SlotType.ofConstant context.pool index
      return { state with stack := type :: state.stack }
  | .tableSwitch _ _ _ _ _ | .lookupSwitch _ _ _ => onStack offset state (popMany 1)
  | .multiArray _ index dimensions => do
      let rest ← (popMany dimensions.toNat state.stack).mapError (StackFault.at offset)
      let name ← (context.pool.className index).mapError WriteError.ofRead
      return { state with stack := .object name :: rest }

end Insn
end JvmClass
