import JvmClass.Access
import JvmClass.ClassName
import JvmClass.Error
import JvmClass.Opcode.Action

namespace JvmClass

/-!
# Type states

The types of the local variables and of the operand stack before an
instruction.  A long or double local takes two places, the second of which is
`top`; on the stack every value takes one place, and the top of the stack is the
head of the list.
-/

/-- The method whose body is analysed. -/
structure MethodContext where
  className : String
  access : UInt16
  name : String
  descriptor : String
  /-- The fewest local variables that the body is given. -/
  maxLocals : UInt16
  deriving Repr, DecidableEq

/-- The types before an instruction. -/
structure FrameState where
  locals : List SlotType
  stack : List SlotType
  deriving Repr, DecidableEq

namespace SlotType

/-- The type of a primitive kind; any reference counts as the root class. -/
def ofKind : ValueKind → SlotType
  | .int => .integer
  | .long => .long
  | .float => .float
  | .double => .double
  | .reference => .object objectName

/-- The type that a field, parameter or result is given. -/
def ofFieldType : FieldType → SlotType
  | .boolean | .byte | .char | .short | .int => .integer
  | .float => .float
  | .long => .long
  | .double => .double
  | .object name => .object name
  | .array element => .object (FieldType.array element).descriptor

/-- A value and, if it is wide, the place behind it. -/
def expand (type : SlotType) : List SlotType :=
  if type.isWide then [type, .top] else [type]

/-- How many slots the values of a stack take. -/
def stackSlots (stack : List SlotType) : Nat :=
  stack.foldl (fun total type => total + type.slots) 0

/-- Locals filled up with `top` to a number of places. -/
def padTo (size : Nat) (locals : List SlotType) : List SlotType :=
  locals ++ List.replicate (size - locals.length) .top

end SlotType

namespace FrameState

/-- The types on entry to a method: the receiver, if any, and the parameters. -/
def initial (method : MethodContext) : Except InvalidDescriptor FrameState := do
  let type ← MethodType.ofDescriptor method.descriptor
  let receiver :=
    if Access.isStatic method.access then []
    else if method.name = "<init>" then [.uninitializedThis]
    else [.object method.className]
  let params := type.params.flatMap fun param => (SlotType.ofFieldType param).expand
  return ⟨receiver ++ params, []⟩

/-- Whether two states are the same, place by place. -/
def sameAs (left right : FrameState) : Bool :=
  left.stack == right.stack && left.locals == right.locals

/-- Stores a value.  What lay over the place below or the place behind is lost. -/
def storeLocal (locals : List SlotType) (index : UInt16) (value : SlotType) : List SlotType :=
  let place := index.toNat
  let locals := SlotType.padTo (place + value.slots) locals
  let locals :=
    if 0 < place ∧ (locals.getD (place - 1) .top).isWide then locals.set (place - 1) .top
    else locals
  let locals := locals.set place value
  if value.isWide then locals.set (place + 1) .top else locals

/-- Replaces a type wherever it occurs. -/
def replaceType (old new : SlotType) (state : FrameState) : FrameState :=
  let replace (type : SlotType) : SlotType := if type = old then new else type
  ⟨state.locals.map replace, state.stack.map replace⟩

end FrameState
end JvmClass
