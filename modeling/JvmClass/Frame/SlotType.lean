import JvmClass.Text.Quoted

namespace JvmClass

/-!
# Types of slots

The type analysis gives every local variable and every operand stack value one
of the verification types of the class file format, with classes by name.  One
more type marks a local variable that two paths left holding classes without a
known common superclass; it may be overwritten but not loaded.
-/

/-- What the analysis knows about a value. -/
inductive SlotType where
  | top
  | integer
  | float
  | long
  | double
  | null
  | uninitializedThis
  | object (name : String)
  | uninitialized (offset : UInt16)
  | unmerged
  deriving Repr, DecidableEq

namespace SlotType

/-- Whether a value takes two slots. -/
def isWide : SlotType → Bool
  | .long | .double => true
  | _ => false

/-- How many slots a value takes. -/
def slots (type : SlotType) : Nat :=
  if type.isWide then 2 else 1

/-- The spelling of a type in error texts. -/
def describe : SlotType → String
  | .top => "Top"
  | .integer => "Integer"
  | .float => "Float"
  | .long => "Long"
  | .double => "Double"
  | .null => "Null"
  | .uninitializedThis => "UninitializedThis"
  | .object name => s!"Object({Text.quote name})"
  | .uninitialized offset => s!"Uninitialized({offset})"
  | .unmerged => "Unmerged"

end SlotType
end JvmClass
