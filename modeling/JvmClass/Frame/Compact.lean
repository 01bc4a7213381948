import JvmClass.Frame.State
import JvmClass.Pool.Intern
import JvmClass.StackMap

namespace JvmClass

/-!
# Locals in the form of stack map frames

A stack map frame lists locals without the place behind a long or double and
without `top` at the end.  Types with a class refer to the pool there.
-/

namespace SlotType

/-- Drops `top` at the end of locals. -/
def dropTrailingTop (locals : List SlotType) : List SlotType :=
  (locals.reverse.dropWhile (· = .top)).reverse

/-- What a local is written as; one that cannot be loaded is written as `top`. -/
def written : SlotType → SlotType
  | .unmerged => .top
  | type => type

/-- Folds every long or double with the `top` behind it, in front of `done`, which is reversed. -/
def fold (done : List SlotType) : List SlotType → List SlotType
  | [] => done.reverse
  | [type] => (type.written :: done).reverse
  | type :: next :: rest =>
      if type.isWide ∧ next = .top then
        fold (type.written :: done) rest
      else
        fold (type.written :: done) (next :: rest)

/-- Locals as a frame lists them. -/
def compact (locals : List SlotType) : List SlotType :=
  dropTrailingTop (fold [] locals)

/-- A type as it is written, with its class interned. -/
def toTypeInfo : SlotType → StateM Pool StackMap.TypeInfo
  | .top | .unmerged => return .top
  | .integer => return .integer
  | .float => return .float
  | .long => return .long
  | .double => return .double
  | .null => return .null
  | .uninitializedThis => return .uninitializedThis
  | .uninitialized offset => return .uninitialized offset
  | .object name => do
      return .object (← Pool.internClass name)

/-- A type as it was written, with its class resolved. -/
def ofTypeInfo (pool : Pool) : StackMap.TypeInfo → Except WriteError SlotType
  | .top => .ok .top
  | .integer => .ok .integer
  | .float => .ok .float
  | .long => .ok .long
  | .double => .ok .double
  | .null => .ok .null
  | .uninitializedThis => .ok .uninitializedThis
  | .uninitialized offset => .ok (.uninitialized offset)
  | .object index =>
      match pool.className index with
      | .ok name => .ok (.object name)
      | .error _ => .error (.unresolvedReference index)

end SlotType
end JvmClass
