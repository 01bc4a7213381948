namespace JvmClass.StackMap

/-!
# Stack map frames

A `StackMapTable` lists the types of the local variables and the operand stack
at selected instructions.  Each frame is written against the one before it, in
one of several forms; its position is a distance from the frame before it, and
two of the forms come short, for distances up to 63, and extended.
-/

/-- The first major version of classes whose bodies declare frames. -/
def firstVersion : UInt16 := 50

/-- A verification type with its operand. -/
inductive TypeInfo where
  | top
  | integer
  | float
  | long
  | double
  | null
  | uninitializedThis
  | object (index : UInt16)
  | uninitialized (offset : UInt16)
  deriving Repr, DecidableEq

/-- One frame of the table. -/
inductive Frame where
  /-- The locals of the frame before, and an empty stack. -/
  | same (delta : UInt16)
  | sameExtended (delta : UInt16)
  /-- The locals of the frame before, and one value on the stack. -/
  | oneStack (delta : UInt16) (value : TypeInfo)
  | oneStackExtended (delta : UInt16) (value : TypeInfo)
  /-- The locals of the frame before less the last ones, and an empty stack. -/
  | chop (delta : UInt16) (count : UInt8)
  /-- The locals of the frame before and some more, and an empty stack. -/
  | append (delta : UInt16) (locals : List TypeInfo)
  /-- Locals and stack in full. -/
  | full (delta : UInt16) (locals stack : List TypeInfo)
  deriving Repr, DecidableEq

/-- The largest distance that the short forms hold. -/
def shortLimit : UInt16 := 63

namespace Frame

/-- The distance from the frame before. -/
def delta : Frame → UInt16
  | .same delta
  | .sameExtended delta
  | .oneStack delta _
  | .oneStackExtended delta _
  | .chop delta _
  | .append delta _
  | .full delta _ _ => delta

/-- The locals of the frame before and an empty stack, short if the distance allows it. -/
def sameAt (delta : UInt16) : Frame :=
  if delta ≤ shortLimit then .same delta else .sameExtended delta

/-- The locals of the frame before and one stack value, short if the distance allows it. -/
def oneStackAt (delta : UInt16) (value : TypeInfo) : Frame :=
  if delta ≤ shortLimit then .oneStack delta value else .oneStackExtended delta value

/-- The same frame at another distance, in the form that the distance asks for. -/
def withDelta (delta : UInt16) : Frame → Frame
  | .same _ | .sameExtended _ => sameAt delta
  | .oneStack _ value | .oneStackExtended _ value => oneStackAt delta value
  | .chop _ count => .chop delta count
  | .append _ locals => .append delta locals
  | .full _ locals stack => .full delta locals stack

/-- A frame moved to a distance is at that distance. -/
@[simp] theorem delta_withDelta (distance : UInt16) (frame : Frame) :
    (frame.withDelta distance).delta = distance := by
  cases frame <;> simp only [withDelta, sameAt, oneStackAt] <;> (try split) <;> rfl

end Frame
end JvmClass.StackMap
