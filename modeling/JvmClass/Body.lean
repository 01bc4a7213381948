import JvmClass.Attribute
import JvmClass.Insn

namespace JvmClass

/-!
# Method bodies

A method body with its bytecode decoded.  Handlers, local variables and frames
refer to labels among the instructions, so inserting instructions only shifts
positions.
-/

/-- A range of instructions and where an exception raised in it goes. -/
structure Handler where
  start : Label
  stop : Label
  handler : Label
  /-- The class of the exceptions caught; everything is caught if absent. -/
  catchType : Option String
  deriving Repr, DecidableEq

/-- The name and type of a local variable over a range of instructions. -/
structure LocalVariable where
  name : String
  descriptor : String
  start : Label
  stop : Label
  index : UInt16
  deriving Repr, DecidableEq

/-- A stack map frame at the label of the instruction that it describes. -/
structure PlacedFrame where
  label : Label
  frame : StackMap.Frame
  deriving Repr, DecidableEq

/--
Frames that a body declared before it was changed.  Their types still hold for
the local variables below `maxLocals`; those from there on were added.
-/
structure FrameHints where
  maxLocals : UInt16
  frames : List PlacedFrame
  deriving Repr, DecidableEq

/-- A decoded method body. -/
structure Body where
  maxStack : UInt16
  maxLocals : UInt16
  nodes : List Node
  handlers : List Handler
  locals : List LocalVariable
  /-- The frames of the body; none if they are to be computed. -/
  frames : List PlacedFrame
  /-- Declared types to go by when frames are computed. -/
  hints : Option FrameHints
  /-- Attributes other than line numbers, local variables and frames. -/
  attributes : List Attribute
  deriving Repr

namespace Body

/-- A body without instructions. -/
def empty : Body :=
  ⟨0, 0, [], [], [], [], none, []⟩

/-- The smallest label above all labels placed in a body. -/
def nextLabel (body : Body) : Label :=
  (Node.labels body.nodes).foldl (fun next label => max next (label + 1)) 0

end Body
end JvmClass
