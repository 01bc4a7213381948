import Std.Data.TreeMap
import JvmClass.Frame.State
import JvmClass.Hierarchy

namespace JvmClass

/-!
# Merging type states

Where several paths reach an instruction, the state there covers what each path
brings.  Stack heights have to agree.  A frame that the body declared before it
was changed fixes the types of the places it describes; an uninitialized
object is not fixed, because its declared type names an offset of the old body.
-/

/-- What the analysis goes by where paths disagree. -/
structure TypeRules where
  hierarchy : Hierarchy
  /-- States that the body declared, by offset. -/
  declared : Std.TreeMap UInt16 FrameState
  /-- Whether frames are written.  If not, an unresolved type counts as the root class. -/
  emitFrames : Bool

namespace SlotType

/-- Whether a declared type fixes the place it describes. -/
def isFixed : SlotType → Bool
  | .uninitialized _ => false
  | _ => true

/-- The type that covers two types, unless both are classes that the hierarchy cannot relate. -/
def merge? (hierarchy : Hierarchy) (left right : SlotType) : Option SlotType :=
  if left = right then
    some left
  else
    match left, right with
    | .null, .object name | .object name, .null => some (.object name)
    | .object left, .object right => (hierarchy.commonSuperclass? left right).map .object
    | .unmerged, .object _ | .unmerged, .null | .object _, .unmerged | .null, .unmerged => none
    | _, _ => some .top

/-- Two stack values that cannot be told apart from anything any more do not merge. -/
def mergeStackValue (rules : TypeRules) (left right : SlotType) :
    Except FrameConflict SlotType := do
  let merged ←
    match merge? rules.hierarchy left right with
    | some merged => pure merged
    | none =>
        if rules.emitFrames then .error (.noCommonSuperclass left right)
        else pure (.object objectName)
  if merged = .top ∧ left ≠ .top ∧ right ≠ .top then
    .error (.incompatibleStack left right)
  else
    return merged

/-- Two locals whose classes the hierarchy cannot relate leave a local that cannot be loaded. -/
def mergeLocal (rules : TypeRules) (left right : SlotType) : SlotType :=
  (merge? rules.hierarchy left right).getD .unmerged

end SlotType

namespace FrameState

/-- Which of the first `size` places a list of declared types fixes. -/
def fixedPlaces (size : Nat) (declared : List SlotType) : List Bool :=
  declared.map SlotType.isFixed ++ List.replicate (size - declared.length) false

/-- Merges two stacks of one height, the bottom first.  Fixed places keep the left type. -/
def mergeStacks (rules : TypeRules) (fixed : List Bool) (left right : List SlotType) :
    Except FrameConflict (List SlotType) := do
  let merged ← ((left.zip right).zip fixed).reverse.mapM fun ((left, right), isFixed) =>
    if isFixed then .ok left else SlotType.mergeStackValue rules left right
  return merged.reverse

/-- Merges locals.  Fixed places keep the left type; a missing local counts as `top`. -/
def mergeLocals (rules : TypeRules) (declared left right : List SlotType) : List SlotType :=
  let size := max left.length right.length
  ((SlotType.padTo size left).zip (SlotType.padTo size right)).zip (fixedPlaces size declared)
    |>.map fun ((left, right), isFixed) =>
      if isFixed then left else SlotType.mergeLocal rules left right

/-- The state that covers two states. -/
def merge (rules : TypeRules) (declared : Option FrameState) (left right : FrameState) :
    Except FrameConflict FrameState := do
  if left.stack.length ≠ right.stack.length then
    .error (.stackHeights left.stack.length right.stack.length)
  else
    let declaredStack := (declared.map FrameState.stack).getD []
    let declaredLocals := (declared.map FrameState.locals).getD []
    let stack ←
      mergeStacks rules (fixedPlaces left.stack.length declaredStack) left.stack right.stack
    return ⟨mergeLocals rules declaredLocals left.locals right.locals, stack⟩

/-- Takes declared types over wherever they fix a place. -/
def overlayTypes (types declared : List SlotType) : List SlotType :=
  (types.zip declared).map (fun (type, declared) => if declared.isFixed then declared else type)
    ++ types.drop declared.length

/-- Takes a declared state over, whose stack has to have the same height. -/
def overlay (state declared : FrameState) : Except FrameConflict FrameState :=
  if state.stack.length ≠ declared.stack.length then
    .error (.declaredHeight state.stack.length declared.stack.length)
  else
    .ok ⟨overlayTypes state.locals declared.locals, overlayTypes state.stack declared.stack⟩

/-- The state of an instruction after one more path has reached it. -/
def absorb (rules : TypeRules) (offset : UInt16) (existing : Option FrameState)
    (incoming : FrameState) : Except WriteError FrameState :=
  let declared := rules.declared[offset]?
  let merged : Except FrameConflict FrameState := do
    let state ←
      match existing with
      | none => pure incoming
      | some existing => merge rules declared existing incoming
    match declared with
    | none => return state
    | some declared => overlay state declared
  merged.mapError (WriteError.inconsistentFrame offset)

end FrameState
end JvmClass
