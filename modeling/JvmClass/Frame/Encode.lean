import Std.Data.TreeMap
import JvmClass.Frame.Analysis
import JvmClass.Frame.Compact

namespace JvmClass

/-!
# Stack map frames

The states that need a frame are written one against the other, each in its
smallest form, beginning with the state on entry.  Read, the frames that a body
declares are expanded into states in the same way.
-/

namespace FrameState

/-- Whether a list begins with another and has one to three elements more. -/
def extendsBy3 (longer shorter : List SlotType) : Bool :=
  shorter.length < longer.length && longer.length - shorter.length ≤ 3
    && longer.take shorter.length == shorter

/--
The frame of a state whose compact locals are `locals`, behind a frame whose
compact locals are `previous`.  The stack is listed from the bottom.
-/
def encodeFrame (delta : UInt16) (previous locals stack : List SlotType) :
    StateM Pool StackMap.Frame := do
  match stack, locals == previous with
  | [], true => return .sameAt delta
  | [value], true => do
      return .oneStackAt delta (← value.toTypeInfo)
  | _, _ =>
      if stack.isEmpty && extendsBy3 locals previous then
        return .append delta (← (locals.drop previous.length).mapM SlotType.toTypeInfo)
      else if stack.isEmpty && extendsBy3 previous locals then
        return .chop delta (UInt8.ofNat (previous.length - locals.length))
      else
        let locals ← locals.mapM SlotType.toTypeInfo
        let stack ← stack.mapM SlotType.toTypeInfo
        return .full delta locals stack

/-- The distance of an offset from the frame before it, if there is one. -/
def deltaFrom (previous : Option UInt16) (offset : UInt16) : UInt16 :=
  match previous with
  | none => offset
  | some previous => offset - previous - 1

/-- The frames of states by ascending offset, behind `done`, which is reversed. -/
def encodeFrames (done : List StackMap.Frame) (previousOffset : Option UInt16)
    (previousLocals : List SlotType) :
    List (UInt16 × FrameState) → StateM Pool (List StackMap.Frame)
  | [] => return done.reverse
  | (offset, state) :: rest => do
      let locals := SlotType.compact state.locals
      let frame ← encodeFrame (deltaFrom previousOffset offset) previousLocals locals
        state.stack.reverse
      encodeFrames (frame :: done) (some offset) locals rest

end FrameState

/-- The stack map table of an analysed body, with the classes it needs interned. -/
def FrameAnalysis.stackMapTable (analysis : FrameAnalysis) : StateM Pool (List StackMap.Frame) :=
  FrameState.encodeFrames [] none (SlotType.compact analysis.initial.locals)
    analysis.frames.toList

/-! ## Declared frames -/

namespace FrameState

/-- The compact locals and the stack, from the bottom, of a frame behind given compact locals. -/
def expandFrame (pool : Pool) (offset : UInt16) (previous : List SlotType) :
    StackMap.Frame → Except WriteError (List SlotType × List SlotType)
  | .same _ | .sameExtended _ => .ok (previous, [])
  | .oneStack _ value | .oneStackExtended _ value => do
      let value ← SlotType.ofTypeInfo pool value
      return (previous, [value])
  | .chop _ count =>
      if count.toNat ≤ previous.length then
        .ok (previous.take (previous.length - count.toNat), [])
      else
        .error (.inconsistentFrame offset (.chop count previous.length))
  | .append _ added => do
      let added ← added.mapM (SlotType.ofTypeInfo pool)
      return (previous ++ added, [])
  | .full _ locals stack => do
      let locals ← locals.mapM (SlotType.ofTypeInfo pool)
      let stack ← stack.mapM (SlotType.ofTypeInfo pool)
      return (locals, stack)

/-- The full state of compact locals and a stack, with no more than `bound` locals. -/
def ofCompact (offset bound : UInt16) (locals stack : List SlotType) :
    Except WriteError FrameState :=
  let expanded := locals.flatMap SlotType.expand
  if bound.toNat < expanded.length then
    .error (.inconsistentFrame offset (.declaredLocals expanded.length bound))
  else
    .ok ⟨SlotType.padTo bound.toNat expanded, stack.reverse⟩

/-- Adds the states of frames in their given order; of two at one offset the later stays. -/
def expandFrames (pool : Pool) (bound : UInt16) (states : Std.TreeMap UInt16 FrameState)
    (previous : List SlotType) :
    List (UInt16 × StackMap.Frame) → Except WriteError (Std.TreeMap UInt16 FrameState)
  | [] => .ok states
  | (offset, frame) :: rest => do
      let (locals, stack) ← expandFrame pool offset previous frame
      let state ← ofCompact offset bound locals stack
      expandFrames pool bound (states.insert offset state) locals rest

/--
The states that a method declares, by the offsets that its frames have now.
Locals are filled up to `bound`, the number of local variables that the frames
were declared for.
-/
def declaredStates (method : MethodContext) (frames : List (UInt16 × StackMap.Frame))
    (bound : UInt16) (pool : Pool) : Except WriteError (Std.TreeMap UInt16 FrameState) := do
  let initial ← (FrameState.initial method).mapError WriteError.ofDescriptor
  expandFrames pool bound ∅ (SlotType.compact initial.locals) frames

end FrameState
end JvmClass
