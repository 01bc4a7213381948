import JvmClass.Attribute.Writer
import JvmClass.Body
import JvmClass.Frame.Encode
import JvmClass.Insn.Encode

namespace JvmClass

/-!
# Assembling method bodies

A body is laid out and linked, and everything that refers to its labels gets
offsets.  On request its maxima are computed instead of taken from the body, and
a body without frames gets frames computed.
-/

/-- Writing with the constants it needs interned on the way. -/
abbrev Writing := StateT Pool (Except WriteError)

namespace Writing

/-- Writing that cannot fail. -/
def intern (action : StateM Pool α) : Writing α :=
  fun pool => .ok (action pool)

end Writing

/-- What is computed while a class is written. -/
structure WriteOptions where
  /-- Frames of bodies that have none, and with them the maxima. -/
  computeFrames : Bool
  /-- The largest stack and the number of local variables. -/
  computeMaxima : Bool
  deriving Repr, DecidableEq

/-- What a class lends to its bodies when they are written. -/
structure WriteContext where
  className : String
  major : UInt16
  options : WriteOptions
  hierarchy : Hierarchy

namespace Body

/--
The row of a handler and the range that the analysis goes by.  A range that has
become empty is left out.
-/
def assembleHandler (labels : PlacedLabels) (handler : Handler) :
    Writing (Option (HandlerEntry × HandlerRange)) := do
  let start ← labels.offset handler.start
  let stop ← labels.offset handler.stop
  let target ← labels.offset handler.handler
  if stop ≤ start then
    return none
  else
    let catchType ←
      match handler.catchType with
      | some name => Writing.intern (Pool.internClass name)
      | none => pure 0
    return some (⟨start, stop, target, catchType⟩, ⟨start, stop, target, handler.catchType⟩)

/--
The frames of a body at the offsets that their labels have now, behind `done`,
which is reversed.  Offsets have to ascend.
-/
def relocateFrames (labels : PlacedLabels) (done : List StackMap.Frame)
    (previous : Option UInt16) : List PlacedFrame → Except WriteError (List StackMap.Frame)
  | [] => .ok done.reverse
  | placed :: rest => do
      let offset ← labels.offset placed.label
      if previous.any (offset ≤ ·) then
        .error (.inconsistentFrame offset .outOfOrder)
      else
        let frame := placed.frame.withDelta (FrameState.deltaFrom previous offset)
        relocateFrames labels (frame :: done) (some offset) rest

/-- The rows of line marks. -/
def assembleLines (labels : PlacedLabels) (lines : List (UInt16 × Label)) :
    Except WriteError (List LineEntry) :=
  lines.mapM fun (number, label) => do
    let start ← labels.offset label
    return ⟨start, number⟩

/-- The row of a local variable.  A range that ends before it starts counts as empty. -/
def assembleLocal (labels : PlacedLabels) (entry : LocalVariable) : Writing LocalEntry := do
  let start ← labels.offset entry.start
  let stop ← labels.offset entry.stop
  let name ← Writing.intern (Pool.internText entry.name)
  let descriptor ← Writing.intern (Pool.internText entry.descriptor)
  let length := if start ≤ stop then stop - start else 0
  return { start, length, name, descriptor, index := entry.index }

/-- Whether frames are computed for a body: on request, for a version that has them. -/
def needsFrames (context : WriteContext) (body : Body) : Bool :=
  context.options.computeFrames && StackMap.firstVersion ≤ context.major && body.frames.isEmpty

/-- The states that the hints of a body declare at the offsets that their labels have now. -/
def hintedStates (labels : PlacedLabels) (method : MethodContext) (hints : FrameHints)
    (pool : Pool) : Except WriteError (Std.TreeMap UInt16 FrameState) := do
  let frames ← hints.frames.mapM fun placed => do
    let offset ← labels.offset placed.label
    return (offset, placed.frame)
  FrameState.declaredStates method frames hints.maxLocals pool

/-- The maxima and the frames that a body is written with. -/
def assembleFrames (context : WriteContext) (method : MethodContext) (labels : PlacedLabels)
    (code : Bytes) (ranges : List HandlerRange) (body : Body) :
    Writing (UInt16 × UInt16 × List StackMap.Frame) := do
  if context.options.computeFrames || context.options.computeMaxima then
    let emitFrames := body.needsFrames context
    let pool ← get
    let declared ←
      match body.hints with
      | some hints => if emitFrames then hintedStates labels method hints pool else pure ∅
      | none => pure ∅
    let analysis ←
      FrameAnalysis.ofCode method code ranges pool ⟨context.hierarchy, declared, emitFrames⟩
    let frames ←
      if emitFrames then Writing.intern analysis.stackMapTable
      else relocateFrames labels [] none body.frames
    return (analysis.maxStack, analysis.maxLocals, frames)
  else
    let frames ← relocateFrames labels [] none body.frames
    return (body.maxStack, body.maxLocals, frames)

/-- A table as an attribute, unless it is empty. -/
def tableAttribute (make : List α → Attribute) (rows : List α) : List Attribute :=
  if rows.isEmpty then [] else [make rows]

/-- Assembles the body of a method. -/
def assemble (context : WriteContext) (access : UInt16) (name descriptor : String) (body : Body) :
    Writing (CodeAttribute Attribute) := do
  let laidOut ← LaidOut.ofNodes body.nodes
  let labels := laidOut.labels
  let code ← laidOut.link
  let handlers ← body.handlers.mapM (assembleHandler labels)
  let handlers := handlers.filterMap id
  let method : MethodContext := ⟨context.className, access, name, descriptor, body.maxLocals⟩
  let (maxStack, maxLocals, frames) ←
    assembleFrames context method labels code (handlers.map Prod.snd) body
  let lines ← assembleLines labels laidOut.lines.reverse
  let locals ← body.locals.mapM (assembleLocal labels)
  return {
    maxStack, maxLocals, code
    handlers := handlers.map Prod.fst
    attributes :=
      tableAttribute .lineNumberTable lines ++ tableAttribute .localVariableTable locals
        ++ tableAttribute .stackMapTable frames ++ body.attributes
  }

end Body
end JvmClass
