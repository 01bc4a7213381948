import JvmClass.Body.Decode
import JvmClass.Proofs.Attribute.Codec
import JvmClass.Proofs.Body.Layout

namespace JvmClass

/-!
# Regular bodies

Decoding gives bodies of one shape: at most one label in front of each
instruction, with its lines right behind it, and labels numbered from zero in
the order in which they stand.  Every label is referred to, and references that
need an instruction find one.
-/

/-- What stands in front of an instruction: a label, and the lines that begin at it. -/
structure Spot where
  label : Option Label
  lines : List UInt16

namespace Spot

/-- The nodes in front of an instruction. -/
def nodes : Spot → List Node
  | ⟨some label, lines⟩ => .label label :: lines.map (Node.line · label)
  | ⟨none, _⟩ => []

/-- The line marks in front of an instruction. -/
def marks : Spot → List (UInt16 × Label)
  | ⟨some label, lines⟩ => lines.map (·, label)
  | ⟨none, _⟩ => []

theorem labels_nodes (spot : Spot) : Node.labels spot.nodes = spot.label.toList := by
  obtain ⟨_ | label, lines⟩ := spot
  · rfl
  · simp [nodes, Node.labels, List.filterMap_map]

theorem insns_nodes (spot : Spot) : Node.insns spot.nodes = [] := by
  obtain ⟨_ | label, lines⟩ := spot
  · rfl
  · simp [nodes, Node.insns, List.filterMap_map]

theorem lineMarks_nodes (spot : Spot) : LaidOut.lineMarks spot.nodes = spot.marks := by
  obtain ⟨_ | label, lines⟩ := spot
  · rfl
  · simp [nodes, marks, LaidOut.lineMarks, List.filterMap_map]

end Spot

namespace Node

/-- Instructions with what stands in front of each, and a label at the end. -/
def ofSteps
    (steps : List (Spot × Insn))
    (last : Option Label) : List Node :=
  steps.flatMap (fun step => step.1.nodes ++ [.insn step.2]) ++ Spot.nodes ⟨last, []⟩

theorem labels_append (first second : List Node) :
    labels (first ++ second) = labels first ++ labels second :=
  List.filterMap_append

theorem insns_append (first second : List Node) :
    insns (first ++ second) = insns first ++ insns second :=
  List.filterMap_append

theorem lineMarks_append (first second : List Node) :
    LaidOut.lineMarks (first ++ second) = LaidOut.lineMarks first ++ LaidOut.lineMarks second :=
  List.filterMap_append

theorem ofSteps_cons
    (step : Spot × Insn)
    (steps : List (Spot × Insn))
    (last : Option Label) :
    ofSteps (step :: steps) last = step.1.nodes ++ .insn step.2 :: ofSteps steps last := by
  simp [ofSteps]

theorem labels_ofSteps
    (steps : List (Spot × Insn))
    (last : Option Label) :
    labels (ofSteps steps last) = steps.filterMap (·.1.label) ++ last.toList := by
  induction steps with
  | nil => exact Spot.labels_nodes ⟨last, []⟩
  | cons step steps inductionHypothesis =>
      rw [ofSteps_cons, labels_append, Spot.labels_nodes,
        show labels (.insn step.2 :: ofSteps steps last) = labels (ofSteps steps last) from rfl,
        inductionHypothesis]
      cases label : step.1.label <;> simp [label]

theorem insns_ofSteps
    (steps : List (Spot × Insn))
    (last : Option Label) :
    insns (ofSteps steps last) = steps.map Prod.snd := by
  induction steps with
  | nil => exact Spot.insns_nodes ⟨last, []⟩
  | cons step steps inductionHypothesis =>
      rw [ofSteps_cons, insns_append, Spot.insns_nodes,
        show insns (.insn step.2 :: ofSteps steps last) = step.2 :: insns (ofSteps steps last)
          from rfl,
        inductionHypothesis]
      rfl

theorem lineMarks_ofSteps
    (steps : List (Spot × Insn))
    (last : Option Label) :
    LaidOut.lineMarks (ofSteps steps last) = steps.flatMap (·.1.marks) := by
  induction steps with
  | nil =>
      refine (Spot.lineMarks_nodes ⟨last, []⟩).trans ?_
      cases last <;> rfl
  | cons step steps inductionHypothesis =>
      rw [ofSteps_cons, lineMarks_append, Spot.lineMarks_nodes,
        show LaidOut.lineMarks (.insn step.2 :: ofSteps steps last) =
          LaidOut.lineMarks (ofSteps steps last) from rfl,
        inductionHypothesis]
      rfl

end Node

namespace StackMap.Frame

/-- The frame can be written at any distance. -/
def Shaped (frame : Frame) : Prop :=
  ∀ delta, (frame.withDelta delta).Encodable

theorem shaped_of_encodable
    {frame : Frame}
    (fits : frame.Encodable) :
    frame.Shaped := by
  intro delta
  cases frame with
  | same _ | sameExtended _ =>
      simp only [withDelta, sameAt]
      split
      · rename_i short
        exact short
      · trivial
  | oneStack _ value | oneStackExtended _ value =>
      simp only [withDelta, oneStackAt]
      split
      · rename_i short
        exact short
      · trivial
  | chop _ count | append _ locals | full _ locals stack => exact fits

/-- Of two distances given to a frame the later counts. -/
theorem withDelta_withDelta
    (frame : Frame)
    (first second : UInt16) :
    (frame.withDelta first).withDelta second = frame.withDelta second := by
  by_cases short : first ≤ shortLimit
  · cases frame <;> simp [withDelta, sameAt, oneStackAt, short]
  · cases frame <;> simp [withDelta, sameAt, oneStackAt, short]

end StackMap.Frame

/-- The attribute is one of the tables that decoding a body takes apart. -/
def Attribute.isTable : Attribute → Bool
  | .lineNumberTable _ | .localVariableTable _ | .stackMapTable _ => true
  | _ => false

/-- The frames of an attribute. -/
def Attribute.frames : Attribute → List StackMap.Frame
  | .stackMapTable frames => frames
  | _ => []

/-- The frames in all tables of a body. -/
def CodeAttribute.allFrames (raw : CodeAttribute Attribute) : List StackMap.Frame :=
  raw.attributes.flatMap Attribute.frames

namespace Body

/-- Every label that a body refers to. -/
def referredLabels (body : Body) : List Label :=
  (Node.insns body.nodes).flatMap Insn.targets
    ++ body.handlers.flatMap (fun handler => [handler.start, handler.stop, handler.handler])
    ++ (LaidOut.lineMarks body.nodes).map Prod.snd
    ++ body.locals.flatMap (fun entry => [entry.start, entry.stop])
    ++ body.frames.map PlacedFrame.label

/-- How many attributes the tables of a body take when it is written. -/
def tableCount (body : Body) : Nat :=
  (if (LaidOut.lineMarks body.nodes).isEmpty then 0 else 1)
    + (if body.locals.isEmpty then 0 else 1)
    + if body.frames.isEmpty then 0 else 1

/-- The body is as decoding gives it, and the pool knows what it names. -/
structure Regular
    (pool : Pool)
    (body : Body)
    (steps : List (Spot × Insn))
    (last : Option Label) : Prop where
  nodes : body.nodes = Node.ofSteps steps last
  nonempty : steps ≠ []
  numbered : Node.labels body.nodes = List.range (Node.labels body.nodes).length
  referred : ∀ label, label ∈ body.referredLabels ↔ label ∈ Node.labels body.nodes
  insns :
    ∀ step ∈ steps,
      step.2.WellFormed ∧ step.2.Indexed ∧ step.2.checkOperand pool = .ok () ∧
        ∀ target ∈ step.2.targets, target ∈ steps.filterMap (·.1.label)
  handlers :
    ∀ handler ∈ body.handlers,
      handler.start < handler.stop ∧ handler.handler ∈ steps.filterMap (·.1.label) ∧
        ∀ name, handler.catchType = some name → pool.Knows (.classRef name)
  locals :
    ∀ entry ∈ body.locals,
      entry.start ≤ entry.stop ∧ pool.Knows (.utf8 entry.name) ∧
        pool.Knows (.utf8 entry.descriptor)
  frames :
    ∀ placed ∈ body.frames,
      placed.label ∈ steps.filterMap (·.1.label) ∧ placed.frame.Shaped
  hints : body.hints = none
  attributes : ∀ item ∈ body.attributes, item.Fits pool ∧ item.isTable = false
  fewHandlers : body.handlers.length < 2 ^ 16
  fewAttributes : body.tableCount + body.attributes.length < 2 ^ 16
  linesKnown : LaidOut.lineMarks body.nodes ≠ [] → pool.Knows (.utf8 "LineNumberTable")
  localsKnown : body.locals ≠ [] → pool.Knows (.utf8 "LocalVariableTable")
  framesKnown : body.frames ≠ [] → pool.Knows (.utf8 "StackMapTable")

end Body
end JvmClass
