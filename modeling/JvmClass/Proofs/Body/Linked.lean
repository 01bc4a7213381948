import JvmClass.Proofs.Body.Positions
import JvmClass.Proofs.Frame.Analysis
import JvmClass.Proofs.Insn.Width
import JvmClass.Proofs.Writing

namespace JvmClass

/-!
# Bodies that are decoded as they were laid out

A body is closed if each of its labels stands once and its branches go to labels in
front of instructions.  A closed body may name what the pool has no number for:
once it is assembled, its bytes are decoded as its instructions, with numbers for
the names and offsets for the labels.
-/

/-- Nodes whose instructions are as their opcodes ask and branch to one another. -/
structure Node.Closed (nodes : List Node) : Prop where
  distinct : (labels nodes).Nodup
  wellFormed : ∀ insn ∈ insns nodes, insn.WellFormed
  inside :
    ∀ insn ∈ insns nodes, ∀ target ∈ insn.targets,
      ∃ position < (insns nodes).length, StandsAt target nodes position

/-- A label in front of an instruction is placed inside the body. -/
theorem Layout.place_lt_size
    {resolves : Insn → Insn → Prop}
    {nodes : List Node}
    {place : Label → Nat}
    {insns : List (Nat × Insn)}
    {size position : Nat}
    {label : Label}
    (layout : Layout resolves nodes place insns size)
    (stands : Node.StandsAt label nodes position)
    (inside : position < (Node.insns nodes).length) :
    place label < size := by
  have last : (insns.map Prod.fst ++ [size])[insns.length]? = some size := by simp
  exact (layout.offset_lt_iff (layout.labels label position stands) last).mpr
    (layout.length_eq ▸ inside)

/-- Laid out instructions start where those in front of them stop. -/
theorem Lays.offset_eq_stopBehind
    {resolves : Insn → Insn → Prop}
    {start stop position offset : Nat}
    {nodes : List Node}
    {placed : List (Nat × Node)}
    {cells : List Cell}
    {insn : Insn}
    (lays : Lays resolves start nodes placed cells stop)
    (listed : (Node.placedInsns placed)[position]? = some (offset, insn)) :
    offset = Insn.stopBehind start (((Node.placedInsns placed).take position).map Prod.snd) := by
  induction lays generalizing position with
  | nil => cases listed
  | label _ inductionHypothesis | line _ inductionHypothesis => exact inductionHypothesis listed
  | @insn start stop insn resolved nodes placed cells _ _ inductionHypothesis =>
      cases position with
      | zero =>
          cases listed
          rfl
      | succ position => exact inductionHypothesis listed

/-- Laid out nodes stop where their instructions do. -/
theorem Lays.stop_eq_stopBehind
    {resolves : Insn → Insn → Prop}
    {start stop : Nat}
    {nodes : List Node}
    {placed : List (Nat × Node)}
    {cells : List Cell}
    (lays : Lays resolves start nodes placed cells stop) :
    stop = Insn.stopBehind start ((Node.placedInsns placed).map Prod.snd) := by
  induction lays with
  | nil => rfl
  | label _ inductionHypothesis | line _ inductionHypothesis => exact inductionHypothesis
  | insn _ _ inductionHypothesis => exact inductionHypothesis

/-- A closed body that is laid out and linked lies where it is decoded. -/
theorem LaidOut.exists_layout_of_link
    {nodes : List Node}
    {laidOut : LaidOut}
    {pool grown : Pool}
    {code : Bytes}
    (closed : Node.Closed nodes)
    (laid : ofNodes nodes pool = .ok (laidOut, grown))
    (linked : laidOut.link = .ok code) :
    ∃ insns,
      Layout (Finds pool grown) nodes laidOut.labels.place insns code.length ∧
        Insn.Packed insns ∧ Insn.decode code = .ok insns := by
  obtain ⟨placed, cells, lays, cellsShape, labelsShape, _, short, _⟩ :=
    lays_of_foldlM laid (Nat.zero_le _)
  have places : laidOut.labels = placeLabels ∅ placed := labelsShape
  have cellsLinked : Cell.Links laidOut.labels cells code := by
    rw [← show laidOut.cells.reverse.flatten = cells from cellsShape]
    exact links_of_link linked
  have layout := lays.layout closed.distinct short
  rw [← places] at layout
  have inside :
      ∀ insn ∈ Node.insns nodes, ∀ target ∈ insn.targets,
        laidOut.labels.place target < laidOut.size := by
    intro insn member target targeted
    obtain ⟨position, small, stands⟩ := closed.inside insn member target targeted
    exact layout.place_lt_size stands small
  obtain ⟨decodes, length⟩ :=
    (lays.imp fun _ _ finds => finds.1).decodes_of_wellFormed cellsLinked short closed.wellFormed
      inside
  have size : laidOut.size = code.length := by
    simpa [empty] using length.symm
  rw [size] at layout decodes
  refine ⟨_, layout, fun position offset insn listed => ?_, Insn.decode_eq_ok_iff.mpr decodes⟩
  rw [List.getElem?_map] at listed
  obtain ⟨⟨offset, insn⟩, placedAt, rfl, rfl⟩ := Option.map_eq_some_iff.mp listed
  rw [lays.offset_eq_stopBehind placedAt, ← List.map_take, List.map_map]
  exact (Insn.stopBehind_map_mapTargets _ _ _).symm.trans (by rw [List.map_map]; rfl)

/-- An analysis gives a body at least the local variables that it has. -/
theorem FrameAnalysis.maxLocals_le
    {method : MethodContext}
    {code : Bytes}
    {handlers : List HandlerRange}
    {pool : Pool}
    {rules : TypeRules}
    {analysis : FrameAnalysis}
    (analysed : ofCode method code handlers pool rules = .ok analysis) :
    method.maxLocals.toNat ≤ analysis.maxLocals.toNat := by
  obtain ⟨insns, _, analysed⟩ := bind_eq_ok_iff.mp analysed
  obtain ⟨initial, _, analysed⟩ := bind_eq_ok_iff.mp analysed
  split at analysed
  · cases analysed
    have larger (first second : UInt16) : first ≤ max first second := by
      rw [show max first second = if first ≤ second then second else first from rfl]
      split
      · assumption
      · exact UInt16.le_refl first
    exact UInt16.le_iff_toNat_le.mp (larger _ _)
  · unfold solve at analysed
    simp only at analysed
    split at analysed
    · cases analysed
    · rename_i fits
      obtain ⟨_, _, analysed⟩ := bind_eq_ok_iff.mp analysed
      obtain ⟨_, _, analysed⟩ := bind_eq_ok_iff.mp analysed
      obtain ⟨_, _, analysed⟩ := bind_eq_ok_iff.mp analysed
      split at analysed
      · cases analysed
      · cases analysed
        have enough :=
          le_localsNeeded (max method.maxLocals.toNat initial.locals.length) insns
        show _ ≤ (UInt16.ofNat _).toNat
        rw [UInt16.toNat_ofNat_of_lt' (Nat.not_le.mp fits)]
        omega

namespace Body

variable
  {context : WriteContext}
  {access : UInt16}
  {name descriptor : String}
  {body : Body}
  {pool after : Pool}
  {raw : CodeAttribute Attribute}

/-- Neither what is computed nor what is kept takes a local variable from a body. -/
theorem maxLocals_le_of_assembleFrames
    {method : MethodContext}
    {labels : PlacedLabels}
    {code : Bytes}
    {ranges : List HandlerRange}
    {maxStack maxLocals : UInt16}
    {frames : List StackMap.Frame}
    (same : method.maxLocals = body.maxLocals)
    (assembled :
      assembleFrames context method labels code ranges body pool =
        .ok ((maxStack, maxLocals, frames), after)) :
    body.maxLocals.toNat ≤ maxLocals.toNat := by
  have framed
      {emitFrames : Bool}
      {declared : Std.TreeMap UInt16 FrameState}
      (assembled :
        analysedFrames context method labels code ranges body pool emitFrames declared pool =
          .ok ((maxStack, maxLocals, frames), after)) :
      body.maxLocals.toNat ≤ maxLocals.toNat := by
    obtain ⟨analysis, analysed, assembled⟩ := Writing.lift_bind_eq_ok_iff.mp assembled
    have kept : maxLocals = analysis.maxLocals := by
      split at assembled <;>
        obtain ⟨_, _, _, ended⟩ := Writing.bind_eq_ok_iff.mp assembled <;>
          exact congrArg (·.2.1) (Writing.pure_eq_ok_iff.mp ended).1
    rw [kept, ← same]
    exact FrameAnalysis.maxLocals_le analysed
  cases asked : context.options.computeFrames || context.options.computeMaxima with
  | false =>
      rw [assembleFrames_of_nothing asked] at assembled
      obtain ⟨_, _, ended⟩ := Writing.lift_bind_eq_ok_iff.mp assembled
      cases (Writing.pure_eq_ok_iff.mp ended).1
      exact Nat.le_refl _
  | true =>
      cases needs : body.needsFrames context with
      | false =>
          rw [assembleFrames_of_keeping asked needs] at assembled
          obtain ⟨_, _, got, assembled⟩ := Writing.bind_eq_ok_iff.mp assembled
          cases got
          exact framed assembled
      | true =>
          rw [assembleFrames_of_needing needs] at assembled
          obtain ⟨_, _, got, assembled⟩ := Writing.bind_eq_ok_iff.mp assembled
          cases got
          obtain ⟨_, _, assembled⟩ := Writing.lift_bind_eq_ok_iff.mp assembled
          exact framed assembled

/-- An assembled body is decoded as it was laid out, and has all its local variables. -/
theorem exists_layout_of_assemble
    (closed : Node.Closed body.nodes)
    (assembled : body.assemble context access name descriptor pool = .ok (raw, after)) :
    ∃ place insns,
      Layout Insn.Numbered body.nodes place insns raw.code.length ∧
        Insn.decode raw.code = .ok insns ∧
          body.maxLocals.toNat ≤ raw.maxLocals.toNat := by
  obtain ⟨steps⟩ := nonempty_assembling assembled
  obtain ⟨insns, layout, _, decoded⟩ :=
    LaidOut.exists_layout_of_link closed steps.laid steps.linked
  exact ⟨steps.laidOut.labels.place, insns,
    { layout with
      listed := layout.listed.imp fun _ _ ⟨resolved, finds, located⟩ => ⟨resolved, finds.1, located⟩ },
    decoded, maxLocals_le_of_assembleFrames rfl steps.framed⟩

end Body
end JvmClass
