import JvmClass.Proofs.Body.Reach
import JvmClass.Proofs.Pool.Written

namespace JvmClass

/-!
# Which bodies are written

A regular body that does not take too many bytes is assembled without a new
constant, unless a branch has come to lie out of reach of its target or its
frames do not stand one behind the other.
-/

namespace Body

/-! ## Frames -/

theorem pair_infix_cons_iff
    {α : Type}
    {first second third other : α}
    {rest : List α} :
    [first, second] <:+: third :: other :: rest ↔
      first = third ∧ second = other ∨ [first, second] <:+: other :: rest := by
  rw [List.infix_cons_iff, List.cons_prefix_cons, List.cons_prefix_cons]
  simp

/-- Frames get their distances if each stands behind the one before it. -/
theorem decided_relocateFrames
    {labels : PlacedLabels}
    {done : List StackMap.Frame}
    {previous : Option UInt16}
    {frames : List PlacedFrame}
    (placed : ∀ first ∈ frames, ∃ offset, labels.offset first.label = .ok offset) :
    Decided
      (fun error => ∃ earlier later,
        [earlier, later] <:+:
            previous.toList.map UInt16.toNat ++ frames.map (labels.place ·.label) ∧
          later ≤ earlier ∧ error = .inconsistentFrame (UInt16.ofNat later) .outOfOrder)
      (fun _ => True) (relocateFrames labels done previous frames) := by
  induction frames generalizing done previous with
  | nil =>
      refine .result ?_ trivial
      rintro error ⟨earlier, later, among, _⟩
      have few := among.length_le
      cases previous <;> simp at few
  | cons first rest inductionHypothesis =>
      rw [List.forall_mem_cons] at placed
      obtain ⟨offset, found⟩ := placed.1
      have place := PlacedLabels.place_of_offset found
      have later := @inductionHypothesis
        (first.frame.withDelta (FrameState.deltaFrom previous offset) :: done) (some offset) placed.2
      rw [relocateFrames, found, List.map_cons, place]
      cases previous with
      | none => exact later
      | some before =>
          show Decided _ _ (if decide (offset ≤ before) = true then _ else _)
          split
          · rename_i notBehind
            have notAbove := UInt16.le_iff_toNat_le.mp (of_decide_eq_true notBehind)
            refine .failure ⟨before.toNat, offset.toNat, ?_, notAbove, by rw [UInt16.ofNat_toNat]⟩
            exact pair_infix_cons_iff.mpr (.inl ⟨rfl, rfl⟩)
          · rename_i behind
            refine later.congr fun error => ?_
            show (∃ earlier later, [earlier, later] <:+: offset.toNat :: _ ∧ _) ↔
              ∃ earlier later, [earlier, later] <:+: before.toNat :: offset.toNat :: _ ∧ _
            constructor
            · rintro ⟨earlier, later, among, failed⟩
              exact ⟨earlier, later, pair_infix_cons_iff.mpr (.inr among), failed⟩
            · rintro ⟨earlier, later, among, notBehind, same⟩
              rcases pair_infix_cons_iff.mp among with ⟨rfl, rfl⟩ | among
              · exact absurd (decide_eq_true (UInt16.le_iff_toNat_le.mpr notBehind)) behind
              · exact ⟨earlier, later, among, notBehind, same⟩

/-! ## Rows -/

section Rows

variable {pool : Pool} {labels : PlacedLabels}

theorem exists_assembleHandler
    {handler : Handler}
    (sound : pool.Sound)
    (placed :
      ∀ label ∈ [handler.start, handler.stop, handler.handler],
        ∃ offset, labels.offset label = .ok offset)
    (known : ∀ name, handler.catchType = some name → pool.Knows (.classRef name)) :
    ∃ result, assembleHandler labels handler pool = .ok (result, pool) := by
  obtain ⟨start, startPlaced⟩ := placed handler.start (by simp)
  obtain ⟨stop, stopPlaced⟩ := placed handler.stop (by simp)
  obtain ⟨target, targetPlaced⟩ := placed handler.handler (by simp)
  refine Writing.Decided.exists_ok ?_
  refine .behind_lift startPlaced (.behind_lift stopPlaced (.behind_lift targetPlaced ?_))
  split
  · exact .of_ok rfl
  · cases caught : handler.catchType with
    | none => exact .of_ok rfl
    | some name =>
        obtain ⟨number, interned, _⟩ := Pool.internClass_of_known sound (known name caught)
        exact .behind (congrArg Except.ok interned) (.of_ok rfl)

theorem exists_assembleLines
    {marks : List (UInt16 × Label)}
    (placed : ∀ mark ∈ marks, ∃ offset, labels.offset mark.2 = .ok offset) :
    ∃ entries, assembleLines labels marks = .ok entries := by
  refine exists_mapM_eq_ok_iff.mpr fun mark member => ?_
  obtain ⟨offset, found⟩ := placed mark member
  exact ⟨_, bind_eq_ok_iff.mpr ⟨offset, found, rfl⟩⟩

theorem exists_assembleLocal
    {entry : LocalVariable}
    (sound : pool.Sound)
    (placed : ∀ label ∈ [entry.start, entry.stop], ∃ offset, labels.offset label = .ok offset)
    (named : pool.Knows (.utf8 entry.name))
    (described : pool.Knows (.utf8 entry.descriptor)) :
    ∃ row, assembleLocal labels entry pool = .ok (row, pool) := by
  obtain ⟨start, startPlaced⟩ := placed entry.start (by simp)
  obtain ⟨stop, stopPlaced⟩ := placed entry.stop (by simp)
  obtain ⟨name, nameInterned, _⟩ := Pool.internText_of_known sound named
  obtain ⟨descriptor, descriptorInterned, _⟩ := Pool.internText_of_known sound described
  refine Writing.Decided.exists_ok ?_
  refine .behind_lift startPlaced (.behind_lift stopPlaced ?_)
  refine .behind (congrArg Except.ok nameInterned) ?_
  exact .behind (congrArg Except.ok descriptorInterned) (.of_ok rfl)

end Rows

/-! ## Assembling -/

namespace Regular

variable
  {pool : Pool} {body : Body} {steps : List (Spot × Insn)} {last : Option Label}
  {labels : PlacedLabels}

theorem exists_handlers
    (regular : body.Regular pool steps last)
    (sound : pool.Sound)
    (placed : ∀ label ∈ body.referredLabels, ∃ offset, labels.offset label = .ok offset) :
    ∃ results, body.handlers.mapM (assembleHandler labels) pool = .ok (results, pool) := by
  refine Writing.Decided.exists_mapM fun handler member => ?_
  exact exists_assembleHandler sound
    (fun label named => placed label (mem_referred_handlers member named))
    (regular.handlers handler member).2.2

theorem exists_lines
    (placed : ∀ label ∈ body.referredLabels, ∃ offset, labels.offset label = .ok offset) :
    ∃ entries, assembleLines labels (LaidOut.lineMarks body.nodes) = .ok entries :=
  exists_assembleLines fun mark member => placed mark.2 (mem_referred_lines member)

theorem exists_locals
    (regular : body.Regular pool steps last)
    (sound : pool.Sound)
    (placed : ∀ label ∈ body.referredLabels, ∃ offset, labels.offset label = .ok offset) :
    ∃ rows, body.locals.mapM (assembleLocal labels) pool = .ok (rows, pool) := by
  refine Writing.Decided.exists_mapM fun entry member => ?_
  obtain ⟨_, named, described⟩ := regular.locals entry member
  exact exists_assembleLocal sound
    (fun label named => placed label (mem_referred_locals member named)) named described

/-- The frames of a regular body stand where their labels are placed. -/
theorem frameOffsets_eq
    {laidOut : LaidOut}
    {before grown : Pool}
    (regular : body.Regular pool steps last)
    (laid : LaidOut.ofNodes body.nodes before = .ok (laidOut, grown)) :
    body.frameOffsets = body.frames.map (laidOut.labels.place ·.label) := by
  rw [frameOffsets, ← List.filterMap_eq_map]
  exact List.filterMap_congr fun first member =>
    (regular.labelOffset?_eq laid (mem_referred_frames member)).1

/-- The frames of a regular body are relocated unless they are out of order. -/
theorem decided_frames
    {laidOut : LaidOut}
    {before grown : Pool}
    (regular : body.Regular pool steps last)
    (laid : LaidOut.ofNodes body.nodes before = .ok (laidOut, grown)) :
    Decided body.OutOfOrder (fun _ => True) (relocateFrames laidOut.labels [] none body.frames) := by
  have placed (first : PlacedFrame) (member : first ∈ body.frames) :=
    (regular.labelOffset?_eq laid (mem_referred_frames member)).2
  refine (decided_relocateFrames placed).congr fun error => ?_
  rw [OutOfOrder, regular.frameOffsets_eq laid]
  rfl

/-- A regular body that is not too long is assembled unless it is refused. -/
theorem decided_assemble
    {context : WriteContext}
    {access : UInt16}
    {name descriptor : String}
    (regular : body.Regular pool steps last)
    (sound : pool.Sound)
    (nothing : context.options = ⟨false, false⟩)
    (short : Insn.stopBehind 0 (Node.insns body.nodes) ≤ maxCodeLength) :
    Writing.Decided pool body.Refuses (body.assemble context access name descriptor) := by
  obtain ⟨laidOut, laid⟩ :
      ∃ laidOut, LaidOut.ofNodes body.nodes pool = .ok (laidOut, pool) :=
    LaidOut.exists_ofNodes regular.indexed_insns short
  obtain ⟨_, _, _, _, _, linesShape⟩ := LaidOut.exists_lays laid
  have placed (label : Label) (referred : label ∈ body.referredLabels) :=
    (regular.labelOffset?_eq laid referred).2
  obtain ⟨results, handled⟩ := regular.exists_handlers sound placed
  obtain ⟨entries, lined⟩ := exists_lines placed
  obtain ⟨rows, localed⟩ := regular.exists_locals sound placed
  rw [← linesShape] at lined
  have framed (method : MethodContext) (code : Bytes) (ranges : List HandlerRange) :
      Writing.Decided pool body.OutOfOrder
        (assembleFrames context method laidOut.labels code ranges body) := by
    rw [assembleFrames_of_nothing (by rw [nothing]; rfl)]
    exact (Writing.Decided.lift (regular.decided_frames laid)).before fun _ _ => .of_ok rfl
  refine .behind laid (.bind (.lift (regular.decided_link laid)) fun code _ => ?_)
  refine .behind handled ?_
  exact (framed _ _ _).before fun parts _ => .behind_lift lined (.behind localed (.of_ok rfl))

end Regular

end Body
end JvmClass
