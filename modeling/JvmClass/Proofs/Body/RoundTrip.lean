import JvmClass.Proofs.Body.Reassembled

namespace JvmClass

/-!
# Regular bodies survive being written

What a regular body is written as decodes to the same body.  Only the frames are
written against other distances, which the next writing does away with.
-/

/-- The frames stand at one label and differ at most in their distance and its form. -/
def PlacedFrame.Alike
    (one other : PlacedFrame) : Prop :=
  one.label = other.label ∧ ∃ delta, one.frame = other.frame.withDelta delta

namespace Body

/--
Two bodies are the same, except that their frames may be written against other
distances and in the form that the distance asks for.
-/
structure Alike
    (body again : Body) : Prop where
  same : again = { body with frames := again.frames }
  frames : List.Forall₂ PlacedFrame.Alike again.frames body.frames

/-! ## Decoding again -/

namespace Reassembled

variable
  {pool : Pool} {body : Body} {steps : List (Spot × Insn)} {last : Option Label}
  {labels : PlacedLabels} {rows : List (Nat × Spot × Insn)} {stop : Nat}
  {raw : CodeAttribute Attribute} {tables : Tables} {decoded : Decoded}

/-- A body is written with its references in the order in which it has them. -/
theorem references_eq
    (written : Reassembled pool body steps last labels rows stop raw tables)
    (regular : body.Regular pool steps last)
    (sameInsns : decoded.insns = insnsAt labels rows) :
    references decoded raw.handlers tables = body.referredLabels.map labels.place := by
  have targets :
      decoded.insns.flatMap (fun located => located.2.targets) =
        ((Node.insns body.nodes).flatMap Insn.targets).map labels.place := by
    rw [sameInsns, insnsAt, regular.nodes, Node.insns_ofSteps, ← written.relaid.steps]
    simp [List.flatMap_map, List.map_flatMap]
  rw [references, targets, handlerPlaces_eq written.handlers, linePlaces_eq written.lines,
    localPlaces_eq written.locals, written.frames.places_eq, referredLabels]
  simp only [List.map_append]

theorem mem_references_iff
    (written : Reassembled pool body steps last labels rows stop raw tables)
    (regular : body.Regular pool steps last)
    (sameInsns : decoded.insns = insnsAt labels rows)
    (offset : Nat) :
    offset ∈ references decoded raw.handlers tables ↔
      offset ∈ (markedOf rows last stop).map Prod.fst := by
  rw [written.references_eq regular sameInsns, List.mem_map]
  constructor
  · rintro ⟨label, referred, rfl⟩
    obtain ⟨⟨place, _⟩, member, rfl⟩ :=
      List.mem_map.mp (regular.mem_marked_of_mem_referred written.relaid referred)
    rw [written.relaid.place_eq member]
    exact List.mem_map_of_mem member
  · intro marked
    obtain ⟨⟨place, label⟩, member, rfl⟩ := List.mem_map.mp marked
    refine ⟨label, (regular.referred label).mpr ?_, written.relaid.place_eq member⟩
    rw [← regular.labels_eq written.relaid.steps stop]
    exact List.mem_map_of_mem member

theorem size_eq
    (written : Reassembled pool body steps last labels rows stop raw tables)
    (decodedFrom : decoded.DecodedFrom raw.code) :
    decoded.size = stop :=
  decodedFrom.size.trans written.size

theorem isBoundary_place
    (written : Reassembled pool body steps last labels rows stop raw tables)
    (regular : body.Regular pool steps last)
    (decodedFrom : decoded.DecodedFrom raw.code)
    (sameInsns : decoded.insns = insnsAt labels rows)
    {label : Label}
    (referred : label ∈ body.referredLabels) :
    decoded.isBoundary (labels.place label) = true := by
  obtain ⟨⟨place, _⟩, member, rfl⟩ :=
    List.mem_map.mp (regular.mem_marked_of_mem_referred written.relaid referred)
  have shape : decoded.offsets = rows.map Prod.fst ++ [stop] := by
    rw [Decoded.offsets, sameInsns, written.size_eq decodedFrom, insnsAt, List.map_map]
    rfl
  rw [written.relaid.place_eq member, decodedFrom.boundary, shape]
  exact (Relaid.marks_sublist rows last stop).subset (List.mem_map_of_mem member)

theorem checkInsn_eq_ok
    (written : Reassembled pool body steps last labels rows stop raw tables)
    (regular : body.Regular pool steps last)
    (decodedFrom : decoded.DecodedFrom raw.code)
    (sameInsns : decoded.insns = insnsAt labels rows)
    (located : Nat × Insn)
    (member : located ∈ decoded.insns) :
    decoded.checkInsn pool located = .ok () := by
  rw [sameInsns] at member
  obtain ⟨row, listed, rfl⟩ := List.mem_map.mp member
  have step : row.2 ∈ steps := by
    rw [← written.relaid.steps]
    exact List.mem_map_of_mem listed
  refine Decoded.checkInsn_eq_ok_iff.mpr ⟨?_, ?_⟩
  · rw [DecodesTo.checkOperand_mapTargets]
    exact (regular.insns row.2 step).2.2.1
  · intro target targeted
    rw [Insn.targets_mapTargets] at targeted
    obtain ⟨label, origin, rfl⟩ := List.mem_map.mp targeted
    refine written.isBoundary_place regular decodedFrom sameInsns ?_
    simp only [referredLabels, regular.nodes, Node.insns_ofSteps, List.mem_append,
      List.mem_flatMap, List.mem_map]
    exact .inl (.inl (.inl (.inl ⟨row.2.2, ⟨row.2, step, rfl⟩, origin⟩)))

theorem checkHandler_eq_ok
    (written : Reassembled pool body steps last labels rows stop raw tables)
    (regular : body.Regular pool steps last)
    (decodedFrom : decoded.DecodedFrom raw.code)
    (sameInsns : decoded.insns = insnsAt labels rows)
    (entry : HandlerEntry)
    (member : entry ∈ raw.handlers) :
    decoded.checkHandler entry = .ok () := by
  obtain ⟨handler, listed, row⟩ := exists_of_forall₂ written.handlers member
  have start := Regular.mem_referred_handlers listed (show handler.start ∈ _ by simp)
  have finish := Regular.mem_referred_handlers listed (show handler.stop ∈ _ by simp)
  have target := Regular.mem_referred_handlers listed (show handler.handler ∈ _ by simp)
  obtain ⟨ordered, inFront, _⟩ := regular.handlers handler listed
  refine Decoded.checkHandler_eq_ok_iff.mpr ⟨?_, ?_, ?_, ?_, ?_⟩
  · rw [row.start]
    exact written.isBoundary_place regular decodedFrom sameInsns start
  · rw [row.stop]
    exact written.isBoundary_place regular decodedFrom sameInsns finish
  · rw [row.target]
    exact written.isBoundary_place regular decodedFrom sameInsns target
  · rw [UInt16.lt_iff_toNat_lt, row.start, row.stop]
    exact (written.relaid.place_lt_iff (regular.mem_marked_of_mem_referred written.relaid start)
      (regular.mem_marked_of_mem_referred written.relaid finish)).mpr ordered
  · rw [row.target, written.size_eq decodedFrom]
    exact Regular.place_lt written.relaid inFront

theorem checkStart_eq_ok
    (written : Reassembled pool body steps last labels rows stop raw tables)
    (regular : body.Regular pool steps last)
    (decodedFrom : decoded.DecodedFrom raw.code)
    (sameInsns : decoded.insns = insnsAt labels rows)
    (entry : LineEntry)
    (member : entry ∈ tables.lines) :
    decoded.checkStart "LineNumberTable" entry.start.toNat = .ok () := by
  obtain ⟨mark, listed, row⟩ := exists_of_forall₂ written.lines member
  have referred := Regular.mem_referred_lines listed
  rw [regular.nodes, Node.lineMarks_ofSteps] at listed
  obtain ⟨step, stepListed, marked⟩ := List.mem_flatMap.mp listed
  rw [row.start]
  refine Decoded.checkStart_eq_ok_iff.mpr
    ⟨written.isBoundary_place regular decodedFrom sameInsns referred, ?_⟩
  rw [written.size_eq decodedFrom]
  exact Regular.place_lt written.relaid
    (List.mem_filterMap.mpr ⟨step, stepListed, label_of_mem_marks marked⟩)

theorem checkLocal_eq_ok
    (written : Reassembled pool body steps last labels rows stop raw tables)
    (regular : body.Regular pool steps last)
    (decodedFrom : decoded.DecodedFrom raw.code)
    (sameInsns : decoded.insns = insnsAt labels rows)
    (entry : LocalEntry)
    (member : entry ∈ tables.locals) :
    decoded.checkLocal entry = .ok () := by
  obtain ⟨source, listed, row⟩ := exists_of_forall₂ written.locals member
  refine Decoded.checkLocal_eq_ok_iff.mpr ⟨?_, ?_⟩
  · rw [row.start]
    exact written.isBoundary_place regular decodedFrom sameInsns
      (Regular.mem_referred_locals listed (by simp))
  · rw [row.stop]
    exact written.isBoundary_place regular decodedFrom sameInsns
      (Regular.mem_referred_locals listed (by simp))

theorem framesAt_of_frameRows
    {base : Nat}
    {placed : List PlacedFrame}
    {frames : List StackMap.Frame}
    {offsets : List (Nat × StackMap.Frame)}
    (frameRows : FrameRows labels base placed frames offsets)
    (starts :
      ∀ frame ∈ placed,
        decoded.isBoundary (labels.place frame.label) = true ∧
          labels.place frame.label < decoded.size) :
    decoded.FramesAt base frames offsets := by
  induction frameRows with
  | nil base => exact .nil base
  | @cons base first frame rest frames placed _ behind _ inductionHypothesis =>
      simp only [List.mem_cons, forall_eq_or_imp] at starts
      obtain ⟨⟨boundary, inside⟩, others⟩ := starts
      rw [← behind] at boundary inside inductionHypothesis ⊢
      exact .cons boundary inside (inductionHypothesis others)

theorem framesAt
    (written : Reassembled pool body steps last labels rows stop raw tables)
    (regular : body.Regular pool steps last)
    (decodedFrom : decoded.DecodedFrom raw.code)
    (sameInsns : decoded.insns = insnsAt labels rows) :
    decoded.FramesAt 0 (tables.frames.map Prod.snd) tables.frames := by
  refine framesAt_of_frameRows written.frames ?_
  intro frame listed
  have referred := Regular.mem_referred_frames listed
  refine ⟨written.isBoundary_place regular decodedFrom sameInsns referred, ?_⟩
  rw [written.size_eq decodedFrom]
  exact Regular.place_lt written.relaid (regular.frames frame listed).1

/-- The tables are read as they were written. -/
theorem tablesRead
    (written : Reassembled pool body steps last labels rows stop raw tables)
    (regular : body.Regular pool steps last)
    (decodedFrom : decoded.DecodedFrom raw.code)
    (sameInsns : decoded.insns = insnsAt labels rows) :
    Tables.ofAttributes decoded raw.attributes = .ok tables := by
  rw [written.attributes]
  refine Tables.ofAttributes_tableAttribute
    (written.checkStart_eq_ok regular decodedFrom sameInsns)
    (written.checkLocal_eq_ok regular decodedFrom sameInsns)
    (written.framesAt regular decodedFrom sameInsns) ?_
  rw [written.others]
  exact fun item member => (regular.attributes item member).2

theorem label?_eq_some_iff
    (written : Reassembled pool body steps last labels rows stop raw tables)
    (regular : body.Regular pool steps last)
    (decodedFrom : decoded.DecodedFrom raw.code)
    (sameInsns : decoded.insns = insnsAt labels rows)
    {offset : Nat}
    {label : Label} :
    (labelingOf decoded raw.handlers tables).label? offset = some label ↔
      (offset, label) ∈ markedOf rows last stop := by
  rw [labelingOf, written.size_eq decodedFrom]
  exact written.relaid.label?_eq_some_iff (written.mem_references_iff regular sameInsns)

theorem labelAt_place
    (written : Reassembled pool body steps last labels rows stop raw tables)
    (regular : body.Regular pool steps last)
    (decodedFrom : decoded.DecodedFrom raw.code)
    (sameInsns : decoded.insns = insnsAt labels rows)
    {label : Label}
    (referred : label ∈ body.referredLabels) :
    (labelingOf decoded raw.handlers tables).labelAt (labels.place label) = label := by
  rw [labelingOf, written.size_eq decodedFrom]
  exact written.relaid.labelAt_place (written.mem_references_iff regular sameInsns)
    (regular.mem_marked_of_mem_referred written.relaid referred)

/-- Lines are found behind the label that they were marked at. -/
theorem linesAt_eq
    (written : Reassembled pool body steps last labels rows stop raw tables)
    (regular : body.Regular pool steps last)
    {row : Nat × Spot × Insn}
    {label : Label}
    (member : row ∈ rows)
    (labelled : row.2.1.label = some label) :
    (Tables.linesAt stop tables.lines).getD row.1 [] = row.2.1.marks.map Prod.fst := by
  have relaid := written.relaid
  have inside : row.1 < stop :=
    (List.pairwise_append.mp relaid.ascending).2.2 row.1 (List.mem_map_of_mem member) stop
      (by simp)
  have step : row.2 ∈ steps := by
    rw [← relaid.steps]
    exact List.mem_map_of_mem member
  have placed := (relaid.mem_markedOf_row_iff member label).mpr labelled
  have distinct : (steps.filterMap (·.1.label)).Nodup := by
    have all := regular.numbered
    rw [regular.nodes, Node.labels_ofSteps] at all
    exact (List.nodup_append.mp (all ▸ List.nodup_range)).1
  have sameMarks :
      (LaidOut.lineMarks body.nodes).filter (fun mark => labels.place mark.2 == row.1) =
        (LaidOut.lineMarks body.nodes).filter (·.2 == label) := by
    refine List.filter_congr fun mark listed => ?_
    have referred : mark.2 ∈ body.referredLabels := by
      simp only [referredLabels, List.mem_append, List.mem_map]
      exact .inl (.inl (.inr ⟨mark, listed, rfl⟩))
    obtain ⟨⟨offset, _⟩, marked, same⟩ :=
      List.mem_map.mp (regular.mem_marked_of_mem_referred relaid referred)
    rw [Bool.eq_iff_iff, beq_iff_eq, beq_iff_eq]
    constructor
    · intro here
      rw [← same, relaid.place_eq marked] at here
      rw [here, relaid.mem_markedOf_row_iff member, labelled] at marked
      rw [← same]
      exact (Option.some.inj marked).symm
    · rintro rfl
      exact relaid.place_eq placed
  rw [Tables.getD_linesAt inside, linesOf_eq written.lines, sameMarks, regular.nodes,
    Node.lineMarks_ofSteps, filter_marks_eq distinct step labelled]

theorem nodes_eq
    (written : Reassembled pool body steps last labels rows stop raw tables)
    (regular : body.Regular pool steps last)
    (decodedFrom : decoded.DecodedFrom raw.code)
    (sameInsns : decoded.insns = insnsAt labels rows) :
    nodesOf decoded (labelingOf decoded raw.handlers tables)
        (Tables.linesAt decoded.size tables.lines) =
      body.nodes := by
  have size := written.size_eq decodedFrom
  have relaid := written.relaid
  have final : (labelingOf decoded raw.handlers tables).label? decoded.size = last := by
    refine Option.ext fun label => ?_
    rw [size, written.label?_eq_some_iff regular decodedFrom sameInsns, relaid.mem_markedOf_stop_iff]
  rw [nodesOf_eq _ _ _ (Tables.size_linesAt _ _), final, regular.nodes, Node.ofSteps,
    Node.ofSteps, stepsOf, sameInsns, insnsAt, size, ← relaid.steps]
  simp only [List.flatMap_map, List.map_map]
  congr 1
  refine List.flatMap_congr fun row member => ?_
  have step : row.2 ∈ steps := by
    rw [← relaid.steps]
    exact List.mem_map_of_mem member
  have label : (labelingOf decoded raw.handlers tables).label? row.1 = row.2.1.label := by
    refine Option.ext fun label => ?_
    rw [written.label?_eq_some_iff regular decodedFrom sameInsns, relaid.mem_markedOf_row_iff member]
  have spot :
      Spot.nodes ⟨row.2.1.label, (Tables.linesAt stop tables.lines).getD row.1 []⟩ =
        row.2.1.nodes := by
    cases labelled : row.2.1.label with
    | none =>
        obtain ⟨_, ⟨_, _⟩, _⟩ := row
        cases labelled
        rfl
    | some label => rw [nodes_eq_of_label labelled, written.linesAt_eq regular member labelled]
  have insn :
      (row.2.2.mapTargets labels.place).mapTargets (labelingOf decoded raw.handlers tables).labelAt =
        row.2.2 := by
    rw [Insn.mapTargets_mapTargets]
    refine (Insn.mapTargets_congr fun target targeted => ?_).trans (Insn.mapTargets_id row.2.2)
    refine written.labelAt_place regular decodedFrom sameInsns ?_
    simp only [referredLabels, regular.nodes, Node.insns_ofSteps, List.mem_append,
      List.mem_flatMap, List.mem_map]
    exact .inl (.inl (.inl (.inl ⟨row.2.2, ⟨row.2, step, rfl⟩, targeted⟩)))
  simp only [Function.comp_apply, label, spot, insn]

theorem handlersOf
    (written : Reassembled pool body steps last labels rows stop raw tables)
    (regular : body.Regular pool steps last)
    (decodedFrom : decoded.DecodedFrom raw.code)
    (sameInsns : decoded.insns = insnsAt labels rows) :
    List.Forall₂
      (fun entry handler =>
        handlerOf pool (labelingOf decoded raw.handlers tables) entry = .ok handler)
      raw.handlers body.handlers := by
  refine forall₂_flip_of_mem written.handlers fun handler entry member row => ?_
  have found {label : Label} (named : label ∈ [handler.start, handler.stop, handler.handler]) :=
    written.labelAt_place regular decodedFrom sameInsns
      (Regular.mem_referred_handlers member named)
  refine handlerOf_eq_ok_iff.mpr ⟨row.caught, ?_, ?_, ?_⟩
  · rw [row.start, found (by simp)]
  · rw [row.stop, found (by simp)]
  · rw [row.target, found (by simp)]

theorem localsOf
    (written : Reassembled pool body steps last labels rows stop raw tables)
    (regular : body.Regular pool steps last)
    (decodedFrom : decoded.DecodedFrom raw.code)
    (sameInsns : decoded.insns = insnsAt labels rows) :
    List.Forall₂
      (fun entry result =>
        localOf pool (labelingOf decoded raw.handlers tables) entry = .ok result)
      tables.locals body.locals := by
  refine forall₂_flip_of_mem written.locals fun result entry member row => ?_
  have found {label : Label} (named : label ∈ [result.start, result.stop]) :=
    written.labelAt_place regular decodedFrom sameInsns
      (Regular.mem_referred_locals member named)
  refine localOf_eq_ok_iff.mpr ⟨row.name, row.descriptor, ?_, ?_, row.index.symm⟩
  · rw [row.start, found (by simp)]
  · rw [row.stop, found (by simp)]

/-- Frames are read at the labels that they were written for. -/
theorem alike_frames
    {labeling : Labeling}
    {base : Nat}
    {placed : List PlacedFrame}
    {frames : List StackMap.Frame}
    {offsets : List (Nat × StackMap.Frame)}
    (frameRows : FrameRows labels base placed frames offsets)
    (found : ∀ frame ∈ placed, labeling.labelAt (labels.place frame.label) = frame.label) :
    List.Forall₂ PlacedFrame.Alike
      (offsets.map fun placed => ⟨labeling.labelAt placed.1, placed.2⟩) placed := by
  induction frameRows with
  | nil base => exact .nil
  | @cons base first frame rest frames offsets moved _ _ inductionHypothesis =>
      simp only [List.mem_cons, forall_eq_or_imp] at found
      exact .cons ⟨found.1, frame.delta, moved⟩ (inductionHypothesis found.2)

/-- What a regular body was assembled into is decoded as the same body. -/
theorem decodesTo
    (written : Reassembled pool body steps last labels rows stop raw tables)
    (regular : body.Regular pool steps last)
    (decodedFrom : decoded.DecodedFrom raw.code)
    (code : Decoded.ofCode raw.code = .ok decoded)
    (sameInsns : decoded.insns = insnsAt labels rows) :
    DecodesTo pool raw
      { body with
        frames :=
          tables.frames.map fun placed =>
            ⟨(labelingOf decoded raw.handlers tables).labelAt placed.1, placed.2⟩ }
      decoded tables := by
  refine {
    code
    insns := written.checkInsn_eq_ok regular decodedFrom sameInsns
    handlers := written.checkHandler_eq_ok regular decodedFrom sameInsns
    tablesRead := written.tablesRead regular decodedFrom sameInsns
    handlersOf := written.handlersOf regular decodedFrom sameInsns
    localsOf := written.localsOf regular decodedFrom sameInsns
    shape := ?_ }
  rw [written.nodes_eq regular decodedFrom sameInsns, written.maxStack, written.maxLocals,
    written.others, ← regular.hints]

end Reassembled

/-- A regular body that was assembled is decoded as itself. -/
theorem Reassembled.exists_alike
    {pool : Pool}
    {body : Body}
    {steps : List (Spot × Insn)}
    {last : Option Label}
    {labels : PlacedLabels}
    {rows : List (Nat × Spot × Insn)}
    {stop : Nat}
    {raw : CodeAttribute Attribute}
    {tables : Tables}
    (written : Reassembled pool body steps last labels rows stop raw tables)
    (regular : body.Regular pool steps last) :
    ∃ again, ofAttribute pool raw = .ok again ∧ Alike body again := by
  have decodes := written.decodes
  rw [← written.size] at decodes
  obtain ⟨code, decodedFrom⟩ := Decoded.decodedFrom_of_decodes decodes
  refine ⟨_, ofAttribute_eq_ok_iff.mpr
    ⟨_, tables, written.decodesTo regular decodedFrom code rfl⟩, rfl, ?_⟩
  refine Reassembled.alike_frames written.frames fun frame member => ?_
  refine written.labelAt_place regular decodedFrom rfl ?_
  simp only [referredLabels, List.mem_append, List.mem_map]
  exact .inr ⟨frame, member, rfl⟩

/-! ## Writing again -/

/-- How frames are written does not depend on how they were measured before. -/
theorem relocateFrames_eq
    {labels : PlacedLabels}
    {first second : List PlacedFrame}
    (same : List.Forall₂ PlacedFrame.Alike first second)
    (done : List StackMap.Frame)
    (previous : Option UInt16) :
    relocateFrames labels done previous first = relocateFrames labels done previous second := by
  induction same generalizing done previous with
  | nil => rfl
  | cons head _ inductionHypothesis =>
      obtain ⟨label, delta, frame⟩ := head
      simp only [relocateFrames, label, frame, StackMap.Frame.withDelta_withDelta,
        inductionHypothesis]

/-- Bodies that differ in the distances of their frames are assembled into the same. -/
theorem assemble_eq_of_alike
    {body again : Body}
    {context : WriteContext}
    (alike : Alike body again)
    (nothing : context.options = ⟨false, false⟩)
    (access : UInt16)
    (name descriptor : String) :
    again.assemble context access name descriptor =
      body.assemble context access name descriptor := by
  have frames := alike.frames
  rw [alike.same]
  generalize again.frames = moved at frames ⊢
  have framed (method : MethodContext) (labels : PlacedLabels) (code : Bytes)
      (ranges : List HandlerRange) :
      assembleFrames context method labels code ranges { body with frames := moved } =
        assembleFrames context method labels code ranges body := by
    have asked : (context.options.computeFrames || context.options.computeMaxima) = false := by
      rw [nothing]
      rfl
    simp only [assembleFrames_of_nothing asked, relocateFrames_eq frames]
  simp only [assemble, framed]

end Body
end JvmClass
