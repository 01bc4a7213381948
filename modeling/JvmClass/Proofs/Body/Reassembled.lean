import JvmClass.Proofs.Body.Relayout

namespace JvmClass

/-!
# Regular bodies written

A regular body is written without a new constant.  Every row of its tables names
the offsets that its labels have now, and the counts fit their fields.
-/

namespace Body

/-! ## Rows at new offsets -/

/-- The row puts the range and the target of a handler where their labels are. -/
structure HandlerRow
    (pool : Pool)
    (labels : PlacedLabels)
    (handler : Handler)
    (entry : HandlerEntry) : Prop where
  start : entry.start.toNat = labels.place handler.start
  stop : entry.stop.toNat = labels.place handler.stop
  target : entry.handler.toNat = labels.place handler.handler
  caught : pool.ClassOrNone entry.catchType handler.catchType

/-- The row puts a line where its label is. -/
structure LineRow
    (labels : PlacedLabels)
    (mark : UInt16 × Label)
    (entry : LineEntry) : Prop where
  start : entry.start.toNat = labels.place mark.2
  line : entry.line = mark.1

/-- The row puts the range of a local variable where its labels are. -/
structure LocalRow
    (pool : Pool)
    (labels : PlacedLabels)
    (entry : LocalVariable)
    (row : LocalEntry) : Prop where
  start : row.start.toNat = labels.place entry.start
  stop : row.start.toNat + row.length.toNat = labels.place entry.stop
  name : pool.text row.name = .ok entry.name
  descriptor : pool.text row.descriptor = .ok entry.descriptor
  index : row.index = entry.index

/-- The frames stand at the labels of placed ones, each behind the one before it. -/
inductive FrameRows (labels : PlacedLabels) :
    Nat → List PlacedFrame → List StackMap.Frame → List (Nat × StackMap.Frame) → Prop
  | nil (base : Nat) : FrameRows labels base [] [] []
  | cons
      {base : Nat}
      {first : PlacedFrame}
      {frame : StackMap.Frame}
      {rest : List PlacedFrame}
      {frames : List StackMap.Frame}
      {placed : List (Nat × StackMap.Frame)}
      (moved : frame = first.frame.withDelta frame.delta)
      (behind : base + frame.delta.toNat = labels.place first.label)
      (later : FrameRows labels (labels.place first.label + 1) rest frames placed) :
      FrameRows labels base (first :: rest) (frame :: frames)
        ((labels.place first.label, frame) :: placed)

section Rows

variable {pool after : Pool} {labels : PlacedLabels}

theorem FrameRows.map_snd
    {base : Nat}
    {placed : List PlacedFrame}
    {frames : List StackMap.Frame}
    {offsets : List (Nat × StackMap.Frame)}
    (rows : FrameRows labels base placed frames offsets) :
    offsets.map Prod.snd = frames := by
  induction rows with
  | nil base => rfl
  | cons _ _ _ inductionHypothesis => rw [List.map_cons, inductionHypothesis]

theorem handlerRow_of_assembleHandler
    {handler : Handler}
    {result : Option (HandlerEntry × HandlerRange)}
    (sound : pool.Sound)
    (ordered : labels.place handler.start < labels.place handler.stop)
    (known : ∀ name, handler.catchType = some name → pool.Knows (.classRef name))
    (assembled : assembleHandler labels handler pool = .ok (result, after)) :
    after = pool ∧ ∃ entry range, result = some (entry, range) ∧ HandlerRow pool labels handler entry := by
  obtain ⟨start, startPlaced, assembled⟩ := Writing.lift_bind_eq_ok_iff.mp assembled
  obtain ⟨stop, stopPlaced, assembled⟩ := Writing.lift_bind_eq_ok_iff.mp assembled
  obtain ⟨target, targetPlaced, assembled⟩ := Writing.lift_bind_eq_ok_iff.mp assembled
  have startPlace := PlacedLabels.place_of_offset startPlaced
  have stopPlace := PlacedLabels.place_of_offset stopPlaced
  have targetPlace := PlacedLabels.place_of_offset targetPlaced
  have nonempty : ¬ stop ≤ start := by
    rw [UInt16.le_iff_toNat_le]
    omega
  rw [if_neg nonempty] at assembled
  cases caught : handler.catchType with
  | none =>
      rw [caught] at assembled
      obtain ⟨rfl, rfl⟩ := Writing.pure_eq_ok_iff.mp assembled
      refine ⟨rfl, _, _, rfl, startPlace.symm, stopPlace.symm, targetPlace.symm, ?_⟩
      rw [caught]
      rfl
  | some name =>
      obtain ⟨number, interned, named⟩ := Pool.internClass_of_known sound (known name caught)
      rw [caught] at assembled
      simp only at assembled
      rw [Writing.intern_bind_eq_ok_iff, interned] at assembled
      have stands : (Constant.classRef name).StandsAt pool.entries number := named
      obtain ⟨rfl, rfl⟩ := Writing.pure_eq_ok_iff.mp assembled
      refine ⟨rfl, _, _, rfl, startPlace.symm, stopPlace.symm, targetPlace.symm, ?_⟩
      rw [caught]
      exact ⟨sound.ne_zero stands, named⟩

/-- Handlers whose ranges are not empty keep their rows. -/
theorem handlerRows_of_mapM
    {handlers : List Handler}
    {results : List (Option (HandlerEntry × HandlerRange))}
    (sound : pool.Sound)
    (ordered : ∀ handler ∈ handlers, labels.place handler.start < labels.place handler.stop)
    (known :
      ∀ handler ∈ handlers, ∀ name,
        handler.catchType = some name → pool.Knows (.classRef name))
    (assembled : handlers.mapM (assembleHandler labels) pool = .ok (results, after)) :
    after = pool ∧
      List.Forall₂ (HandlerRow pool labels) handlers ((results.filterMap id).map Prod.fst) := by
  have each (handler : Handler) (member : handler ∈ handlers)
      (result : Option (HandlerEntry × HandlerRange)) (after : Pool)
      (written : assembleHandler labels handler pool = .ok (result, after)) :=
    handlerRow_of_assembleHandler sound (ordered handler member) (known handler member) written
  obtain ⟨unchanged, row⟩ :=
    Writing.row_of_mapM (fun handler member result after written =>
      (each handler member result after written).1) assembled
  refine ⟨unchanged, ?_⟩
  clear assembled ordered known
  induction row with
  | nil => exact .nil
  | cons first _ inductionHypothesis =>
      obtain ⟨_, entry, range, rfl, rows⟩ := each _ (by simp) _ _ first
      exact .cons rows
        (inductionHypothesis fun handler member => each handler (by simp [member]))

theorem lineRows_of_assembleLines
    {marks : List (UInt16 × Label)}
    {entries : List LineEntry}
    (assembled : assembleLines labels marks = .ok entries) :
    List.Forall₂ (LineRow labels) marks entries := by
  refine (mapM_eq_ok_iff.mp assembled).imp ?_
  intro mark entry written
  obtain ⟨start, placed, same⟩ := bind_eq_ok_iff.mp written
  cases same
  exact ⟨(PlacedLabels.place_of_offset placed).symm, rfl⟩

theorem localRow_of_assembleLocal
    {entry : LocalVariable}
    {row : LocalEntry}
    (sound : pool.Sound)
    (ordered : labels.place entry.start ≤ labels.place entry.stop)
    (named : pool.Knows (.utf8 entry.name))
    (described : pool.Knows (.utf8 entry.descriptor))
    (assembled : assembleLocal labels entry pool = .ok (row, after)) :
    after = pool ∧ LocalRow pool labels entry row := by
  obtain ⟨start, startPlaced, assembled⟩ := Writing.lift_bind_eq_ok_iff.mp assembled
  obtain ⟨stop, stopPlaced, assembled⟩ := Writing.lift_bind_eq_ok_iff.mp assembled
  have startPlace := PlacedLabels.place_of_offset startPlaced
  have stopPlace := PlacedLabels.place_of_offset stopPlaced
  obtain ⟨name, nameInterned, nameFound⟩ := Pool.internText_of_known sound named
  obtain ⟨descriptor, descriptorInterned, descriptorFound⟩ :=
    Pool.internText_of_known sound described
  rw [Writing.intern_bind_eq_ok_iff, nameInterned, Writing.intern_bind_eq_ok_iff,
    descriptorInterned] at assembled
  have below : start ≤ stop := by
    rw [UInt16.le_iff_toNat_le]
    omega
  simp only [if_pos below] at assembled
  obtain ⟨rfl, rfl⟩ := Writing.pure_eq_ok_iff.mp assembled
  refine ⟨rfl, startPlace.symm, ?_, nameFound, descriptorFound, rfl⟩
  show start.toNat + (stop - start).toNat = labels.place entry.stop
  rw [UInt16.toNat_sub_of_le _ _ below]
  omega

theorem localRows_of_mapM
    {entries : List LocalVariable}
    {rows : List LocalEntry}
    (sound : pool.Sound)
    (ordered : ∀ entry ∈ entries, labels.place entry.start ≤ labels.place entry.stop)
    (known :
      ∀ entry ∈ entries, pool.Knows (.utf8 entry.name) ∧ pool.Knows (.utf8 entry.descriptor))
    (assembled : entries.mapM (assembleLocal labels) pool = .ok (rows, after)) :
    after = pool ∧ List.Forall₂ (LocalRow pool labels) entries rows := by
  have each (entry : LocalVariable) (member : entry ∈ entries) (row : LocalEntry) (after : Pool)
      (written : assembleLocal labels entry pool = .ok (row, after)) :=
    localRow_of_assembleLocal sound (ordered entry member) (known entry member).1
      (known entry member).2 written
  obtain ⟨unchanged, row⟩ :=
    Writing.row_of_mapM (fun entry member row after written =>
      (each entry member row after written).1) assembled
  refine ⟨unchanged, ?_⟩
  clear assembled ordered known
  induction row with
  | nil => exact .nil
  | cons first _ inductionHypothesis =>
      exact .cons (each _ (by simp) _ _ first).2
        (inductionHypothesis fun entry member => each entry (by simp [member]))

/-- Where the frame after one at an offset is measured from. -/
def baseAfter : Option UInt16 → Nat
  | none => 0
  | some previous => previous.toNat + 1

theorem baseAfter_add_deltaFrom
    {previous : Option UInt16}
    {offset : UInt16}
    (behind : previous.any (offset ≤ ·) = false) :
    baseAfter previous + (FrameState.deltaFrom previous offset).toNat = offset.toNat := by
  cases previous with
  | none => exact Nat.zero_add _
  | some previous =>
      have above : previous < offset := by simpa using behind
      have gap : previous.toNat < offset.toNat := UInt16.lt_iff_toNat_lt.mp above
      have first : (offset - previous).toNat = offset.toNat - previous.toNat :=
        UInt16.toNat_sub_of_le _ _ (UInt16.le_of_lt above)
      have second : (offset - previous - 1).toNat = (offset - previous).toNat - 1 :=
        UInt16.toNat_sub_of_le _ _ (by
          rw [UInt16.le_iff_toNat_le, first]
          show 1 ≤ _
          omega)
      rw [FrameState.deltaFrom, baseAfter, second, first]
      omega

theorem frameRows_of_relocateFrames
    {done frames : List StackMap.Frame}
    {previous : Option UInt16}
    {placed : List PlacedFrame}
    (relocated : relocateFrames labels done previous placed = .ok frames) :
    ∃ later offsets,
      frames = done.reverse ++ later ∧
        FrameRows labels (baseAfter previous) placed later offsets := by
  induction placed generalizing done previous with
  | nil =>
      cases relocated
      exact ⟨[], [], by simp, .nil _⟩
  | cons first rest inductionHypothesis =>
      obtain ⟨offset, found, relocated⟩ := bind_eq_ok_iff.mp relocated
      have place := PlacedLabels.place_of_offset found
      split at relocated
      · cases relocated
      · rename_i behind
        have behind : previous.any (offset ≤ ·) = false := by simpa using behind
        obtain ⟨later, offsets, rfl, rows⟩ := inductionHypothesis relocated
        refine
          ⟨first.frame.withDelta (FrameState.deltaFrom previous offset) :: later,
            (labels.place first.label,
              first.frame.withDelta (FrameState.deltaFrom previous offset)) :: offsets,
            by simp, .cons ?_ ?_ ?_⟩
        · rw [StackMap.Frame.delta_withDelta]
        · rw [StackMap.Frame.delta_withDelta, baseAfter_add_deltaFrom behind, place]
        · rw [place]
          exact rows

end Rows

/-! ## Where rows refer to -/

section Places

variable {pool : Pool} {labels : PlacedLabels}

theorem handlerPlaces_eq
    {handlers : List Handler}
    {entries : List HandlerEntry}
    (rows : List.Forall₂ (HandlerRow pool labels) handlers entries) :
    (entries.flatMap fun entry =>
        [entry.start.toNat, entry.stop.toNat, entry.handler.toNat]) =
      (handlers.flatMap fun handler =>
        [handler.start, handler.stop, handler.handler]).map labels.place := by
  induction rows with
  | nil => rfl
  | cons first _ inductionHypothesis =>
      rw [List.flatMap_cons, List.flatMap_cons, List.map_append, inductionHypothesis,
        first.start, first.stop, first.target]
      rfl

theorem linePlaces_eq
    {marks : List (UInt16 × Label)}
    {entries : List LineEntry}
    (rows : List.Forall₂ (LineRow labels) marks entries) :
    entries.map (fun entry => entry.start.toNat) = (marks.map Prod.snd).map labels.place := by
  induction rows with
  | nil => rfl
  | cons first _ inductionHypothesis =>
      rw [List.map_cons, List.map_cons, List.map_cons, inductionHypothesis, first.start]

/-- The lines at an offset are those marked at the labels that are there. -/
theorem linesOf_eq
    {marks : List (UInt16 × Label)}
    {entries : List LineEntry}
    (rows : List.Forall₂ (LineRow labels) marks entries)
    (offset : Nat) :
    (entries.filter fun entry => entry.start.toNat == offset).map LineEntry.line =
      (marks.filter fun mark => labels.place mark.2 == offset).map Prod.fst := by
  induction rows with
  | nil => rfl
  | @cons mark entry _ _ first _ inductionHypothesis =>
      by_cases here : labels.place mark.2 = offset
      · have started : entry.start.toNat = offset := first.start.trans here
        rw [List.filter_cons_of_pos (by simp [started]), List.filter_cons_of_pos (by simp [here]),
          List.map_cons, List.map_cons, inductionHypothesis, first.line]
      · have started : entry.start.toNat ≠ offset := fun same => here (first.start.symm.trans same)
        rw [List.filter_cons_of_neg (by simp [started]), List.filter_cons_of_neg (by simp [here]),
          inductionHypothesis]

theorem localPlaces_eq
    {locals : List LocalVariable}
    {entries : List LocalEntry}
    (rows : List.Forall₂ (LocalRow pool labels) locals entries) :
    (entries.flatMap fun entry =>
        [entry.start.toNat, entry.start.toNat + entry.length.toNat]) =
      (locals.flatMap fun entry => [entry.start, entry.stop]).map labels.place := by
  induction rows with
  | nil => rfl
  | cons first _ inductionHypothesis =>
      rw [List.flatMap_cons, List.flatMap_cons, List.map_append, inductionHypothesis,
        first.stop, first.start]
      rfl

theorem FrameRows.places_eq
    {base : Nat}
    {placed : List PlacedFrame}
    {frames : List StackMap.Frame}
    {offsets : List (Nat × StackMap.Frame)}
    (rows : FrameRows labels base placed frames offsets) :
    offsets.map Prod.fst = (placed.map PlacedFrame.label).map labels.place := by
  induction rows with
  | nil base => rfl
  | cons _ _ _ inductionHypothesis =>
      rw [List.map_cons, List.map_cons, List.map_cons, inductionHypothesis]

end Places

/-- Laid out instructions with the places of their labels for the labels. -/
def insnsAt
    (labels : PlacedLabels)
    (rows : List (Nat × Spot × Insn)) : List (Nat × Insn) :=
  rows.map fun row => (row.1, row.2.2.mapTargets labels.place)

/-! ## Assembling -/

/-- Laying out instructions that name nothing needs no constant. -/
theorem pool_eq_of_foldlM
    {nodes : List Node}
    {before laidOut : LaidOut}
    {pool after : Pool}
    (indexed : ∀ insn ∈ Node.insns nodes, insn.Indexed)
    (laid : nodes.foldlM LaidOut.add before pool = .ok (laidOut, after)) :
    after = pool := by
  induction nodes generalizing before with
  | nil =>
      cases laid
      rfl
  | cons node nodes inductionHypothesis =>
      cases node with
      | label label => exact inductionHypothesis (by simpa [Node.insns] using indexed) laid
      | line number start => exact inductionHypothesis (by simpa [Node.insns] using indexed) laid
      | insn insn =>
          have shape : Node.insns (.insn insn :: nodes) = insn :: Node.insns nodes := rfl
          simp only [shape, List.mem_cons, forall_eq_or_imp] at indexed
          obtain ⟨cells, middle, size, encoded, _, _, later⟩ :=
            LaidOut.foldlM_insn_eq_ok_iff.mp laid
          rw [Insn.encode_of_indexed indexed.1] at encoded
          cases encoded
          exact inductionHypothesis indexed.2 later

/-- What a regular body was assembled into. -/
structure Reassembled
    (pool : Pool)
    (body : Body)
    (steps : List (Spot × Insn))
    (last : Option Label)
    (labels : PlacedLabels)
    (rows : List (Nat × Spot × Insn))
    (stop : Nat)
    (raw : CodeAttribute Attribute)
    (tables : Tables) : Prop where
  relaid : Relaid steps last labels rows stop
  size : raw.code.length = stop
  decodes : Insn.Decodes stop 0 raw.code (insnsAt labels rows)
  maxStack : raw.maxStack = body.maxStack
  maxLocals : raw.maxLocals = body.maxLocals
  handlers : List.Forall₂ (HandlerRow pool labels) body.handlers raw.handlers
  lines : List.Forall₂ (LineRow labels) (LaidOut.lineMarks body.nodes) tables.lines
  locals : List.Forall₂ (LocalRow pool labels) body.locals tables.locals
  frames : FrameRows labels 0 body.frames (tables.frames.map Prod.snd) tables.frames
  others : tables.attributes = body.attributes
  attributes :
    raw.attributes =
      tableAttribute .lineNumberTable tables.lines
        ++ tableAttribute .localVariableTable tables.locals
        ++ tableAttribute .stackMapTable (tables.frames.map Prod.snd) ++ tables.attributes

namespace Regular

variable
  {pool : Pool} {body : Body} {steps : List (Spot × Insn)} {last : Option Label}

theorem labels_eq
    (regular : body.Regular pool steps last)
    {rows : List (Nat × Spot × Insn)}
    (sameSteps : rows.map Prod.snd = steps)
    (stop : Nat) :
    (markedOf rows last stop).map Prod.snd = Node.labels body.nodes := by
  rw [regular.nodes, Node.labels_ofSteps, ← sameSteps, markedOf, List.map_append,
    List.filterMap_map, List.map_filterMap]
  congr 1
  · refine List.filterMap_congr fun row _ => ?_
    cases label : row.2.1.label <;> simp [label]
  · cases last <;> rfl

theorem mem_marked_of_mem_referred
    (regular : body.Regular pool steps last)
    {rows : List (Nat × Spot × Insn)}
    {labels : PlacedLabels}
    {stop : Nat}
    {label : Label}
    (relaid : Relaid steps last labels rows stop)
    (referred : label ∈ body.referredLabels) :
    label ∈ (markedOf rows last stop).map Prod.snd := by
  rw [regular.labels_eq relaid.steps]
  exact (regular.referred label).mp referred

/-- A label in front of an instruction lies inside the body. -/
theorem place_lt
    {rows : List (Nat × Spot × Insn)}
    {labels : PlacedLabels}
    {stop : Nat}
    {label : Label}
    (relaid : Relaid steps last labels rows stop)
    (inFront : label ∈ steps.filterMap (·.1.label)) :
    labels.place label < stop := by
  obtain ⟨step, listed, found⟩ := List.mem_filterMap.mp inFront
  rw [← relaid.steps] at listed
  obtain ⟨row, member, rfl⟩ := List.mem_map.mp listed
  rw [relaid.place_eq ((relaid.mem_markedOf_row_iff member label).mpr found)]
  exact (List.pairwise_append.mp relaid.ascending).2.2 row.1 (List.mem_map_of_mem member) stop
    (by simp)

theorem mem_referred_handlers
    {handler : Handler}
    (member : handler ∈ body.handlers)
    {label : Label}
    (named : label ∈ [handler.start, handler.stop, handler.handler]) :
    label ∈ body.referredLabels := by
  simp only [referredLabels, List.mem_append, List.mem_flatMap]
  exact .inl (.inl (.inl (.inr ⟨handler, member, named⟩)))

theorem mem_referred_locals
    {entry : LocalVariable}
    (member : entry ∈ body.locals)
    {label : Label}
    (named : label ∈ [entry.start, entry.stop]) :
    label ∈ body.referredLabels := by
  simp only [referredLabels, List.mem_append, List.mem_flatMap]
  exact .inl (.inr ⟨entry, member, named⟩)

theorem mem_referred_lines
    {mark : UInt16 × Label}
    (member : mark ∈ LaidOut.lineMarks body.nodes) :
    mark.2 ∈ body.referredLabels := by
  simp only [referredLabels, List.mem_append]
  exact .inl (.inl (.inr (List.mem_map_of_mem member)))

theorem mem_referred_frames
    {placed : PlacedFrame}
    (member : placed ∈ body.frames) :
    placed.label ∈ body.referredLabels := by
  simp only [referredLabels, List.mem_append]
  exact .inr (List.mem_map_of_mem member)

/-- Laying out a regular body gives rows, at offsets inside the longest body. -/
theorem relaid_of_lays
    (regular : body.Regular pool steps last)
    {placed : List (Nat × Node)}
    {cells : List Cell}
    {stop : Nat}
    (lays : Lays Insn.Numbered 0 body.nodes placed cells stop)
    (short : stop ≤ maxCodeLength) :
    ∃ rows,
      Relaid steps last (LaidOut.placeLabels ∅ placed) rows stop ∧
        Node.placedInsns placed = rows.map fun row => (row.1, row.2.2) := by
  have indexed : ∀ step ∈ steps, step.2.Indexed :=
    fun step member => (regular.insns step member).2.1
  have distinct : ((Node.placedLabels placed).map Prod.snd).Nodup := by
    rw [lays.map_placedLabels, regular.numbered]
    exact List.nodup_range
  rw [regular.nodes] at lays
  obtain ⟨rows, laid⟩ := exists_laidRows lays indexed
  have numbered := regular.numbered
  rw [← regular.labels_eq laid.steps stop] at numbered
  refine ⟨rows, ⟨laid.steps, laid.ascending, short, ?_, ?_⟩, laid.insns⟩
  · rintro ⟨offset, label⟩ member
    rw [← laid.labels] at member
    rw [PlacedLabels.offset, LaidOut.getElem?_placeLabels distinct member]
  · simpa using numbered

theorem indexed_insns
    (regular : body.Regular pool steps last) :
    ∀ insn ∈ Node.insns body.nodes, insn.Indexed := by
  rw [regular.nodes, Node.insns_ofSteps]
  intro insn member
  obtain ⟨step, listed, rfl⟩ := List.mem_map.mp member
  exact (regular.insns step listed).2.1

/-- The bytes of a regular body are decoded as its instructions at their new offsets. -/
theorem decodes_of_links
    (regular : body.Regular pool steps last)
    {placed : List (Nat × Node)}
    {cells : List Cell}
    {labels : PlacedLabels}
    {rows : List (Nat × Spot × Insn)}
    {stop : Nat}
    {code : Bytes}
    (lays : Lays Insn.Numbered 0 body.nodes placed cells stop)
    (relaid : Relaid steps last labels rows stop)
    (insns : Node.placedInsns placed = rows.map fun row => (row.1, row.2.2))
    (linked : Cell.Links labels cells code) :
    Insn.Decodes stop 0 code (insnsAt labels rows) ∧
      code.length = stop := by
  have wellFormed : ∀ insn ∈ Node.insns body.nodes, insn.WellFormed := by
    rw [regular.nodes, Node.insns_ofSteps]
    intro insn member
    obtain ⟨step, listed, rfl⟩ := List.mem_map.mp member
    exact (regular.insns step listed).1
  have inside :
      ∀ insn ∈ Node.insns body.nodes, ∀ target ∈ insn.targets, labels.place target < stop := by
    rw [regular.nodes, Node.insns_ofSteps]
    intro insn member target targeted
    obtain ⟨step, listed, rfl⟩ := List.mem_map.mp member
    exact place_lt relaid ((regular.insns step listed).2.2.2 target targeted)
  obtain ⟨decodes, length⟩ := lays.decodes_of_wellFormed linked relaid.short wellFormed inside
  rw [insns, List.map_map] at decodes
  exact ⟨decodes, by simpa using length⟩

theorem handlerRows
    (regular : body.Regular pool steps last)
    {labels : PlacedLabels}
    {rows : List (Nat × Spot × Insn)}
    {stop : Nat}
    {results : List (Option (HandlerEntry × HandlerRange))}
    {after : Pool}
    (sound : pool.Sound)
    (relaid : Relaid steps last labels rows stop)
    (assembled : body.handlers.mapM (assembleHandler labels) pool = .ok (results, after)) :
    after = pool ∧
      List.Forall₂ (HandlerRow pool labels) body.handlers
        ((results.filterMap id).map Prod.fst) := by
  refine handlerRows_of_mapM sound ?_ ?_ assembled
  · intro handler member
    have start :=
      regular.mem_marked_of_mem_referred relaid
        (mem_referred_handlers member (show handler.start ∈ _ by simp))
    have finish :=
      regular.mem_marked_of_mem_referred relaid
        (mem_referred_handlers member (show handler.stop ∈ _ by simp))
    exact (relaid.place_lt_iff start finish).mpr (regular.handlers handler member).1
  · exact fun handler member => (regular.handlers handler member).2.2

theorem localRows
    (regular : body.Regular pool steps last)
    {labels : PlacedLabels}
    {rows : List (Nat × Spot × Insn)}
    {stop : Nat}
    {entries : List LocalEntry}
    {after : Pool}
    (sound : pool.Sound)
    (relaid : Relaid steps last labels rows stop)
    (assembled : body.locals.mapM (assembleLocal labels) pool = .ok (entries, after)) :
    after = pool ∧ List.Forall₂ (LocalRow pool labels) body.locals entries := by
  refine localRows_of_mapM sound ?_ ?_ assembled
  · intro entry member
    have start :=
      regular.mem_marked_of_mem_referred relaid
        (mem_referred_locals member (show entry.start ∈ _ by simp))
    have finish :=
      regular.mem_marked_of_mem_referred relaid
        (mem_referred_locals member (show entry.stop ∈ _ by simp))
    refine Nat.not_lt.mp fun below => ?_
    have backwards := (relaid.place_lt_iff finish start).mp below
    exact absurd backwards (Nat.not_lt.mpr (regular.locals entry member).1)
  · exact fun entry member => (regular.locals entry member).2

/-- Assembling a regular body needs no constant. -/
theorem reassembled_of_assemble
    (regular : body.Regular pool steps last)
    {context : WriteContext}
    {access : UInt16}
    {name descriptor : String}
    {raw : CodeAttribute Attribute}
    {after : Pool}
    (sound : pool.Sound)
    (nothing : context.options = ⟨false, false⟩)
    (assembled : body.assemble context access name descriptor pool = .ok (raw, after)) :
    after = pool ∧
      ∃ labels rows stop tables, Reassembled pool body steps last labels rows stop raw tables := by
  obtain ⟨⟨laidOut, _, laid, linked, _, _, handled, handlers, _, _, framed, lines, lined, locals,
    localed, attributes⟩⟩ := nonempty_assembling assembled
  obtain rfl := pool_eq_of_foldlM regular.indexed_insns laid
  obtain ⟨placed, cells, lays, cellsShape, labelsShape, linesShape, short, _⟩ :=
    LaidOut.lays_of_foldlM laid (Nat.zero_le _)
  have lays := lays.imp fun _ _ finds => finds.1
  obtain ⟨rows, relaid, insns⟩ := regular.relaid_of_lays lays short
  rw [← show laidOut.labels = LaidOut.placeLabels ∅ placed from labelsShape] at relaid
  have cellsLinked : Cell.Links laidOut.labels cells raw.code := by
    rw [← show laidOut.cells.reverse.flatten = cells from cellsShape]
    exact LaidOut.links_of_link linked
  obtain ⟨decodes, length⟩ := regular.decodes_of_links lays relaid insns cellsLinked
  obtain ⟨rfl, handlerRows⟩ := regular.handlerRows sound relaid handled
  obtain ⟨relocated, maxStack, maxLocals, rfl⟩ := relocated_of_nothing nothing framed
  obtain ⟨later, offsets, rfl, frameRows⟩ := frameRows_of_relocateFrames relocated
  have lineRows := lineRows_of_assembleLines lined
  rw [show laidOut.lines.reverse = LaidOut.lineMarks body.nodes from linesShape] at lineRows
  obtain ⟨rfl, localRows⟩ := regular.localRows sound relaid localed
  refine ⟨rfl, laidOut.labels, rows, laidOut.size, ⟨lines, locals, offsets, body.attributes⟩, {
    relaid
    size := length
    decodes
    maxStack
    maxLocals
    handlers := handlers ▸ handlerRows
    lines := lineRows
    locals := localRows
    frames := ?_
    others := rfl
    attributes := ?_ }⟩
  · rw [frameRows.map_snd]
    exact frameRows
  · rw [frameRows.map_snd]
    exact attributes

end Regular

/-! ## The bytes of an assembled body -/

/-- The rows of each table of a body can be counted in two bytes. -/
structure FewRows (body : Body) : Prop where
  lines : (LaidOut.lineMarks body.nodes).length < 2 ^ 16
  locals : body.locals.length < 2 ^ 16
  frames : body.frames.length < 2 ^ 16

theorem length_tableAttribute
    {α β : Type}
    {make : List α → Attribute}
    {rows : List α}
    {sources : List β}
    (length : rows.length = sources.length) :
    (tableAttribute make rows).length = if sources.isEmpty then 0 else 1 := by
  cases rows with
  | nil =>
      have none := List.eq_nil_of_length_eq_zero length.symm
      rw [none]
      rfl
  | cons row rows =>
      cases sources with
      | nil => cases length
      | cons source sources => rfl

theorem fits_of_mem_tableAttribute
    {α : Type}
    {make : List α → Attribute}
    {rows : List α}
    {pool : Pool}
    {item : Attribute}
    (member : item ∈ tableAttribute make rows)
    (fits : rows ≠ [] → (make rows).Fits pool) :
    item.Fits pool := by
  cases rows with
  | nil => cases member
  | cons row rows =>
      rw [List.mem_singleton.mp member]
      exact fits (List.cons_ne_nil row rows)

theorem FrameRows.exists_moved
    {labels : PlacedLabels}
    {base : Nat}
    {placed : List PlacedFrame}
    {frames : List StackMap.Frame}
    {offsets : List (Nat × StackMap.Frame)}
    (rows : FrameRows labels base placed frames offsets) :
    frames.length = placed.length ∧
      ∀ frame ∈ frames, ∃ first ∈ placed, frame = first.frame.withDelta frame.delta := by
  induction rows with
  | nil base => simp
  | @cons base first frame rest frames offsets moved _ _ inductionHypothesis =>
      obtain ⟨length, others⟩ := inductionHypothesis
      refine ⟨by simp [length], ?_⟩
      intro other member
      rcases List.mem_cons.mp member with rfl | member
      · exact ⟨first, by simp, moved⟩
      · obtain ⟨source, listed, same⟩ := others other member
        exact ⟨source, by simp [listed], same⟩

namespace Reassembled

variable
  {pool : Pool} {body : Body} {steps : List (Spot × Insn)} {last : Option Label}
  {labels : PlacedLabels} {rows : List (Nat × Spot × Insn)} {stop : Nat}
  {raw : CodeAttribute Attribute} {tables : Tables}

theorem headFits
    (written : Reassembled pool body steps last labels rows stop raw tables)
    (regular : body.Regular pool steps last) :
    Attribute.HeadFits raw := by
  refine ⟨?_, ?_, ?_⟩
  · have some : rows ≠ [] := by
      rintro rfl
      exact regular.nonempty written.relaid.steps.symm
    obtain ⟨row, member⟩ := List.exists_mem_of_ne_nil rows some
    have below :=
      (List.pairwise_append.mp written.relaid.ascending).2.2 row.1 (List.mem_map_of_mem member)
        stop (by simp)
    rw [written.size]
    omega
  · rw [written.size]
    exact written.relaid.short
  · rw [← written.handlers.length_eq]
    exact regular.fewHandlers

theorem length_attributes
    (written : Reassembled pool body steps last labels rows stop raw tables)
    (regular : body.Regular pool steps last) :
    raw.attributes.length < 2 ^ 16 := by
  have few := regular.fewAttributes
  have framesLength : (tables.frames.map Prod.snd).length = body.frames.length :=
    written.frames.exists_moved.1
  rw [written.attributes]
  simp only [List.length_append, written.others]
  rw [length_tableAttribute written.lines.length_eq.symm,
    length_tableAttribute written.locals.length_eq.symm, length_tableAttribute framesLength]
  exact few

theorem fits
    (written : Reassembled pool body steps last labels rows stop raw tables)
    (regular : body.Regular pool steps last)
    (few : body.FewRows)
    (item : Attribute)
    (member : item ∈ raw.attributes) :
    item.Fits pool := by
  obtain ⟨framesLength, moved⟩ := written.frames.exists_moved
  rw [written.attributes, List.mem_append, List.mem_append, List.mem_append] at member
  rcases member with ((member | member) | member) | member
  · refine fits_of_mem_tableAttribute member fun some => ?_
    have length := written.lines.length_eq
    refine .leaf (regular.linesKnown ?_) ?_
    · intro none
      rw [none] at length
      exact some (List.eq_nil_of_length_eq_zero length.symm)
    · show tables.lines.length < 2 ^ 16
      rw [← length]
      exact few.lines
  · refine fits_of_mem_tableAttribute member fun some => ?_
    have length := written.locals.length_eq
    refine .leaf (regular.localsKnown ?_) ?_
    · intro none
      rw [none] at length
      exact some (List.eq_nil_of_length_eq_zero length.symm)
    · show tables.locals.length < 2 ^ 16
      rw [← length]
      exact few.locals
  · refine fits_of_mem_tableAttribute member fun some => ?_
    refine .leaf (regular.framesKnown ?_) ⟨?_, ?_⟩
    · intro none
      rw [none] at framesLength
      exact some (List.eq_nil_of_length_eq_zero framesLength)
    · rw [framesLength]
      exact few.frames
    · intro frame listed
      obtain ⟨first, source, same⟩ := moved frame listed
      rw [same]
      exact (regular.frames first source).2 frame.delta
  · rw [written.others] at member
    exact (regular.attributes item member).1

end Reassembled

end Body
end JvmClass
