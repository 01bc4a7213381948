import JvmClass.Proofs.Body.Tables

namespace JvmClass.Body

/-!
# Decoded bodies are regular

Everything that a body refers to was checked to be where an instruction starts
or where the body ends, so numbering what is referred to numbers labels in front
of instructions.
-/

namespace Decoded

/-- Where instructions start and where the body ends. -/
def offsets (decoded : Decoded) : List Nat :=
  decoded.insns.map Prod.fst ++ [decoded.size]

/-- The body was decoded from these bytes. -/
structure DecodedFrom
    (decoded : Decoded)
    (code : Bytes) : Prop where
  size : decoded.size = code.length
  decodes : Insn.Decodes decoded.size 0 code decoded.insns
  ascending : decoded.offsets.Pairwise (· < ·)
  bounded : ∀ offset ∈ decoded.offsets, offset ≤ decoded.size
  boundary : ∀ offset, decoded.isBoundary offset = true ↔ offset ∈ decoded.offsets

theorem decodedFrom_of_decodes
    {code : Bytes}
    {insns : List (Nat × Insn)}
    (decodes : Insn.Decodes code.length 0 code insns) :
    ofCode code =
        .ok ⟨code.length, insns,
          Labeling.mark code.length (code.length :: insns.map Prod.fst)⟩ ∧
      DecodedFrom
        ⟨code.length, insns, Labeling.mark code.length (code.length :: insns.map Prod.fst)⟩
        code := by
  obtain ⟨ascending, inside⟩ := decodes.placed
  have small : ∀ offset ∈ insns.map Prod.fst, offset < code.length := by
    intro offset member
    have := inside offset member
    omega
  refine ⟨bind_eq_ok_iff.mpr ⟨insns, Insn.decode_eq_ok_iff.mpr decodes, rfl⟩, rfl, decodes, ?_, ?_, ?_⟩
  · refine List.pairwise_append.mpr ⟨ascending, by simp, ?_⟩
    intro offset member last isLast
    rw [List.mem_singleton.mp isLast]
    exact small offset member
  · intro offset member
    rcases List.mem_append.mp member with member | member
    · exact Nat.le_of_lt (small offset member)
    · exact Nat.le_of_eq (List.mem_singleton.mp member)
  · intro offset
    unfold isBoundary
    rw [Labeling.mark_iff]
    simp only [offsets, List.mem_cons, List.mem_append, List.not_mem_nil, or_false]
    constructor
    · rintro ⟨member, _⟩
      exact member.symm
    · intro member
      refine ⟨member.symm, ?_⟩
      rcases member with member | rfl
      · exact Nat.le_of_lt (small offset member)
      · exact Nat.le_refl _

theorem decodedFrom_of_ofCode
    {code : Bytes}
    {decoded : Decoded}
    (read : ofCode code = .ok decoded) :
    decoded.DecodedFrom code := by
  obtain ⟨insns, decodes, same⟩ := bind_eq_ok_iff.mp read
  cases same
  exact (decodedFrom_of_decodes (Insn.decode_eq_ok_iff.mp decodes)).2

/-- The instructions are those that the bytes are decoded to. -/
theorem decode_of_ofCode
    {code : Bytes}
    {decoded : Decoded}
    (read : ofCode code = .ok decoded) :
    Insn.decode code = .ok decoded.insns := by
  have decodedFrom := decodedFrom_of_ofCode read
  exact Insn.decode_eq_ok_iff.mpr (decodedFrom.size ▸ decodedFrom.decodes)

/-- Inside the body a boundary is the offset of an instruction. -/
theorem DecodedFrom.exists_insn
    {decoded : Decoded}
    {code : Bytes}
    {offset : Nat}
    (decodedFrom : decoded.DecodedFrom code)
    (boundary : decoded.isBoundary offset = true)
    (inside : offset < decoded.size) :
    ∃ item, (offset, item) ∈ decoded.insns := by
  rcases List.mem_append.mp ((decodedFrom.boundary offset).mp boundary) with member | member
  · obtain ⟨⟨place, item⟩, listed, rfl⟩ := List.mem_map.mp member
    exact ⟨item, listed⟩
  · have := List.mem_singleton.mp member
    omega

end Decoded

/-! ## Labels of a decoded body -/

section Labels

variable {decoded : Decoded} {code : Bytes} {references : List Nat}

/-- The offsets referred to, in ascending order. -/
def marksOf
    (decoded : Decoded)
    (references : List Nat) : List Nat :=
  decoded.offsets.filter (· ∈ references)

theorem mem_marksOf_iff
    (decodedFrom : decoded.DecodedFrom code)
    (boundaries : ∀ offset ∈ references, decoded.isBoundary offset = true)
    (offset : Nat) :
    offset ∈ references ↔ offset ∈ marksOf decoded references := by
  simp only [marksOf, List.mem_filter, decide_eq_true_eq]
  constructor
  · intro member
    exact ⟨(decodedFrom.boundary offset).mp (boundaries offset member), member⟩
  · exact And.right

theorem ascending_marksOf
    (decodedFrom : decoded.DecodedFrom code) :
    (marksOf decoded references).Pairwise (· < ·) :=
  decodedFrom.ascending.sublist List.filter_sublist

theorem le_size_of_mem_marksOf
    (decodedFrom : decoded.DecodedFrom code)
    (offset : Nat)
    (member : offset ∈ marksOf decoded references) :
    offset ≤ decoded.size :=
  decodedFrom.bounded offset (List.mem_filter.mp member).1

/-- A label is numbered by the place of its offset among those referred to. -/
theorem getElem?_marksOf
    (decodedFrom : decoded.DecodedFrom code)
    (boundaries : ∀ offset ∈ references, decoded.isBoundary offset = true)
    {offset : Nat}
    (member : offset ∈ references) :
    (marksOf decoded references)[
        (Labeling.ofOffsets decoded.size references).labelAt offset]? = some offset := by
  obtain ⟨place, inside, same⟩ :=
    List.getElem_of_mem ((mem_marksOf_iff decodedFrom boundaries offset).mp member)
  have placed : (marksOf decoded references)[place]? = some offset := by
    rw [List.getElem?_eq_getElem inside, same]
  rw [Labeling.labelAt_eq (ascending_marksOf decodedFrom)
    (mem_marksOf_iff decodedFrom boundaries) (le_size_of_mem_marksOf decodedFrom) placed, placed]

theorem label?_eq
    (decodedFrom : decoded.DecodedFrom code)
    (boundaries : ∀ offset ∈ references, decoded.isBoundary offset = true)
    (offset : Nat) :
    (Labeling.ofOffsets decoded.size references).label? offset =
      if offset ∈ references then
        some ((Labeling.ofOffsets decoded.size references).labelAt offset)
      else
        none := by
  have spec (label : Label) :
      (Labeling.ofOffsets decoded.size references).label? offset = some label ↔
        (marksOf decoded references)[label]? = some offset :=
    Labeling.label?_eq_some_iff (ascending_marksOf decodedFrom)
      (mem_marksOf_iff decodedFrom boundaries) (le_size_of_mem_marksOf decodedFrom)
  split
  · rename_i member
    exact (spec _).mpr (getElem?_marksOf decodedFrom boundaries member)
  · rename_i missing
    cases found : (Labeling.ofOffsets decoded.size references).label? offset with
    | none => rfl
    | some label =>
        have listed := List.mem_of_getElem? ((spec label).mp found)
        exact absurd ((mem_marksOf_iff decodedFrom boundaries offset).mpr listed) missing

/-- In the order in which they stand labels are numbered from zero. -/
theorem filterMap_label?_offsets
    (decodedFrom : decoded.DecodedFrom code)
    (boundaries : ∀ offset ∈ references, decoded.isBoundary offset = true) :
    decoded.offsets.filterMap (Labeling.ofOffsets decoded.size references).label? =
      List.range (marksOf decoded references).length := by
  have labels :
      decoded.offsets.filterMap (Labeling.ofOffsets decoded.size references).label? =
        (marksOf decoded references).map
          (Labeling.ofOffsets decoded.size references).labelAt := by
    rw [marksOf, ← List.filterMap_eq_map, ← List.filterMap_eq_filter, List.filterMap_filterMap]
    refine List.filterMap_congr fun offset _ => ?_
    rw [label?_eq decodedFrom boundaries offset]
    by_cases member : offset ∈ references
    · simp [member, Option.guard]
    · simp [member, Option.guard]
  rw [labels]
  refine List.ext_getElem (by simp) ?_
  intro place first second
  rw [List.getElem_map, List.getElem_range]
  exact Labeling.labelAt_eq (ascending_marksOf decodedFrom)
    (mem_marksOf_iff decodedFrom boundaries) (le_size_of_mem_marksOf decodedFrom)
    (List.getElem?_eq_getElem _)

/-- Labels are ordered as the offsets that they stand for. -/
theorem labelAt_lt_iff
    (decodedFrom : decoded.DecodedFrom code)
    (boundaries : ∀ offset ∈ references, decoded.isBoundary offset = true)
    {first second : Nat}
    (firstMember : first ∈ references)
    (secondMember : second ∈ references) :
    (Labeling.ofOffsets decoded.size references).labelAt first <
        (Labeling.ofOffsets decoded.size references).labelAt second ↔ first < second := by
  obtain ⟨firstInside, firstPlaced⟩ :=
    List.getElem?_eq_some_iff.mp (getElem?_marksOf decodedFrom boundaries firstMember)
  obtain ⟨secondInside, secondPlaced⟩ :=
    List.getElem?_eq_some_iff.mp (getElem?_marksOf decodedFrom boundaries secondMember)
  have ascending :=
    List.pairwise_iff_getElem.mp
      (ascending_marksOf decodedFrom : (marksOf decoded references).Pairwise (· < ·))
  constructor
  · intro below
    have := ascending _ _ firstInside secondInside below
    rwa [firstPlaced, secondPlaced] at this
  · intro below
    by_contra notBelow
    rcases Nat.eq_or_lt_of_le (Nat.not_lt.mp notBelow) with same | above
    · simp only [same] at secondPlaced
      omega
    · have := ascending _ _ secondInside firstInside above
      rw [firstPlaced, secondPlaced] at this
      omega

end Labels

/-! ## Decoded nodes -/

/-- The instructions of a decoded body with labels for targets and what stands in front of each. -/
def stepsOf
    (decoded : Decoded)
    (labeling : Labeling)
    (lines : Array (List UInt16)) : List (Spot × Insn) :=
  decoded.insns.map fun located =>
    (⟨labeling.label? located.1, lines.getD located.1 []⟩,
      located.2.mapTargets labeling.labelAt)

theorem labelNodes_eq
    (labeling : Labeling)
    (lines : Array (List UInt16))
    (offset : Nat) :
    labelNodes labeling lines offset =
      Spot.nodes ⟨labeling.label? offset, lines.getD offset []⟩ := by
  unfold labelNodes Spot.nodes
  cases labeling.label? offset <;> rfl

theorem nodesOf_eq
    (decoded : Decoded)
    (labeling : Labeling)
    (lines : Array (List UInt16))
    (sized : lines.size = decoded.size) :
    nodesOf decoded labeling lines =
      Node.ofSteps (stepsOf decoded labeling lines) (labeling.label? decoded.size) := by
  have noLines : lines.getD decoded.size [] = [] := by
    rw [Array.getD_eq_getD_getElem?, Array.getElem?_eq_none (by omega)]
    rfl
  have eachInsn :
      insnNodes labeling lines = fun located =>
        Spot.nodes ⟨labeling.label? located.1, lines.getD located.1 []⟩ ++
          [.insn (located.2.mapTargets labeling.labelAt)] := by
    funext located
    rw [insnNodes, labelNodes_eq]
  rw [nodesOf, eachInsn, labelNodes_eq, noLines, Node.ofSteps, stepsOf, List.flatMap_map]

/-- The labels that decoding gives to what is referred to. -/
abbrev labelingOf
    (decoded : Decoded)
    (handlers : List HandlerEntry)
    (tables : Tables) : Labeling :=
  Labeling.ofOffsets decoded.size (references decoded handlers tables)

/-- What a successful decoding has read and checked. -/
structure DecodesTo
    (pool : Pool)
    (raw : CodeAttribute Attribute)
    (body : Body)
    (decoded : Decoded)
    (tables : Tables) : Prop where
  code : Decoded.ofCode raw.code = .ok decoded
  insns : ∀ located ∈ decoded.insns, decoded.checkInsn pool located = .ok ()
  handlers : ∀ entry ∈ raw.handlers, decoded.checkHandler entry = .ok ()
  tablesRead : Tables.ofAttributes decoded raw.attributes = .ok tables
  handlersOf :
    List.Forall₂
      (fun entry handler =>
        handlerOf pool (labelingOf decoded raw.handlers tables) entry = .ok handler)
      raw.handlers body.handlers
  localsOf :
    List.Forall₂
      (fun entry result =>
        localOf pool (labelingOf decoded raw.handlers tables) entry = .ok result)
      tables.locals body.locals
  shape :
    body =
      { maxStack := raw.maxStack
        maxLocals := raw.maxLocals
        nodes :=
          nodesOf decoded (labelingOf decoded raw.handlers tables)
            (Tables.linesAt decoded.size tables.lines)
        handlers := body.handlers
        locals := body.locals
        frames :=
          tables.frames.map fun placed =>
            ⟨(labelingOf decoded raw.handlers tables).labelAt placed.1, placed.2⟩
        hints := none
        attributes := tables.attributes }

theorem ofAttribute_eq_ok_iff
    {pool : Pool}
    {raw : CodeAttribute Attribute}
    {body : Body} :
    ofAttribute pool raw = .ok body ↔ ∃ decoded tables, DecodesTo pool raw body decoded tables := by
  constructor
  · intro read
    obtain ⟨decoded, code, others⟩ := bind_eq_ok_iff.mp read
    obtain ⟨insns, others⟩ := check_bind_eq_ok_iff.mp others
    obtain ⟨handlers, others⟩ := check_bind_eq_ok_iff.mp others
    obtain ⟨tables, tablesRead, others⟩ := bind_eq_ok_iff.mp others
    obtain ⟨rows, handlersOf, others⟩ := bind_eq_ok_iff.mp others
    obtain ⟨locals, localsOf, same⟩ := bind_eq_ok_iff.mp others
    cases same
    exact ⟨decoded, tables, {
      code
      insns := forM_eq_ok_iff.mp insns
      handlers := forM_eq_ok_iff.mp handlers
      tablesRead
      handlersOf := mapM_eq_ok_iff.mp handlersOf
      localsOf := mapM_eq_ok_iff.mp localsOf
      shape := rfl }⟩
  · rintro ⟨decoded, tables, decodes⟩
    refine bind_eq_ok_iff.mpr ⟨decoded, decodes.code, ?_⟩
    refine check_bind_eq_ok_iff.mpr ⟨forM_eq_ok_iff.mpr decodes.insns, ?_⟩
    refine check_bind_eq_ok_iff.mpr ⟨forM_eq_ok_iff.mpr decodes.handlers, ?_⟩
    refine bind_eq_ok_iff.mpr ⟨tables, decodes.tablesRead, ?_⟩
    refine bind_eq_ok_iff.mpr ⟨_, mapM_eq_ok_iff.mpr decodes.handlersOf, ?_⟩
    refine bind_eq_ok_iff.mpr ⟨_, mapM_eq_ok_iff.mpr decodes.localsOf, ?_⟩
    exact congrArg Except.ok decodes.shape.symm

/-! ## Rows with labels -/

section Rows

variable {pool : Pool} {labeling : Labeling}

theorem handlerOf_eq_ok_iff
    {entry : HandlerEntry}
    {handler : Handler} :
    handlerOf pool labeling entry = .ok handler ↔
      pool.ClassOrNone entry.catchType handler.catchType ∧
        handler.start = labeling.labelAt entry.start.toNat ∧
        handler.stop = labeling.labelAt entry.stop.toNat ∧
        handler.handler = labeling.labelAt entry.handler.toNat := by
  constructor
  · intro read
    obtain ⟨catchType, caught, same⟩ := ite_bind_eq_ok_iff.mp read
    cases same
    exact ⟨Pool.classOrNone_iff.mp caught, rfl, rfl, rfl⟩
  · rintro ⟨caught, start, stop, target⟩
    obtain ⟨first, last, place, catchType⟩ := handler
    cases start
    cases stop
    cases target
    exact ite_bind_eq_ok_iff.mpr ⟨catchType, Pool.classOrNone_iff.mpr caught, rfl⟩

theorem localOf_eq_ok_iff
    {entry : LocalEntry}
    {result : LocalVariable} :
    localOf pool labeling entry = .ok result ↔
      pool.text entry.name = .ok result.name ∧ pool.text entry.descriptor = .ok result.descriptor ∧
        result.start = labeling.labelAt entry.start.toNat ∧
        result.stop = labeling.labelAt (entry.start.toNat + entry.length.toNat) ∧
        result.index = entry.index := by
  constructor
  · intro read
    obtain ⟨name, named, others⟩ := bind_eq_ok_iff.mp read
    obtain ⟨descriptor, described, same⟩ := bind_eq_ok_iff.mp others
    cases same
    exact ⟨named, described, rfl, rfl, rfl⟩
  · rintro ⟨named, described, start, stop, index⟩
    obtain ⟨name, descriptor, first, last, slot⟩ := result
    cases start
    cases stop
    cases index
    exact bind_eq_ok_iff.mpr ⟨_, named, bind_eq_ok_iff.mpr ⟨_, described, rfl⟩⟩

theorem handlerLabels_eq
    {entries : List HandlerEntry}
    {handlers : List Handler}
    (rows :
      List.Forall₂ (fun entry handler => handlerOf pool labeling entry = .ok handler)
        entries handlers) :
    (handlers.flatMap fun handler => [handler.start, handler.stop, handler.handler]) =
      (entries.flatMap fun entry =>
          [entry.start.toNat, entry.stop.toNat, entry.handler.toNat]).map labeling.labelAt := by
  induction rows with
  | nil => rfl
  | cons first _ inductionHypothesis =>
      obtain ⟨_, start, stop, target⟩ := handlerOf_eq_ok_iff.mp first
      rw [List.flatMap_cons, List.flatMap_cons, List.map_append, inductionHypothesis, start, stop,
        target]
      rfl

theorem localLabels_eq
    {entries : List LocalEntry}
    {locals : List LocalVariable}
    (rows :
      List.Forall₂ (fun entry result => localOf pool labeling entry = .ok result)
        entries locals) :
    (locals.flatMap fun entry => [entry.start, entry.stop]) =
      (entries.flatMap fun entry =>
          [entry.start.toNat, entry.start.toNat + entry.length.toNat]).map labeling.labelAt := by
  induction rows with
  | nil => rfl
  | cons first _ inductionHypothesis =>
      obtain ⟨_, _, start, stop, _⟩ := localOf_eq_ok_iff.mp first
      rw [List.flatMap_cons, List.flatMap_cons, List.map_append, inductionHypothesis, start, stop]
      rfl

end Rows

/-! ## What decoding gives -/

namespace DecodesTo

variable
  {pool : Pool} {raw : CodeAttribute Attribute} {body : Body} {decoded : Decoded} {tables : Tables}

/-- The instructions of the body with what stands in front of each. -/
abbrev readSteps
    (decoded : Decoded)
    (handlers : List HandlerEntry)
    (tables : Tables) : List (Spot × Insn) :=
  stepsOf decoded (labelingOf decoded handlers tables)
    (Tables.linesAt decoded.size tables.lines)

theorem boundaries
    (decodes : DecodesTo pool raw body decoded tables)
    (offset : Nat)
    (member : offset ∈ references decoded raw.handlers tables) :
    decoded.isBoundary offset = true := by
  have reflects := Tables.reflects_of_ofAttributes decodes.tablesRead
  simp only [references, List.mem_append, List.mem_flatMap, List.mem_map, List.mem_cons,
    List.not_mem_nil, or_false] at member
  rcases member with
    (((⟨located, listed, target⟩ | ⟨entry, listed, named⟩) | ⟨entry, listed, rfl⟩) |
      ⟨entry, listed, named⟩) | ⟨placed, listed, rfl⟩
  · exact (Decoded.checkInsn_eq_ok_iff.mp (decodes.insns located listed)).2 offset target
  · have checked := Decoded.checkHandler_eq_ok_iff.mp (decodes.handlers entry listed)
    rcases named with rfl | rfl | rfl
    · exact checked.1
    · exact checked.2.1
    · exact checked.2.2.1
  · exact (reflects.lines entry listed).1
  · rcases named with rfl | rfl
    · exact (reflects.locals entry listed).1
    · exact (reflects.locals entry listed).2
  · exact (reflects.frames placed listed).1

theorem nodes_eq
    (decodes : DecodesTo pool raw body decoded tables) :
    body.nodes = Node.ofSteps (readSteps decoded raw.handlers tables)
        ((labelingOf decoded raw.handlers tables).label? decoded.size) := by
  rw [readSteps, ← nodesOf_eq decoded _ _ (Tables.size_linesAt _ _)]
  exact congrArg Body.nodes decodes.shape

theorem stepLabels_eq
    (decoded : Decoded)
    (raw : CodeAttribute Attribute)
    (tables : Tables) :
    (readSteps decoded raw.handlers tables).filterMap (·.1.label) =
      (decoded.insns.map Prod.fst).filterMap (labelingOf decoded raw.handlers tables).label? := by
  simp only [readSteps, stepsOf, List.filterMap_map]
  rfl

theorem labels_eq
    (decodes : DecodesTo pool raw body decoded tables) :
    Node.labels body.nodes = decoded.offsets.filterMap (labelingOf decoded raw.handlers tables).label? := by
  rw [decodes.nodes_eq, Node.labels_ofSteps, stepLabels_eq, Decoded.offsets,
    List.filterMap_append]
  cases last : (labelingOf decoded raw.handlers tables).label? decoded.size <;> simp [last]

section Labels

variable {code : Bytes}

theorem label?_eq_some
    (decodes : DecodesTo pool raw body decoded tables)
    {offset : Nat}
    (member : offset ∈ references decoded raw.handlers tables) :
    (labelingOf decoded raw.handlers tables).label? offset = some ((labelingOf decoded raw.handlers tables).labelAt offset) := by
  have decodedFrom := Decoded.decodedFrom_of_ofCode decodes.code
  rw [label?_eq decodedFrom decodes.boundaries, if_pos member]

/-- The label of an offset inside the body stands in front of an instruction. -/
theorem mem_stepLabels
    (decodes : DecodesTo pool raw body decoded tables)
    {offset : Nat}
    (member : offset ∈ references decoded raw.handlers tables)
    (inside : offset < decoded.size) :
    (labelingOf decoded raw.handlers tables).labelAt offset ∈ (readSteps decoded raw.handlers tables).filterMap (·.1.label) := by
  have decodedFrom := Decoded.decodedFrom_of_ofCode decodes.code
  obtain ⟨item, listed⟩ := decodedFrom.exists_insn (decodes.boundaries offset member) inside
  rw [stepLabels_eq]
  exact List.mem_filterMap.mpr
    ⟨offset, List.mem_map_of_mem listed, decodes.label?_eq_some member⟩

/-- Labels are placed at what is referred to. -/
theorem mem_labels_iff
    (decodes : DecodesTo pool raw body decoded tables)
    (label : Label) :
    label ∈ Node.labels body.nodes ↔
      ∃ offset ∈ references decoded raw.handlers tables,
        (labelingOf decoded raw.handlers tables).labelAt offset = label := by
  have decodedFrom := Decoded.decodedFrom_of_ofCode decodes.code
  rw [decodes.labels_eq]
  simp only [List.mem_filterMap]
  constructor
  · rintro ⟨offset, _, found⟩
    rw [label?_eq decodedFrom decodes.boundaries] at found
    split at found
    · rename_i member
      exact ⟨offset, member, Option.some.inj found⟩
    · cases found
  · rintro ⟨offset, member, rfl⟩
    exact ⟨offset, (decodedFrom.boundary offset).mp (decodes.boundaries offset member),
      decodes.label?_eq_some member⟩

end Labels

/-! ## Labels that the body refers to -/

theorem targets_eq
    (decodes : DecodesTo pool raw body decoded tables) :
    (Node.insns body.nodes).flatMap Insn.targets =
      (decoded.insns.flatMap fun located => located.2.targets).map (labelingOf decoded raw.handlers tables).labelAt := by
  rw [decodes.nodes_eq, Node.insns_ofSteps, readSteps, stepsOf]
  simp [List.flatMap_map, List.map_flatMap]

theorem frames_eq
    (decodes : DecodesTo pool raw body decoded tables) :
    body.frames =
      tables.frames.map fun placed => ⟨(labelingOf decoded raw.handlers tables).labelAt placed.1, placed.2⟩ :=
  congrArg Body.frames decodes.shape

theorem frameLabels_eq
    (decodes : DecodesTo pool raw body decoded tables) :
    body.frames.map PlacedFrame.label =
      (tables.frames.map Prod.fst).map (labelingOf decoded raw.handlers tables).labelAt := by
  rw [decodes.frames_eq, List.map_map, List.map_map]
  rfl

/-- A line is marked at the label of the offset that its row names. -/
theorem mem_lineMarks_iff
    (decodes : DecodesTo pool raw body decoded tables)
    (label : Label) :
    (∃ number, (number, label) ∈ LaidOut.lineMarks body.nodes) ↔
      ∃ entry ∈ tables.lines, (labelingOf decoded raw.handlers tables).labelAt entry.start.toNat = label := by
  have decodedFrom := Decoded.decodedFrom_of_ofCode decodes.code
  have reflects := Tables.reflects_of_ofAttributes decodes.tablesRead
  rw [decodes.nodes_eq, Node.lineMarks_ofSteps]
  simp only [readSteps, stepsOf, List.mem_flatMap, List.mem_map]
  constructor
  · rintro ⟨number, _, ⟨⟨offset, item⟩, listed, rfl⟩, marked⟩
    have inside : offset < decoded.size := by
      have ordered := decodedFrom.decodes.placed.2 offset (List.mem_map_of_mem listed)
      have sized := decodedFrom.size
      omega
    cases found : (labelingOf decoded raw.handlers tables).label? offset with
    | none => simp [Spot.marks, found] at marked
    | some placed =>
        simp only [Spot.marks, found, List.mem_map, Prod.mk.injEq] at marked
        obtain ⟨_, line, rfl, rfl⟩ := marked
        rw [Tables.getD_linesAt inside] at line
        obtain ⟨entry, row, rfl⟩ := List.mem_map.mp line
        obtain ⟨member, here⟩ := List.mem_filter.mp row
        have here : entry.start.toNat = offset := by simpa using here
        refine ⟨entry, member, ?_⟩
        rw [label?_eq decodedFrom decodes.boundaries] at found
        split at found
        · rw [here]
          exact Option.some.inj found
        · cases found
  · rintro ⟨entry, member, rfl⟩
    obtain ⟨boundary, inside⟩ := reflects.lines entry member
    obtain ⟨item, listed⟩ := decodedFrom.exists_insn boundary inside
    have referred : entry.start.toNat ∈ references decoded raw.handlers tables := by
      simp only [references, List.mem_append, List.mem_map]
      exact .inl (.inl (.inr ⟨entry, member, rfl⟩))
    refine ⟨entry.line, _, ⟨_, listed, rfl⟩, ?_⟩
    simp only [Spot.marks, decodes.label?_eq_some referred, List.mem_map, Prod.mk.injEq]
    refine ⟨entry.line, ?_, rfl, trivial⟩
    rw [Tables.getD_linesAt inside]
    exact List.mem_map_of_mem (List.mem_filter.mpr ⟨member, by simp⟩)

theorem mem_referredLabels_iff
    (decodes : DecodesTo pool raw body decoded tables)
    (label : Label) :
    label ∈ body.referredLabels ↔ label ∈ Node.labels body.nodes := by
  rw [decodes.mem_labels_iff]
  have lines := decodes.mem_lineMarks_iff label
  rw [referredLabels, references, decodes.targets_eq, handlerLabels_eq decodes.handlersOf,
    localLabels_eq decodes.localsOf, decodes.frameLabels_eq]
  simp only [List.mem_append, List.mem_map, Prod.exists, exists_eq_right] at lines ⊢
  rw [lines]
  constructor
  · rintro ((((⟨offset, member, same⟩ | ⟨offset, member, same⟩) | ⟨entry, member, same⟩) |
        ⟨offset, member, same⟩) | ⟨offset, member, same⟩)
    · exact ⟨offset, .inl (.inl (.inl (.inl member))), same⟩
    · exact ⟨offset, .inl (.inl (.inl (.inr member))), same⟩
    · exact ⟨_, .inl (.inl (.inr ⟨entry, member, rfl⟩)), same⟩
    · exact ⟨offset, .inl (.inr member), same⟩
    · exact ⟨offset, .inr member, same⟩
  · rintro ⟨offset, (((member | member) | ⟨entry, member, rfl⟩) | member) | member, same⟩
    · exact .inl (.inl (.inl (.inl ⟨offset, member, same⟩)))
    · exact .inl (.inl (.inl (.inr ⟨offset, member, same⟩)))
    · exact .inl (.inl (.inr ⟨entry, member, same⟩))
    · exact .inl (.inr ⟨offset, member, same⟩)
    · exact .inr ⟨offset, member, same⟩

theorem mem_targets
    {located : Nat × Insn}
    (listed : located ∈ decoded.insns)
    {target : Nat}
    (member : target ∈ located.2.targets) :
    target ∈ references decoded raw.handlers tables := by
  simp only [references, List.mem_append, List.mem_flatMap]
  exact .inl (.inl (.inl (.inl ⟨located, listed, member⟩)))

theorem mem_handlers
    {entry : HandlerEntry}
    (listed : entry ∈ raw.handlers)
    {offset : Nat}
    (member : offset ∈ [entry.start.toNat, entry.stop.toNat, entry.handler.toNat]) :
    offset ∈ references decoded raw.handlers tables := by
  simp only [references, List.mem_append, List.mem_flatMap]
  exact .inl (.inl (.inl (.inr ⟨entry, listed, member⟩)))

theorem mem_locals
    {entry : LocalEntry}
    (listed : entry ∈ tables.locals)
    {offset : Nat}
    (member : offset ∈ [entry.start.toNat, entry.start.toNat + entry.length.toNat]) :
    offset ∈ references decoded raw.handlers tables := by
  simp only [references, List.mem_append, List.mem_flatMap]
  exact .inl (.inr ⟨entry, listed, member⟩)

theorem mem_frames
    {placed : Nat × StackMap.Frame}
    (listed : placed ∈ tables.frames) :
    placed.1 ∈ references decoded raw.handlers tables := by
  simp only [references, List.mem_append, List.mem_map]
  exact .inr ⟨placed, listed, rfl⟩

theorem checkOperand_mapTargets
    (pool : Pool)
    (insn : Insn)
    (rename : Label → Label) :
    (insn.mapTargets rename).checkOperand pool = insn.checkOperand pool := by
  cases insn <;> rfl

theorem regular_insns
    (decodes : DecodesTo pool raw body decoded tables)
    (step : Spot × Insn)
    (member : step ∈ (readSteps decoded raw.handlers tables)) :
    step.2.WellFormed ∧ step.2.Indexed ∧ step.2.checkOperand pool = .ok () ∧
      ∀ target ∈ step.2.targets, target ∈ (readSteps decoded raw.handlers tables).filterMap (·.1.label) := by
  have decodedFrom := Decoded.decodedFrom_of_ofCode decodes.code
  obtain ⟨located, listed, rfl⟩ := List.mem_map.mp member
  obtain ⟨wellFormed, inside⟩ := decodedFrom.decodes.wellFormed located listed
  have indexed := decodedFrom.decodes.indexed located listed
  have checked := (Decoded.checkInsn_eq_ok_iff.mp (decodes.insns located listed)).1
  refine ⟨Insn.wellFormed_mapTargets wellFormed, Insn.indexed_mapTargets indexed, ?_, ?_⟩
  · rw [checkOperand_mapTargets, checked]
  · intro target targeted
    rw [Insn.targets_mapTargets] at targeted
    obtain ⟨offset, origin, rfl⟩ := List.mem_map.mp targeted
    exact decodes.mem_stepLabels (mem_targets listed origin) (inside offset origin)

theorem regular_handlers
    (decodes : DecodesTo pool raw body decoded tables)
    (adopted : pool.Adopted)
    (handler : Handler)
    (member : handler ∈ body.handlers) :
    handler.start < handler.stop ∧ handler.handler ∈ (readSteps decoded raw.handlers tables).filterMap (·.1.label) ∧
      ∀ name, handler.catchType = some name → pool.Knows (.classRef name) := by
  have decodedFrom := Decoded.decodedFrom_of_ofCode decodes.code
  obtain ⟨entry, listed, row⟩ := exists_of_forall₂ decodes.handlersOf member
  obtain ⟨_, _, _, ordered, inside⟩ :=
    Decoded.checkHandler_eq_ok_iff.mp (decodes.handlers entry listed)
  obtain ⟨caught, start, stop, target⟩ := handlerOf_eq_ok_iff.mp row
  refine ⟨?_, ?_, ?_⟩
  · rw [start, stop]
    exact (labelAt_lt_iff decodedFrom decodes.boundaries (mem_handlers listed (by simp))
      (mem_handlers listed (by simp))).mpr (UInt16.lt_iff_toNat_lt.mp ordered)
  · rw [target]
    exact decodes.mem_stepLabels (mem_handlers listed (by simp)) inside
  · intro name named
    rw [named] at caught
    exact adopted.known_of_classOrNone caught

theorem regular_locals
    (decodes : DecodesTo pool raw body decoded tables)
    (adopted : pool.Adopted)
    (entry : LocalVariable)
    (member : entry ∈ body.locals) :
    entry.start ≤ entry.stop ∧ pool.Knows (.utf8 entry.name) ∧
      pool.Knows (.utf8 entry.descriptor) := by
  have decodedFrom := Decoded.decodedFrom_of_ofCode decodes.code
  obtain ⟨row, listed, read⟩ := exists_of_forall₂ decodes.localsOf member
  obtain ⟨named, described, start, stop, _⟩ := localOf_eq_ok_iff.mp read
  refine ⟨?_, adopted.known (.utf8 entry.name) row.name named,
    adopted.known (.utf8 entry.descriptor) row.descriptor described⟩
  rw [start, stop]
  refine Nat.not_lt.mp fun below => ?_
  have :=
    (labelAt_lt_iff decodedFrom decodes.boundaries (mem_locals listed (by simp))
      (mem_locals listed (by simp))).mp below
  omega

theorem regular_frames
    (decodes : DecodesTo pool raw body decoded tables)
    (fits : ∀ item ∈ raw.attributes, item.Fits pool)
    (placed : PlacedFrame)
    (member : placed ∈ body.frames) :
    placed.label ∈ (readSteps decoded raw.handlers tables).filterMap (·.1.label) ∧ placed.frame.Shaped := by
  rw [decodes.frames_eq] at member
  obtain ⟨row, listed, rfl⟩ := List.mem_map.mp member
  obtain ⟨_, inside, frames, table, framed⟩ :=
    (Tables.reflects_of_ofAttributes decodes.tablesRead).frames row listed
  refine ⟨decodes.mem_stepLabels (mem_frames listed) inside, ?_⟩
  cases fits _ table with
  | leaf _ isLeaf => exact StackMap.Frame.shaped_of_encodable (isLeaf.2 row.2 framed)

theorem lines_ne_nil
    (decodes : DecodesTo pool raw body decoded tables)
    (marked : LaidOut.lineMarks body.nodes ≠ []) :
    tables.lines ≠ [] := by
  obtain ⟨⟨number, label⟩, member⟩ := List.exists_mem_of_ne_nil _ marked
  obtain ⟨entry, listed, _⟩ := (decodes.mem_lineMarks_iff label).mp ⟨number, member⟩
  exact List.ne_nil_of_mem listed

theorem locals_ne_nil
    (decodes : DecodesTo pool raw body decoded tables)
    (some : body.locals ≠ []) :
    tables.locals ≠ [] := by
  have length := decodes.localsOf.length_eq
  rintro none
  rw [none] at length
  exact some (List.eq_nil_of_length_eq_zero length.symm)

theorem frames_ne_nil
    (decodes : DecodesTo pool raw body decoded tables)
    (some : body.frames ≠ []) :
    tables.frames ≠ [] := by
  rintro none
  rw [decodes.frames_eq, none] at some
  exact some rfl

theorem tableCount_le
    (decodes : DecodesTo pool raw body decoded tables) :
    body.tableCount ≤
      Tables.present tables.lines + Tables.present tables.locals
        + Tables.present tables.frames := by
  have lines := decodes.lines_ne_nil
  have locals := decodes.locals_ne_nil
  have frames := decodes.frames_ne_nil
  simp only [tableCount, Tables.present, List.isEmpty_iff]
  split <;> split <;> split <;> split <;> split <;> split <;> simp_all

theorem regular
    (decodes : DecodesTo pool raw body decoded tables)
    (adopted : pool.Adopted)
    (head : Attribute.HeadFits raw)
    (short : raw.attributes.length < 2 ^ 16)
    (fits : ∀ item ∈ raw.attributes, item.Fits pool) :
    body.Regular pool (readSteps decoded raw.handlers tables) ((labelingOf decoded raw.handlers tables).label? decoded.size) := by
  have decodedFrom := Decoded.decodedFrom_of_ofCode decodes.code
  have reflects := Tables.reflects_of_ofAttributes decodes.tablesRead
  have others : body.attributes = tables.attributes := congrArg Body.attributes decodes.shape
  have known {item : Attribute} (listed : item ∈ raw.attributes) : pool.Knows (.utf8 item.name) := by
    cases fits item listed with
    | leaf known _ | body known _ _ _ => exact known
  refine {
    nodes := decodes.nodes_eq
    nonempty := ?_
    numbered := ?_
    referred := decodes.mem_referredLabels_iff
    insns := decodes.regular_insns
    handlers := decodes.regular_handlers adopted
    locals := decodes.regular_locals adopted
    frames := decodes.regular_frames fits
    hints := congrArg Body.hints decodes.shape
    attributes := ?_
    fewHandlers := ?_
    fewAttributes := ?_
    linesKnown := ?_
    localsKnown := ?_
    framesKnown := ?_ }
  · intro none
    have empty : decoded.insns = [] := List.map_eq_nil_iff.mp none
    have bytes := decodedFrom.decodes
    rw [empty] at bytes
    have noBytes : raw.code = [] := by
      generalize raw.code = bytes at bytes
      cases bytes
      rfl
    have length := head.nonempty
    rw [noBytes] at length
    exact absurd length (by decide)
  · rw [decodes.labels_eq, filterMap_label?_offsets decodedFrom decodes.boundaries,
      List.length_range]
  · intro item member
    rw [others] at member
    obtain ⟨listed, noTable⟩ := reflects.others item member
    exact ⟨fits item listed, noTable⟩
  · rw [← decodes.handlersOf.length_eq]
    exact head.handlers
  · have count := reflects.count
    have tables := decodes.tableCount_le
    rw [others]
    omega
  · intro marked
    obtain ⟨entries, listed⟩ := reflects.linesNamed (decodes.lines_ne_nil marked)
    exact known listed
  · intro some
    obtain ⟨entries, listed⟩ := reflects.localsNamed (decodes.locals_ne_nil some)
    exact known listed
  · intro some
    obtain ⟨frames, listed⟩ := reflects.framesNamed (decodes.frames_ne_nil some)
    exact known listed

end DecodesTo

/-- A decoded body is regular. -/
theorem regular_of_ofAttribute
    {pool : Pool}
    {raw : CodeAttribute Attribute}
    {body : Body}
    (adopted : pool.Adopted)
    (head : Attribute.HeadFits raw)
    (short : raw.attributes.length < 2 ^ 16)
    (fits : ∀ item ∈ raw.attributes, item.Fits pool)
    (read : ofAttribute pool raw = .ok body) :
    ∃ steps last, body.Regular pool steps last := by
  obtain ⟨decoded, tables, decodes⟩ := ofAttribute_eq_ok_iff.mp read
  exact ⟨_, _, decodes.regular adopted head short fits⟩

end JvmClass.Body
