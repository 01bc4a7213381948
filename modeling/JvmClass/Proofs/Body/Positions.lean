import JvmClass.Proofs.Body.Decode

namespace JvmClass

/-!
# Positions of instructions

Branches go by labels in a body and by offsets in bytecode, and a flow analysis
goes by the positions of instructions.  Wherever a body lies, its labels and the
offsets of its instructions tell the same positions.
-/

namespace Node

/-- A label stands in front of the instruction at a position, or behind all instructions. -/
inductive StandsAt (label : Label) : List Node → Nat → Prop
  | here {nodes : List Node} : StandsAt label (.label label :: nodes) 0
  | label
      {other : Label}
      {nodes : List Node}
      {position : Nat}
      (later : StandsAt label nodes position) :
      StandsAt label (.label other :: nodes) position
  | line
      {number : UInt16}
      {start : Label}
      {nodes : List Node}
      {position : Nat}
      (later : StandsAt label nodes position) :
      StandsAt label (.line number start :: nodes) position
  | insn
      {insn : Insn}
      {nodes : List Node}
      {position : Nat}
      (later : StandsAt label nodes position) :
      StandsAt label (.insn insn :: nodes) (position + 1)

section StandsAt

variable {label : Label} {nodes first second : List Node} {position : Nat}

theorem StandsAt.mem_labels
    (stands : StandsAt label nodes position) :
    label ∈ labels nodes := by
  induction stands with
  | here => exact List.mem_filterMap.mpr ⟨_, List.mem_cons_self, rfl⟩
  | label _ inductionHypothesis | line _ inductionHypothesis | insn _ inductionHypothesis =>
      obtain ⟨node, member, placed⟩ := List.mem_filterMap.mp inductionHypothesis
      exact List.mem_filterMap.mpr ⟨node, List.mem_cons_of_mem _ member, placed⟩

theorem exists_standsAt
    (member : label ∈ labels nodes) :
    ∃ position, StandsAt label nodes position := by
  induction nodes with
  | nil => cases member
  | cons node nodes inductionHypothesis =>
      cases node with
      | label other =>
          rcases List.mem_cons.mp (show label ∈ other :: labels nodes from member) with rfl | later
          · exact ⟨0, .here⟩
          · obtain ⟨position, stands⟩ := inductionHypothesis later
            exact ⟨position, .label stands⟩
      | line number start =>
          obtain ⟨position, stands⟩ := inductionHypothesis member
          exact ⟨position, .line stands⟩
      | insn insn =>
          obtain ⟨position, stands⟩ := inductionHypothesis member
          exact ⟨position + 1, .insn stands⟩

/-- A label that is placed once stands in one position. -/
theorem StandsAt.unique
    {other : Nat}
    (distinct : (labels nodes).Nodup)
    (stands : StandsAt label nodes position)
    (standsOther : StandsAt label nodes other) :
    position = other := by
  induction stands generalizing other with
  | @here nodes =>
      rw [show labels (.label label :: nodes) = label :: labels nodes from rfl,
        List.nodup_cons] at distinct
      cases standsOther with
      | here => rfl
      | label later => exact absurd later.mem_labels distinct.1
  | @label placed nodes position later inductionHypothesis =>
      rw [show labels (.label placed :: nodes) = placed :: labels nodes from rfl,
        List.nodup_cons] at distinct
      cases standsOther with
      | here => exact absurd later.mem_labels distinct.1
      | label laterOther => exact inductionHypothesis distinct.2 laterOther
  | line _ inductionHypothesis =>
      cases standsOther with
      | line laterOther => exact inductionHypothesis distinct laterOther
  | insn _ inductionHypothesis =>
      cases standsOther with
      | insn laterOther => rw [inductionHypothesis distinct laterOther]

theorem StandsAt.append_left
    (stands : StandsAt label first position) :
    StandsAt label (first ++ second) position := by
  induction stands with
  | here => exact .here
  | label _ inductionHypothesis => exact .label inductionHypothesis
  | line _ inductionHypothesis => exact .line inductionHypothesis
  | insn _ inductionHypothesis => exact .insn inductionHypothesis

theorem StandsAt.append_right
    (stands : StandsAt label second position) :
    StandsAt label (first ++ second) ((insns first).length + position) := by
  induction first with
  | nil => simpa [insns] using stands
  | cons node first inductionHypothesis =>
      cases node with
      | label other => exact .label inductionHypothesis
      | line number start => exact .line inductionHypothesis
      | insn insn =>
          rw [show insns (.insn insn :: first) = insn :: insns first from rfl, List.length_cons,
            Nat.add_right_comm]
          exact .insn inductionHypothesis

/-- A label among the nodes of two rows stands in one of them. -/
theorem standsAt_append_iff :
    StandsAt label (first ++ second) position ↔
      StandsAt label first position ∨
        ∃ later, StandsAt label second later ∧ position = (insns first).length + later := by
  constructor
  · intro stands
    induction first generalizing position with
    | nil => exact .inr ⟨position, stands, by simp [insns]⟩
    | cons node first inductionHypothesis =>
        cases node with
        | label other =>
            cases stands with
            | here => exact .inl .here
            | label later => exact (inductionHypothesis later).imp .label id
        | line number start =>
            cases stands with
            | line later => exact (inductionHypothesis later).imp .line id
        | insn insn =>
            cases stands with
            | insn later =>
                rcases inductionHypothesis later with inFirst | ⟨place, inSecond, rfl⟩
                · exact .inl (.insn inFirst)
                · refine .inr ⟨place, inSecond, ?_⟩
                  rw [show insns (.insn insn :: first) = insn :: insns first from rfl,
                    List.length_cons, Nat.add_right_comm]
  · rintro (stands | ⟨later, stands, rfl⟩)
    · exact stands.append_left
    · exact stands.append_right

theorem StandsAt.le_length
    (stands : StandsAt label nodes position) :
    position ≤ (insns nodes).length := by
  induction stands with
  | here => exact Nat.zero_le _
  | label _ inductionHypothesis | line _ inductionHypothesis => exact inductionHypothesis
  | insn _ inductionHypothesis => exact Nat.succ_le_succ inductionHypothesis

/-- In front of an instruction stands the label of its spot. -/
theorem standsAt_spot_iff
    {spot : Spot} :
    StandsAt label spot.nodes position ↔ position = 0 ∧ spot.label = some label := by
  have marks (lines : List UInt16) (other : Label) :
      ¬ StandsAt label (lines.map (Node.line · other)) position := by
    intro stands
    have member := stands.mem_labels
    simp [labels, List.filterMap_map] at member
  obtain ⟨_ | other, lines⟩ := spot
  · simp only [Spot.nodes, reduceCtorEq, and_false, iff_false]
    intro stands
    cases stands
  · simp only [Spot.nodes, Option.some.injEq]
    constructor
    · intro stands
      cases stands with
      | here => exact ⟨rfl, rfl⟩
      | label later => exact absurd later (marks lines other)
    · rintro ⟨rfl, rfl⟩
      exact .here

theorem standsAt_ofSteps_iff
    {steps : List (Spot × Insn)}
    {last : Option Label} :
    StandsAt label (ofSteps steps last) position ↔
      (∃ step, steps[position]? = some step ∧ step.1.label = some label) ∨
        position = steps.length ∧ last = some label := by
  induction steps generalizing position with
  | nil =>
      have shape : ofSteps [] last = Spot.nodes ⟨last, []⟩ := rfl
      simp [shape, standsAt_spot_iff]
  | cons step steps inductionHypothesis =>
      rw [ofSteps_cons, standsAt_append_iff, standsAt_spot_iff, Spot.insns_nodes]
      have behind (place : Nat) :
          StandsAt label (.insn step.2 :: ofSteps steps last) place ↔
            ∃ earlier, place = earlier + 1 ∧ StandsAt label (ofSteps steps last) earlier := by
        constructor
        · intro stands
          cases stands with
          | insn later => exact ⟨_, rfl, later⟩
        · rintro ⟨earlier, rfl, later⟩
          exact .insn later
      simp only [behind, List.length_nil, Nat.zero_add, inductionHypothesis]
      cases position with
      | zero => simp
      | succ position => simp

end StandsAt

end Node

/-! ## Bodies at offsets -/

/--
Nodes lie at offsets: the instructions in their order, with what they name
resolved and with offsets for the labels, and the labels in front of them.
-/
structure Layout
    (resolves : Insn → Insn → Prop)
    (nodes : List Node)
    (place : Label → Nat)
    (insns : List (Nat × Insn))
    (size : Nat) : Prop where
  listed :
    List.Forall₂
      (fun insn located =>
        ∃ resolved, resolves insn resolved ∧ located.2 = resolved.mapTargets place)
      (Node.insns nodes) insns
  labels :
    ∀ label position,
      Node.StandsAt label nodes position →
        (insns.map Prod.fst ++ [size])[position]? = some (place label)
  ascending : (insns.map Prod.fst ++ [size]).Pairwise (· < ·)
  short : size < 2 ^ 16

namespace Layout

variable
  {resolves : Insn → Insn → Prop} {nodes : List Node} {place : Label → Nat}
  {insns : List (Nat × Insn)} {size position offset : Nat} {insn : Insn} {label : Label}

theorem length_eq
    (layout : Layout resolves nodes place insns size) :
    (Node.insns nodes).length = insns.length :=
  layout.listed.length_eq

/-- An instruction lies somewhere. -/
theorem exists_placed
    (layout : Layout resolves nodes place insns size)
    (listed : (Node.insns nodes)[position]? = some insn) :
    ∃ offset resolved,
      insns[position]? = some (offset, resolved.mapTargets place) ∧ resolves insn resolved := by
  obtain ⟨inside, rfl⟩ := List.getElem?_eq_some_iff.mp listed
  have insideInsns : position < insns.length := layout.length_eq ▸ inside
  obtain ⟨resolved, related, same⟩ := layout.listed.get inside insideInsns
  refine ⟨insns[position].1, resolved, ?_, related⟩
  rw [← same, List.get_eq_getElem, List.getElem?_eq_getElem insideInsns]

/-- What lies at an offset is an instruction. -/
theorem exists_listed
    {located : Insn}
    (layout : Layout resolves nodes place insns size)
    (placed : insns[position]? = some (offset, located)) :
    ∃ insn resolved,
      (Node.insns nodes)[position]? = some insn ∧ resolves insn resolved ∧
        located = resolved.mapTargets place := by
  obtain ⟨inside, same⟩ := List.getElem?_eq_some_iff.mp placed
  have insideNodes : position < (Node.insns nodes).length := layout.length_eq ▸ inside
  obtain ⟨resolved, related, shape⟩ := layout.listed.get insideNodes inside
  refine ⟨_, resolved, List.getElem?_eq_getElem insideNodes, related, ?_⟩
  rw [← shape, List.get_eq_getElem, same]

/-- Offsets are in the order of positions. -/
theorem offset_lt_iff
    {other otherOffset : Nat}
    (layout : Layout resolves nodes place insns size)
    (placed : (insns.map Prod.fst ++ [size])[position]? = some offset)
    (otherPlaced : (insns.map Prod.fst ++ [size])[other]? = some otherOffset) :
    offset < otherOffset ↔ position < other := by
  obtain ⟨inside, rfl⟩ := List.getElem?_eq_some_iff.mp placed
  obtain ⟨otherInside, rfl⟩ := List.getElem?_eq_some_iff.mp otherPlaced
  exact layout.ascending.sortedLT.getElem_lt_getElem_iff

/-- At one offset lies one thing. -/
theorem position_eq
    {other : Nat}
    (layout : Layout resolves nodes place insns size)
    (placed : (insns.map Prod.fst ++ [size])[position]? = some offset)
    (otherPlaced : (insns.map Prod.fst ++ [size])[other]? = some offset) :
    position = other := by
  have first := layout.offset_lt_iff placed otherPlaced
  have second := layout.offset_lt_iff otherPlaced placed
  omega

theorem offset_le_size
    (layout : Layout resolves nodes place insns size)
    (placed : (insns.map Prod.fst ++ [size])[position]? = some offset) :
    offset ≤ size := by
  have last : (insns.map Prod.fst ++ [size])[insns.length]? = some size := by simp
  have inside := (List.getElem?_eq_some_iff.mp placed).1
  refine Nat.not_lt.mp fun beyond => ?_
  have := (layout.offset_lt_iff last placed).mp beyond
  simp only [List.length_append, List.length_map, List.length_singleton] at inside
  omega

theorem getElem?_offsets
    {located : Insn}
    (placed : insns[position]? = some (offset, located)) :
    (insns.map Prod.fst ++ [size])[position]? = some offset := by
  have inside := (List.getElem?_eq_some_iff.mp placed).1
  rw [List.getElem?_append_left (by simpa using inside), List.getElem?_map, placed]
  rfl

/-- A label is placed at the offset of the instruction that it stands in front of. -/
theorem place_eq
    {located : Insn}
    (layout : Layout resolves nodes place insns size)
    (stands : Node.StandsAt label nodes position)
    (placed : insns[position]? = some (offset, located)) :
    place label = offset :=
  Option.some.inj ((layout.labels label position stands).symm.trans (getElem?_offsets placed))

/-- A label lies behind an offset exactly if it stands behind the instruction there. -/
theorem lt_place_iff
    {located : Insn}
    {other : Nat}
    (layout : Layout resolves nodes place insns size)
    (placed : insns[position]? = some (offset, located))
    (stands : Node.StandsAt label nodes other) :
    offset < place label ↔ position < other :=
  layout.offset_lt_iff (getElem?_offsets placed) (layout.labels label other stands)

theorem place_le_iff
    {located : Insn}
    {other : Nat}
    (layout : Layout resolves nodes place insns size)
    (placed : insns[position]? = some (offset, located))
    (stands : Node.StandsAt label nodes other) :
    place label ≤ offset ↔ other ≤ position := by
  rw [← Nat.not_lt, ← Nat.not_lt, layout.lt_place_iff placed stands]

theorem place_lt
    (layout : Layout resolves nodes place insns size)
    (stands : Node.StandsAt label nodes position) :
    place label < 2 ^ 16 :=
  Nat.lt_of_le_of_lt (layout.offset_le_size (layout.labels label position stands)) layout.short

theorem offset_lt
    {located : Insn}
    (layout : Layout resolves nodes place insns size)
    (placed : insns[position]? = some (offset, located)) :
    offset < 2 ^ 16 :=
  Nat.lt_of_le_of_lt (layout.offset_le_size (getElem?_offsets placed)) layout.short

/-- An offset means the instruction that lies there. -/
theorem positions_eq
    {located : Insn}
    (layout : Layout resolves nodes place insns size)
    (placed : insns[position]? = some (offset, located)) :
    (LocatedCode.ofInsns insns).positions[UInt16.ofNat offset]? = some position := by
  refine LocatedCode.positions_eq_of_nodup ?_ (LocatedCode.located_of_placed placed)
  rw [show (LocatedCode.located insns).map Prod.fst = (insns.map Prod.fst).map UInt16.ofNat by
    simp [LocatedCode.located]]
  have ascending := (List.pairwise_append.mp layout.ascending).1
  refine List.Nodup.map_on ?_ (ascending.imp Nat.ne_of_lt)
  intro left leftMember right rightMember same
  obtain ⟨⟨_, _⟩, leftListed, rfl⟩ := List.mem_map.mp leftMember
  obtain ⟨⟨_, _⟩, rightListed, rfl⟩ := List.mem_map.mp rightMember
  obtain ⟨_, leftPlaced⟩ := List.mem_iff_getElem?.mp leftListed
  obtain ⟨_, rightPlaced⟩ := List.mem_iff_getElem?.mp rightListed
  have numbers := congrArg UInt16.toNat same
  rwa [UInt16.toNat_ofNat_of_lt' (layout.offset_lt leftPlaced),
    UInt16.toNat_ofNat_of_lt' (layout.offset_lt rightPlaced)] at numbers

/-- The place of a label means the instruction that it stands in front of. -/
theorem positions_place_eq
    (layout : Layout resolves nodes place insns size)
    (stands : Node.StandsAt label nodes position)
    (inside : position < (Node.insns nodes).length) :
    (LocatedCode.ofInsns insns).positions[UInt16.ofNat (place label)]? = some position := by
  obtain ⟨offset, resolved, placed, _⟩ :=
    layout.exists_placed (List.getElem?_eq_getElem inside)
  rw [layout.place_eq stands placed]
  exact layout.positions_eq placed

/-- A label stands in front of the instruction that its place means. -/
theorem eq_of_positions_place
    {other : Nat}
    (layout : Layout resolves nodes place insns size)
    (stands : Node.StandsAt label nodes position)
    (means : (LocatedCode.ofInsns insns).positions[UInt16.ofNat (place label)]? = some other) :
    other = position ∧ ∃ offset located, insns[other]? = some (offset, located) := by
  obtain ⟨insn, located⟩ := LocatedCode.insn_of_positions means
  obtain ⟨offset, placed, sameOffset⟩ := LocatedCode.placed_of_located located
  have numbers := congrArg UInt16.toNat sameOffset.symm
  rw [UInt16.toNat_ofNat_of_lt' (layout.offset_lt placed),
    UInt16.toNat_ofNat_of_lt' (layout.place_lt stands)] at numbers
  subst numbers
  exact ⟨layout.position_eq (getElem?_offsets placed) (layout.labels label position stands), _, _,
    placed⟩

/-- Control that falls through goes on to the next position. -/
theorem eq_of_offsetAfter
    {next : Nat}
    {behind : UInt16}
    (layout : Layout resolves nodes place insns size)
    (placed : (LocatedCode.ofInsns insns).offsetAfter? position = some behind)
    (means : (LocatedCode.ofInsns insns).positions[behind]? = some next) :
    next = position + 1 := by
  rw [LocatedCode.offsetAfter?, LocatedCode.getElem?_insns_ofInsns] at placed
  cases found : insns[position + 1]? with
  | none => simp [found] at placed
  | some item =>
      obtain ⟨offset, insn⟩ := item
      rw [found] at placed
      cases placed
      have here := layout.positions_eq found
      exact Option.some.inj (means.symm.trans here)

end Layout

/-! ## Where a body was decoded from -/

namespace Body

/-- The offset that a label of a decoded body was given for. -/
def originOf
    (decoded : Decoded)
    (handlers : List HandlerEntry)
    (tables : Tables)
    (label : Label) : Nat :=
  (marksOf decoded (references decoded handlers tables)).getD label 0

namespace DecodesTo

variable
  {pool : Pool} {raw : CodeAttribute Attribute} {body : Body} {decoded : Decoded} {tables : Tables}

theorem originOf_labelAt
    (decodes : DecodesTo pool raw body decoded tables)
    {offset : Nat}
    (member : offset ∈ references decoded raw.handlers tables) :
    originOf decoded raw.handlers tables
        ((labelingOf decoded raw.handlers tables).labelAt offset) = offset := by
  have decodedFrom := Decoded.decodedFrom_of_ofCode decodes.code
  rw [originOf, List.getD_eq_getElem?_getD,
    getElem?_marksOf decodedFrom decodes.boundaries member]
  rfl

theorem originOf_of_label?
    (decodes : DecodesTo pool raw body decoded tables)
    {offset : Nat}
    {label : Label}
    (found : (labelingOf decoded raw.handlers tables).label? offset = some label) :
    originOf decoded raw.handlers tables label = offset := by
  have decodedFrom := Decoded.decodedFrom_of_ofCode decodes.code
  rw [label?_eq decodedFrom decodes.boundaries] at found
  split at found
  · rename_i member
    cases found
    exact decodes.originOf_labelAt member
  · cases found

/-- A decoded body lies where it was decoded from. -/
theorem layout
    (decodes : DecodesTo pool raw body decoded tables)
    (short : decoded.size < 2 ^ 16) :
    Layout (· = ·) body.nodes (originOf decoded raw.handlers tables) decoded.insns
      decoded.size := by
  have decodedFrom := Decoded.decodedFrom_of_ofCode decodes.code
  refine ⟨?_, fun label position stands => ?_, decodedFrom.ascending, short⟩
  · rw [decodes.nodes_eq, Node.insns_ofSteps, readSteps, stepsOf, List.map_map,
      List.forall₂_map_left_iff, List.forall₂_same]
    intro located listed
    refine ⟨_, rfl, ?_⟩
    rw [Function.comp_apply, Insn.mapTargets_mapTargets]
    conv_lhs => rw [← located.2.mapTargets_id]
    refine Insn.mapTargets_congr fun target member => ?_
    exact (decodes.originOf_labelAt (mem_targets listed member)).symm
  · rw [decodes.nodes_eq, Node.standsAt_ofSteps_iff] at stands
    rcases stands with ⟨step, listed, labelled⟩ | ⟨rfl, labelled⟩
    · rw [readSteps, stepsOf, List.getElem?_map, Option.map_eq_some_iff] at listed
      obtain ⟨located, placed, rfl⟩ := listed
      rw [Layout.getElem?_offsets placed, decodes.originOf_of_label? labelled]
    · rw [readSteps, stepsOf, List.length_map, decodes.originOf_of_label? labelled]
      simp

end DecodesTo

end Body

/-! ## Where a body is laid out -/

namespace Lays

variable
  {resolves : Insn → Insn → Prop} {offset stop : Nat} {nodes : List Node}
  {placed : List (Nat × Node)} {cells : List Cell}

theorem forall₂_placedInsns
    (lays : Lays resolves offset nodes placed cells stop) :
    List.Forall₂ (fun insn located => resolves insn located.2) (Node.insns nodes)
      (Node.placedInsns placed) := by
  induction lays with
  | nil offset => exact .nil
  | label _ inductionHypothesis | line _ inductionHypothesis => exact inductionHypothesis
  | insn numbers _ inductionHypothesis => exact .cons numbers inductionHypothesis

/-- Laid out instructions lie one behind the other. -/
theorem ascending
    (lays : Lays resolves offset nodes placed cells stop) :
    ((Node.placedInsns placed).map Prod.fst ++ [stop]).Pairwise (· < ·) ∧
      ∀ place ∈ (Node.placedInsns placed).map Prod.fst ++ [stop], offset ≤ place := by
  induction lays with
  | nil offset => simp [Node.placedInsns]
  | label _ inductionHypothesis | line _ inductionHypothesis => exact inductionHypothesis
  | @insn offset stop insn resolved nodes placed cells numbers later inductionHypothesis =>
      have positive := resolved.widths_cells_pos offset
      obtain ⟨ascending, behind⟩ := inductionHypothesis
      rw [show Node.placedInsns ((offset, .insn resolved) :: placed) =
        (offset, resolved) :: Node.placedInsns placed from rfl, List.map_cons, List.cons_append]
      refine ⟨List.pairwise_cons.mpr ⟨fun place member => ?_, ascending⟩, fun place member => ?_⟩
      · have := behind place member
        omega
      · rcases List.mem_cons.mp member with rfl | member
        · exact Nat.le_refl _
        · have := behind place member
          omega

theorem exists_placed_label
    {label : Label}
    {position : Nat}
    (lays : Lays resolves offset nodes placed cells stop)
    (stands : Node.StandsAt label nodes position) :
    ∃ place,
      (place, label) ∈ Node.placedLabels placed ∧
        ((Node.placedInsns placed).map Prod.fst ++ [stop])[position]? = some place := by
  induction lays generalizing position with
  | nil offset => cases stands
  | @label offset stop other nodes placed cells later inductionHypothesis =>
      have shape :
          Node.placedLabels ((offset, .label other) :: placed) =
            (offset, other) :: Node.placedLabels placed := rfl
      cases stands with
      | here =>
          -- The first instruction behind the label lies where the label is placed.
          refine ⟨offset, by simp [shape], ?_⟩
          clear inductionHypothesis
          induction later with
          | nil => simp [Node.placedInsns]
          | label _ inductionHypothesis | line _ inductionHypothesis => exact inductionHypothesis rfl
          | insn _ _ _ => rfl
      | label later =>
          obtain ⟨place, member, found⟩ := inductionHypothesis later
          exact ⟨place, by simp [shape, member], found⟩
  | line _ inductionHypothesis =>
      cases stands with
      | line later => exact inductionHypothesis later
  | insn _ _ inductionHypothesis =>
      cases stands with
      | insn later =>
          obtain ⟨place, member, found⟩ := inductionHypothesis later
          exact ⟨place, member, found⟩

/-- Laid out nodes lie where their labels are placed. -/
theorem layout
    (lays : Lays resolves 0 nodes placed cells stop)
    (distinct : (Node.labels nodes).Nodup)
    (short : stop ≤ maxCodeLength) :
    Layout resolves nodes (LaidOut.placeLabels ∅ placed).place
      ((Node.placedInsns placed).map fun (offset, item) =>
        (offset, item.mapTargets (LaidOut.placeLabels ∅ placed).place))
      stop := by
  have small : stop < 2 ^ 16 := Nat.lt_of_le_of_lt short (by decide)
  have offsets (rename : Label → Label) :
      ((Node.placedInsns placed).map fun (offset, item) =>
        (offset, item.mapTargets rename)).map Prod.fst = (Node.placedInsns placed).map Prod.fst := by
    simp
  refine ⟨?_, fun label position stands => ?_, ?_, small⟩
  · rw [List.forall₂_map_right_iff]
    exact lays.forall₂_placedInsns.imp fun insn located related => ⟨located.2, related, rfl⟩
  · obtain ⟨place, member, found⟩ := lays.exists_placed_label stands
    rw [offsets, found]
    have listed : place ∈ (Node.placedInsns placed).map Prod.fst ++ [stop] :=
      List.mem_of_getElem? found
    have inside : place ≤ stop := by
      rcases List.mem_append.mp listed with before | last
      · exact Nat.le_of_lt
          ((List.pairwise_append.mp lays.ascending.1).2.2 place before stop (by simp))
      · exact Nat.le_of_eq (List.mem_singleton.mp last)
    have placedOnce : ((Node.placedLabels placed).map Prod.snd).Nodup := by
      rwa [lays.map_placedLabels]
    have offset :
        (LaidOut.placeLabels ∅ placed).offset label = .ok (UInt16.ofNat place) := by
      rw [PlacedLabels.offset, LaidOut.getElem?_placeLabels placedOnce member]
    rw [PlacedLabels.place_of_offset offset,
      UInt16.toNat_ofNat_of_lt' (show place < 2 ^ 16 by omega)]
  · rw [offsets]
    exact lays.ascending.1

end Lays

end JvmClass
