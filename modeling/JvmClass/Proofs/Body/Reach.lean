import JvmClass.Proofs.Body.Disassembled
import JvmClass.Proofs.Body.Reassembled
import JvmClass.Proofs.Decided
import JvmClass.Proofs.Insn.Width

namespace JvmClass

/-!
# What keeps a body from being written

A body is laid out instruction by instruction, which may shrink some and shift
the padding of others.  It is refused for a branch in two bytes whose target has
come to lie out of reach, and for a frame that does not stand behind the one
before it.  Laying it out does not fail, and linking it fails only for the
former.
-/

namespace Insn

/-- The target of a branch that has two bytes for its distance. -/
def nearTarget? : Insn → Option Label
  | .jump code target => if code = Opcode.gotoW ∨ code = Opcode.jsrW then none else some target
  | _ => none

end Insn

/-- Nodes with the offsets that they get one behind the other. -/
def Node.layOut (offset : Nat) : List Node → List (Nat × Node)
  | [] => []
  | .insn item :: nodes => (offset, .insn item) :: layOut (offset + item.width offset) nodes
  | node :: nodes => (offset, node) :: layOut offset nodes

/-- The branches in two bytes among placed nodes, with their offsets and targets. -/
def Node.nearBranches (placed : List (Nat × Node)) : List (Nat × Label) :=
  (placedInsns placed).filterMap fun (offset, item) => item.nearTarget?.map (offset, ·)

namespace Body

/-- The nodes of a body where they are written. -/
def placedNodes (body : Body) : List (Nat × Node) :=
  Node.layOut 0 body.nodes

/-- Where a label stands when its body is written. -/
def labelOffset?
    (body : Body)
    (label : Label) : Option Nat :=
  ((Node.placedLabels body.placedNodes).find? (·.2 == label)).map Prod.fst

/-- Where the frames of a body stand when it is written. -/
def frameOffsets (body : Body) : List Nat :=
  body.frames.filterMap (body.labelOffset? ·.label)

/-- The error is the distance of a branch in two bytes that does not reach its target. -/
def OutOfReach
    (body : Body)
    (error : WriteError) : Prop :=
  ∃ origin target label,
    (origin, label) ∈ Node.nearBranches body.placedNodes ∧
      body.labelOffset? label = some target ∧
        ¬ (-(2 ^ 15) ≤ (target : Int) - origin ∧ (target : Int) - origin < 2 ^ 15) ∧
          error = .branchOutOfRange ((target : Int) - origin)

/-- The error is the offset of a frame that does not stand behind the one before it. -/
def OutOfOrder
    (body : Body)
    (error : WriteError) : Prop :=
  ∃ earlier later,
    [earlier, later] <:+: body.frameOffsets ∧
      later ≤ earlier ∧ error = .inconsistentFrame (UInt16.ofNat later) .outOfOrder

/-- The errors that a body is refused with. -/
def Refuses
    (body : Body)
    (error : WriteError) : Prop :=
  body.OutOfReach error ∨ body.OutOfOrder error

end Body

/-! ## Cells -/

namespace Insn

variable {offset : Nat} {insn : Insn} {cell : Cell}

/-- A cell of an instruction is a byte or a distance to one of its targets. -/
theorem cases_of_mem_cells
    (member : cell ∈ insn.cells offset) :
    (∃ byte, cell = .byte byte) ∨
      ∃ target ∈ insn.targets,
        cell = .far offset target ∨ cell = .near offset target ∧ insn.nearTarget? = some target := by
  have ofBytes {bytes : Bytes} (among : cell ∈ Cell.ofBytes bytes) : ∃ byte, cell = .byte byte := by
    obtain ⟨byte, _, rfl⟩ := List.mem_map.mp among
    exact ⟨byte, rfl⟩
  cases insn with
  | slot code index =>
      have among : cell ∈ if index ≤ 255 then _ else _ := member
      split at among <;> exact .inl (ofBytes among)
  | increment code index amount =>
      have among : cell ∈ if index ≤ 255 ∧ -128 ≤ amount ∧ amount ≤ 127 then _ else _ := member
      split at among <;> exact .inl (ofBytes among)
  | jump code target =>
      have among : cell ∈ if code = Opcode.gotoW ∨ code = Opcode.jsrW then _ else _ := member
      split at among
      · rcases List.mem_cons.mp among with rfl | among
        · exact .inl ⟨code, rfl⟩
        · exact .inr ⟨target, by simp [targets], .inl (List.mem_singleton.mp among)⟩
      · rename_i near
        rcases List.mem_cons.mp among with rfl | among
        · exact .inl ⟨code, rfl⟩
        · exact .inr ⟨target, by simp [targets],
            .inr ⟨List.mem_singleton.mp among, by rw [nearTarget?, if_neg near]⟩⟩
  | tableSwitch code default low high targets =>
      have among :
          cell ∈ cellsOf code _ ++ .far offset default :: Cell.ofBytes _ ++
            targets.map (.far offset) := member
      simp only [List.mem_append, List.mem_cons, List.mem_map] at among
      rcases among with (among | rfl | among) | ⟨target, listed, rfl⟩
      · exact .inl (ofBytes among)
      · exact .inr ⟨default, by simp [Insn.targets], .inl rfl⟩
      · exact .inl (ofBytes among)
      · exact .inr ⟨target, by simp [Insn.targets, listed], .inl rfl⟩
  | lookupSwitch code default pairs =>
      have among :
          cell ∈ cellsOf code _ ++ .far offset default :: Cell.ofBytes _ ++
            pairs.flatMap fun pair =>
              Cell.ofBytes (Bytes.ofUInt32 pair.1.toUInt32) ++ [.far offset pair.2] := member
      simp only [List.mem_append, List.mem_cons, List.mem_flatMap, List.not_mem_nil, or_false]
        at among
      rcases among with (among | rfl | among) | ⟨pair, listed, among | rfl⟩
      · exact .inl (ofBytes among)
      · exact .inr ⟨default, by simp [targets], .inl rfl⟩
      · exact .inl (ofBytes among)
      · exact .inl (ofBytes among)
      · refine .inr ⟨pair.2, ?_, .inl rfl⟩
        exact List.mem_cons_of_mem _ (List.mem_map_of_mem listed)
  | field code target | method code target => cases target <;> exact .inl (ofBytes member)
  | load code value => cases value <;> exact .inl (ofBytes member)
  | _ => exact .inl (ofBytes member)

theorem near_mem_cells
    {target : Label}
    (branches : insn.nearTarget? = some target) :
    .near offset target ∈ insn.cells offset := by
  cases insn with
  | jump code label =>
      simp only [nearTarget?] at branches
      split at branches
      · cases branches
      · rename_i near
        cases branches
        show _ ∈ if code = Opcode.gotoW ∨ code = Opcode.jsrW then _ else _
        rw [if_neg near]
        simp
  | _ => cases branches

end Insn

/-! ## Laid out nodes -/

namespace Lays

variable
  {offset stop : Nat} {nodes : List Node} {placed : List (Nat × Node)} {cells : List Cell}

/-- Where nodes that name nothing lie is said by their widths. -/
theorem placed_eq
    (lays : Lays Insn.Numbered offset nodes placed cells stop)
    (indexed : ∀ insn ∈ Node.insns nodes, insn.Indexed) :
    placed = Node.layOut offset nodes := by
  induction lays with
  | nil offset => rfl
  | label _ inductionHypothesis =>
      rw [inductionHypothesis indexed, Node.layOut]
      exact nofun
  | line _ inductionHypothesis =>
      rw [inductionHypothesis indexed, Node.layOut]
      exact nofun
  | @insn offset stop insn resolved nodes placed cells numbers _ inductionHypothesis =>
      rw [show Node.insns (.insn insn :: nodes) = insn :: Node.insns nodes from rfl,
        List.forall_mem_cons] at indexed
      obtain rfl := numbers.eq_of_indexed indexed.1
      rw [inductionHypothesis indexed.2, Node.layOut]
      rfl

/-- The cells are those of the instructions where they are placed. -/
theorem mem_cells_iff
    {resolves : Insn → Insn → Prop}
    {cell : Cell}
    (lays : Lays resolves offset nodes placed cells stop) :
    cell ∈ cells ↔ ∃ row ∈ Node.placedInsns placed, cell ∈ row.2.cells row.1 := by
  induction lays with
  | nil offset => simp [Node.placedInsns]
  | label _ inductionHypothesis | line _ inductionHypothesis => exact inductionHypothesis
  | @insn offset stop insn resolved nodes placed cells numbers _ inductionHypothesis =>
      rw [show Node.placedInsns ((offset, .insn resolved) :: placed) =
        (offset, resolved) :: Node.placedInsns placed from rfl, List.mem_append,
        inductionHypothesis]
      simp

/-- A distance leads to a target of an instruction. -/
theorem exists_target_of_mem_cells
    {resolves : Insn → Insn → Prop}
    {cell : Cell}
    {origin : Nat}
    {target : Label}
    (lays : Lays resolves offset nodes placed cells stop)
    (among : cell ∈ cells)
    (distance : cell = .near origin target ∨ cell = .far origin target) :
    ∃ row ∈ Node.placedInsns placed, target ∈ row.2.targets := by
  obtain ⟨row, member, inRow⟩ := lays.mem_cells_iff.mp among
  rcases Insn.cases_of_mem_cells inRow with ⟨_, rfl⟩ | ⟨other, targeted, rfl | ⟨rfl, _⟩⟩
  · simp at distance
  · obtain rfl : other = target := by simpa using (And.right <| by simpa using distance)
    exact ⟨row, member, targeted⟩
  · obtain rfl : other = target := by simpa using (And.right <| by simpa using distance)
    exact ⟨row, member, targeted⟩

/-- A distance in two bytes is that of a branch. -/
theorem near_mem_iff
    {resolves : Insn → Insn → Prop}
    {origin : Nat}
    {target : Label}
    (lays : Lays resolves offset nodes placed cells stop) :
    .near origin target ∈ cells ↔ (origin, target) ∈ Node.nearBranches placed := by
  rw [lays.mem_cells_iff, Node.nearBranches]
  simp only [List.mem_filterMap, Option.map_eq_some_iff, Prod.mk.injEq]
  constructor
  · rintro ⟨row, member, among⟩
    rcases Insn.cases_of_mem_cells among with ⟨_, same⟩ | ⟨_, _, same | ⟨same, branches⟩⟩
    · cases same
    · cases same
    · cases same
      exact ⟨row, member, target, branches, rfl, rfl⟩
  · rintro ⟨row, member, _, branches, rfl, rfl⟩
    exact ⟨row, member, Insn.near_mem_cells branches⟩

/-- A label that is placed once has the offset that it is placed at. -/
theorem offset_of_mem_placedLabels
    {resolves : Insn → Insn → Prop}
    {place : Nat}
    {label : Label}
    (lays : Lays resolves offset nodes placed cells stop)
    (distinct : (Node.labels nodes).Nodup)
    (short : stop ≤ maxCodeLength)
    (member : (place, label) ∈ Node.placedLabels placed) :
    (LaidOut.placeLabels ∅ placed).offset label = .ok (UInt16.ofNat place) ∧
      (LaidOut.placeLabels ∅ placed).place label = place := by
  have once : ((Node.placedLabels placed).map Prod.snd).Nodup := by
    rwa [lays.map_placedLabels]
  have found : (LaidOut.placeLabels ∅ placed).offset label = .ok (UInt16.ofNat place) := by
    rw [PlacedLabels.offset, LaidOut.getElem?_placeLabels once member]
  have inside := lays.le_of_mem_placedLabels member
  rw [maxCodeLength] at short
  refine ⟨found, ?_⟩
  rw [PlacedLabels.place_of_offset found]
  exact UInt16.toNat_ofNat_of_lt' (show place < 2 ^ 16 by omega)

end Lays

namespace LaidOut

variable {nodes : List Node} {pool : Pool}

theorem le_stopBehind
    (offset : Nat)
    (insns : List Insn) :
    offset ≤ Insn.stopBehind offset insns := by
  induction insns generalizing offset with
  | nil => exact Nat.le_refl offset
  | cons insn insns inductionHypothesis =>
      exact Nat.le_trans (Nat.le_add_right offset _) (inductionHypothesis _)

/-- Nodes that name nothing and do not take too many bytes are laid out. -/
theorem exists_foldlM
    {before : LaidOut}
    (indexed : ∀ insn ∈ Node.insns nodes, insn.Indexed)
    (short : Insn.stopBehind before.size (Node.insns nodes) ≤ maxCodeLength) :
    ∃ laidOut, nodes.foldlM add before pool = .ok (laidOut, pool) := by
  induction nodes generalizing before with
  | nil => exact ⟨before, rfl⟩
  | cons node nodes inductionHypothesis =>
      cases node with
      | label label => exact inductionHypothesis indexed short
      | line number start => exact inductionHypothesis indexed short
      | insn insn =>
          rw [show Node.insns (.insn insn :: nodes) = insn :: Node.insns nodes from rfl]
            at indexed short
          rw [List.forall_mem_cons] at indexed
          have fits :
              before.size + Cell.widths (insn.cells before.size) ≤ maxCodeLength :=
            Nat.le_trans (le_stopBehind _ _) short
          let next : LaidOut :=
            { before with
              size := before.size + Cell.widths (insn.cells before.size)
              cells := insn.cells before.size :: before.cells }
          obtain ⟨laidOut, laid⟩ := @inductionHypothesis next indexed.2 short
          exact ⟨laidOut, foldlM_insn_eq_ok_iff.mpr
            ⟨_, pool, _, Insn.encode_of_indexed indexed.1 _ _, rfl, fits, laid⟩⟩

theorem exists_ofNodes
    (indexed : ∀ insn ∈ Node.insns nodes, insn.Indexed)
    (short : Insn.stopBehind 0 (Node.insns nodes) ≤ maxCodeLength) :
    ∃ laidOut, ofNodes nodes pool = .ok (laidOut, pool) :=
  @exists_foldlM nodes pool empty indexed short

/-- What was laid out lies one behind the other and is not too long. -/
theorem exists_lays
    {laidOut : LaidOut}
    {grown : Pool}
    (laid : ofNodes nodes pool = .ok (laidOut, grown)) :
    ∃ placed stop,
      Lays Insn.Numbered 0 nodes placed laidOut.cells.reverse.flatten stop ∧
        stop ≤ maxCodeLength ∧
          laidOut.labels = placeLabels ∅ placed ∧ laidOut.lines.reverse = lineMarks nodes := by
  obtain ⟨placed, cells, lays, cellsShape, labelsShape, linesShape, short, _⟩ :=
    lays_of_foldlM laid (Nat.zero_le _)
  have same : laidOut.cells.reverse.flatten = cells := cellsShape
  rw [← same] at lays
  exact ⟨placed, _, lays.imp fun _ _ finds => finds.1, short, labelsShape, linesShape⟩

end LaidOut

/-! ## Linking -/

namespace Cell

variable {labels : PlacedLabels} {cell : Cell}

/-- The error is the distance of a cell in two bytes that does not reach its target. -/
def OutOfReach
    (labels : PlacedLabels)
    (cell : Cell)
    (error : WriteError) : Prop :=
  ∃ origin target,
    cell = .near origin target ∧
      ¬ (-(2 ^ 15) ≤ (labels.place target : Int) - origin ∧
          (labels.place target : Int) - origin < 2 ^ 15) ∧
        error = .branchOutOfRange ((labels.place target : Int) - origin)

/-- A distance to a label that is placed is filled in if it fits. -/
theorem decided_link
    (placed :
      ∀ origin target, cell = .near origin target ∨ cell = .far origin target →
        ∃ offset, labels.offset target = .ok offset) :
    Decided (cell.OutOfReach labels) (fun _ => True) (cell.link labels) := by
  cases cell with
  | byte value => exact .result (by rintro error ⟨_, _, same, _⟩; cases same) trivial
  | far origin target =>
      obtain ⟨offset, found⟩ := placed origin target (.inr rfl)
      rw [link, found]
      exact .result (by rintro error ⟨_, _, same, _⟩; cases same) trivial
  | near origin target =>
      obtain ⟨offset, found⟩ := placed origin target (.inl rfl)
      have place := PlacedLabels.place_of_offset found
      rw [link, found]
      show Decided _ _ (if _ then _ else _)
      rw [← place]
      split
      · rename_i reaches
        refine .result ?_ trivial
        rintro error ⟨_, _, same, beyond, _⟩
        cases same
        exact beyond reaches
      · rename_i beyond
        exact .failure ⟨origin, target, rfl, beyond, rfl⟩

end Cell

/-- Where all labels are placed, linking fails for a distance that does not fit, and for nothing else. -/
theorem LaidOut.decided_link
    {laidOut : LaidOut}
    (placed :
      ∀ cell ∈ laidOut.cells.reverse.flatten,
        ∀ origin target, cell = .near origin target ∨ cell = .far origin target →
          ∃ offset, laidOut.labels.offset target = .ok offset) :
    Decided
      (fun error =>
        ∃ cell ∈ laidOut.cells.reverse.flatten, cell.OutOfReach laidOut.labels error)
      (fun _ => True) laidOut.link :=
  (Decided.mapM fun cell among => Cell.decided_link (placed cell among)).before
    fun _ _ => .of_ok rfl trivial

namespace Body

variable
  {body : Body} {placed : List (Nat × Node)} {cells : List Cell} {stop : Nat}

/-- A label stands where it is placed. -/
theorem labelOffset?_eq
    {label : Label}
    (lays : Lays Insn.Numbered 0 body.nodes placed cells stop)
    (indexed : ∀ insn ∈ Node.insns body.nodes, insn.Indexed)
    (distinct : (Node.labels body.nodes).Nodup)
    (short : stop ≤ maxCodeLength)
    (listed : label ∈ Node.labels body.nodes) :
    body.labelOffset? label = some ((LaidOut.placeLabels ∅ placed).place label) ∧
      ∃ offset, (LaidOut.placeLabels ∅ placed).offset label = .ok offset := by
  rw [← lays.map_placedLabels] at listed
  obtain ⟨⟨place, named⟩, member, same⟩ := List.mem_map.mp listed
  obtain rfl : named = label := same
  refine ⟨?_, _, (lays.offset_of_mem_placedLabels distinct short member).1⟩
  rw [labelOffset?, placedNodes, ← lays.placed_eq indexed]
  cases found : (Node.placedLabels placed).find? (·.2 == named) with
  | none => exact absurd (List.find?_eq_none.mp found _ member) (by simp)
  | some mark =>
      obtain ⟨first, other⟩ := mark
      obtain rfl : other = named := by simpa using List.find?_some found
      have placedFirst :=
        lays.offset_of_mem_placedLabels distinct short (List.mem_of_find?_eq_some found)
      rw [Option.map_some, placedFirst.2]

namespace Regular

variable
  {pool : Pool} {steps : List (Spot × Insn)} {last : Option Label} {laidOut : LaidOut}

/-- Every label of a regular body that is laid out has an offset. -/
theorem labelOffset?_eq
    {label : Label}
    {before grown : Pool}
    (regular : body.Regular pool steps last)
    (laid : LaidOut.ofNodes body.nodes before = .ok (laidOut, grown))
    (referred : label ∈ body.referredLabels) :
    body.labelOffset? label = some (laidOut.labels.place label) ∧
      ∃ offset, laidOut.labels.offset label = .ok offset := by
  obtain ⟨placed, stop, lays, short, labels, _⟩ := LaidOut.exists_lays laid
  have distinct : (Node.labels body.nodes).Nodup := by
    rw [regular.numbered]
    exact List.nodup_range
  rw [labels]
  exact Body.labelOffset?_eq lays regular.indexed_insns distinct short
    ((regular.referred label).mp referred)

/-- Linking a regular body fails for a branch out of reach, and for nothing else. -/
theorem decided_link
    (regular : body.Regular pool steps last)
    (laid : LaidOut.ofNodes body.nodes pool = .ok (laidOut, pool)) :
    Decided body.OutOfReach (fun _ => True) laidOut.link := by
  obtain ⟨placed, stop, lays, _, _, _⟩ := LaidOut.exists_lays laid
  have same := lays.placed_eq regular.indexed_insns
  have referred {row : Nat × Insn} {target : Label}
      (member : row ∈ Node.placedInsns placed)
      (targeted : target ∈ row.2.targets) :
      target ∈ body.referredLabels := by
    obtain ⟨insn, listed, numbered⟩ := exists_of_forall₂ lays.forall₂_placedInsns member
    rw [numbered.targets_eq] at targeted
    simp only [referredLabels, List.mem_append, List.mem_flatMap]
    exact .inl (.inl (.inl (.inl ⟨insn, listed, targeted⟩)))
  have placedTargets (cell : Cell) (among : cell ∈ laidOut.cells.reverse.flatten) :
      ∀ origin target, cell = .near origin target ∨ cell = .far origin target →
        target ∈ body.referredLabels := by
    rintro origin target distance
    obtain ⟨row, member, targeted⟩ := lays.exists_target_of_mem_cells among distance
    exact referred member targeted
  refine (LaidOut.decided_link fun cell among origin target distance =>
    (regular.labelOffset?_eq laid (placedTargets cell among origin target distance)).2).congr
      fun error => ?_
  rw [OutOfReach, placedNodes, ← same]
  constructor
  · rintro ⟨_, among, origin, target, rfl, beyond, rfl⟩
    have stands :=
      (regular.labelOffset?_eq laid (placedTargets _ among origin target (.inl rfl))).1
    exact ⟨origin, _, target, lays.near_mem_iff.mp among, stands, beyond, rfl⟩
  · rintro ⟨origin, place, target, branch, stands, beyond, rfl⟩
    have among := lays.near_mem_iff.mpr branch
    have found := (regular.labelOffset?_eq laid (placedTargets _ among origin target (.inl rfl))).1
    rw [stands, Option.some.injEq] at found
    subst found
    exact ⟨_, among, origin, target, rfl, beyond, rfl⟩

end Regular

end Body

end JvmClass
