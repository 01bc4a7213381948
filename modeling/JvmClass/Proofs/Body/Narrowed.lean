import JvmClass.Proofs.Body.Reach
import JvmClass.Proofs.Body.Unlimited
import Mathlib.Data.List.TakeWhile

namespace JvmClass

/-!
# Instructions written where they were read, or further to the front

Instructions are decoded, get labels for their targets, and are written again.  A
wide form that its operands do without is written shorter.  What lies behind it
moves to the front, and a switch takes as many filling bytes as its new place asks
for, which may be more than before.  Still no instruction starts further back than
it did, so what was short enough to be read is short enough to be written.  What is
written is decoded as the same instructions, with their targets where those are now.
-/

namespace Insn

/-! ## Where instructions move -/

/-- Where what lies at an offset starts once the instructions in front of it are written again. -/
def movedTo
    (rows : List (Nat × Insn))
    (offset : Nat) : Nat :=
  stopBehind 0 ((rows.takeWhile (·.1 < offset)).map Prod.snd)

/-- The instructions where they move, with their targets moved likewise. -/
def moved (rows : List (Nat × Insn)) : List (Nat × Insn) :=
  rows.map fun row => (movedTo rows row.1, row.2.mapTargets (movedTo rows))

/-- The branches in two bytes reach their targets where the instructions move. -/
def InReach (rows : List (Nat × Insn)) : Prop :=
  ∀ row ∈ rows,
    ∀ target ∈ row.2.nearTarget?,
      -(2 ^ 15) ≤ (movedTo rows target : Int) - movedTo rows row.1 ∧
        (movedTo rows target : Int) - movedTo rows row.1 < 2 ^ 15

instance (rows : List (Nat × Insn)) : Decidable (InReach rows) :=
  inferInstanceAs (Decidable (∀ row ∈ rows, ∀ target ∈ row.2.nearTarget?, _ ∧ _))

section Moved

variable
  {size position : Nat} {bytes : Bytes} {rows : List (Nat × Insn)} {row : Nat × Insn}

/-- In front of an instruction start the instructions before it. -/
theorem takeWhile_lt_eq_take
    (ascending : (rows.map Prod.fst).Pairwise (· < ·))
    (listed : rows[position]? = some row) :
    rows.takeWhile (·.1 < row.1) = rows.take position := by
  obtain ⟨inside, same⟩ := List.getElem?_eq_some_iff.mp listed
  have split : rows = rows.take position ++ row :: rows.drop (position + 1) := by
    rw [← same, ← List.drop_eq_getElem_cons inside, List.take_append_drop]
  have before : ∀ earlier ∈ rows.take position, earlier.1 < row.1 := by
    rw [List.pairwise_map, split] at ascending
    exact fun earlier member =>
      (List.pairwise_append.mp ascending).2.2 earlier member row List.mem_cons_self
  conv_lhs => rw [split]
  rw [List.takeWhile_append_of_pos (by simpa using before),
    List.takeWhile_cons_of_neg (by simp), List.append_nil]

theorem movedTo_of_listed
    (decodes : Decodes size 0 bytes rows)
    (listed : rows[position]? = some row) :
    movedTo rows row.1 = stopBehind 0 ((rows.take position).map Prod.snd) := by
  rw [movedTo, takeWhile_lt_eq_take decodes.placed.1 listed]

/-- The end moves to where all instructions stop. -/
theorem movedTo_length (decodes : Decodes size 0 bytes rows) :
    movedTo rows bytes.length = stopBehind 0 (rows.map Prod.snd) := by
  have inside : ∀ row ∈ rows, row.1 < bytes.length := by
    intro row member
    have := (decodes.placed.2 row.1 (List.mem_map_of_mem member)).2
    omega
  rw [movedTo, List.takeWhile_eq_self_iff.mpr (by simpa using inside)]

/-- No instruction moves further back. -/
theorem movedTo_le
    (decodes : Decodes size 0 bytes rows)
    (member : row ∈ rows) :
    movedTo rows row.1 ≤ row.1 := by
  obtain ⟨position, listed⟩ := List.mem_iff_getElem?.mp member
  rw [movedTo_of_listed decodes listed]
  exact stopBehind_take_le (Nat.le_refl 0) decodes listed

theorem movedTo_length_le (decodes : Decodes size 0 bytes rows) :
    movedTo rows bytes.length ≤ bytes.length := by
  rw [movedTo_length decodes]
  simpa using stopBehind_le_of_decodes (Nat.le_refl 0) decodes

end Moved

theorem nearTarget?_mapTargets
    (rename : Label → Label)
    (insn : Insn) :
    (insn.mapTargets rename).nearTarget? = insn.nearTarget?.map rename := by
  cases insn with
  | jump code target =>
      simp only [mapTargets, nearTarget?]
      split <;> rfl
  | _ => rfl

theorem mem_targets_of_nearTarget?
    {insn : Insn}
    {target : Label}
    (branches : insn.nearTarget? = some target) :
    target ∈ insn.targets := by
  cases insn with
  | jump code label =>
      simp only [nearTarget?] at branches
      split at branches
      · cases branches
      · cases branches
        exact List.mem_singleton_self _
  | _ => cases branches

end Insn

/-! ## Labels for targets -/

namespace Node

/-- The nodes are the instructions, with a named label in front of each that is branched to. -/
structure Relabels
    (name : Nat → Label)
    (rows : List (Nat × Insn))
    (nodes : List Node) : Prop where
  listed : insns nodes = rows.map fun row => row.2.mapTargets name
  distinct : (labels nodes).Nodup
  standing :
    ∀ position target insn,
      rows[position]? = some (target, insn) →
        (∃ row ∈ rows, target ∈ row.2.targets) → StandsAt (name target) nodes position

/-- Nothing but instructions and labels in front of those that are branched to. -/
def relabeled
    (name : Nat → Label)
    (rows : List (Nat × Insn)) : List Node :=
  ofSteps
    (rows.map fun row =>
      (⟨if row.1 ∈ rows.flatMap (·.2.targets) then some (name row.1) else none, []⟩,
        row.2.mapTargets name))
    none

variable {name : Nat → Label} {rows : List (Nat × Insn)} {nodes : List Node}

/-- Labels that are named apart stand once. -/
theorem relabels_relabeled
    (apart : Function.Injective name)
    (ascending : (rows.map Prod.fst).Pairwise (· < ·)) :
    Relabels name rows (relabeled name rows) := by
  refine ⟨?_, ?_, fun position target insn listed ⟨row, member, targeted⟩ => ?_⟩
  · rw [relabeled, insns_ofSteps, List.map_map]
    rfl
  · rw [relabeled, labels_ofSteps, List.filterMap_map, Option.toList_none, List.append_nil]
    have named :
        rows.filterMap ((·.1.label) ∘ fun row : Nat × Insn =>
            ((⟨if row.1 ∈ rows.flatMap (·.2.targets) then some (name row.1) else none, []⟩ : Spot),
              row.2.mapTargets name)) =
          (rows.map Prod.fst).filterMap fun offset =>
            if offset ∈ rows.flatMap (·.2.targets) then some (name offset) else none := by
      rw [List.filterMap_map]
      rfl
    rw [named]
    refine List.Nodup.filterMap (fun first second label inFirst inSecond => ?_)
      (ascending.imp Nat.ne_of_lt)
    simp only [Option.mem_def, Option.ite_none_right_eq_some, Option.some.injEq] at inFirst inSecond
    exact apart (inFirst.2.trans inSecond.2.symm)
  · rw [relabeled, standsAt_ofSteps_iff]
    have among : target ∈ rows.flatMap (·.2.targets) :=
      List.mem_flatMap.mpr ⟨row, member, targeted⟩
    exact .inl ⟨_, by rw [List.getElem?_map, listed]; rfl, if_pos among⟩

namespace Relabels

variable {size offset stop : Nat} {bytes : Bytes} {placed : List (Nat × Node)} {cells : List Cell}

theorem indexed
    (relabels : Relabels name rows nodes)
    (decodes : Insn.Decodes size offset bytes rows) :
    ∀ insn ∈ insns nodes, insn.Indexed := by
  rw [relabels.listed]
  refine List.forall_mem_map.mpr fun row member => ?_
  exact Insn.indexed_mapTargets (decodes.indexed row member)

theorem wellFormed
    (relabels : Relabels name rows nodes)
    (decodes : Insn.Decodes size offset bytes rows) :
    ∀ insn ∈ insns nodes, insn.WellFormed := by
  rw [relabels.listed]
  refine List.forall_mem_map.mpr fun row member => ?_
  exact Insn.wellFormed_mapTargets (decodes.wellFormed row member).1

/-- Labels do not change where instructions stop. -/
theorem stopBehind_take
    (relabels : Relabels name rows nodes)
    (position : Nat) :
    Insn.stopBehind 0 ((insns nodes).take position) =
      Insn.stopBehind 0 ((rows.take position).map Prod.snd) := by
  rw [← Insn.stopBehind_map_mapTargets name 0 ((rows.take position).map Prod.snd),
    relabels.listed, ← List.map_take, List.map_map]
  rfl

theorem stopBehind_insns
    (relabels : Relabels name rows nodes)
    (decodes : Insn.Decodes size 0 bytes rows) :
    Insn.stopBehind 0 (insns nodes) = Insn.movedTo rows bytes.length := by
  have all := relabels.stopBehind_take rows.length
  rwa [List.take_length, ← Insn.movedTo_length decodes,
    List.take_of_length_le (by rw [relabels.listed, List.length_map])] at all

end Relabels

end Node

/-! ## Laid out again -/

/-- Laid out nodes that name nothing have their instructions. -/
theorem Lays.map_placedInsns
    {offset stop : Nat}
    {nodes : List Node}
    {placed : List (Nat × Node)}
    {cells : List Cell}
    (lays : Lays Insn.Numbered offset nodes placed cells stop)
    (indexed : ∀ insn ∈ Node.insns nodes, insn.Indexed) :
    (Node.placedInsns placed).map Prod.snd = Node.insns nodes := by
  rw [← List.forall₂_eq_eq_eq, List.forall₂_map_left_iff]
  exact forall₂_flip_of_mem lays.forall₂_placedInsns fun insn located member numbered =>
    numbered.eq_of_indexed (indexed insn member)

/-- Nodes that name nothing and are not too long are laid out up to where their instructions stop. -/
theorem LaidOut.exists_ofNodes_of_indexed
    {nodes : List Node}
    (pool : Pool)
    (indexed : ∀ insn ∈ Node.insns nodes, insn.Indexed)
    (short : Insn.stopBehind 0 (Node.insns nodes) ≤ maxCodeLength) :
    ∃ laidOut,
      ofNodes nodes pool = .ok (laidOut, pool) ∧
        laidOut.size = Insn.stopBehind 0 (Node.insns nodes) := by
  obtain ⟨laidOut, laid⟩ := @exists_ofNodes nodes pool indexed short
  obtain ⟨placed, cells, lays, _⟩ := lays_of_foldlM laid (Nat.zero_le _)
  have numbered := lays.imp fun _ _ finds => finds.1
  refine ⟨laidOut, laid, numbered.stop_eq_stopBehind.trans ?_⟩
  rw [numbered.map_placedInsns indexed]
  rfl

/-- Decoded instructions have got labels for their targets, and the nodes have been laid out. -/
structure LaidAgain
    (name : Nat → Label)
    (rows : List (Nat × Insn))
    (bytes : Bytes)
    (nodes : List Node)
    (placed : List (Nat × Node))
    (laidOut : LaidOut) : Prop where
  relabels : Node.Relabels name rows nodes
  decodes : Insn.Decodes bytes.length 0 bytes rows
  bounded : ∀ row ∈ rows, ∀ target ∈ row.2.targets, target ∈ rows.map Prod.fst
  lays : Lays Insn.Numbered 0 nodes placed laidOut.cells.reverse.flatten laidOut.size
  short : laidOut.size ≤ maxCodeLength
  places : laidOut.labels = LaidOut.placeLabels ∅ placed

namespace LaidAgain

variable
  {name : Nat → Label} {rows : List (Nat × Insn)} {bytes : Bytes} {nodes : List Node}
  {placed : List (Nat × Node)} {laidOut : LaidOut}

/-- The instructions are placed where they move to. -/
theorem placedInsns_eq
    (laid : LaidAgain name rows bytes nodes placed laidOut) :
    Node.placedInsns placed =
      rows.map fun row => (Insn.movedTo rows row.1, row.2.mapTargets name) := by
  obtain ⟨relabels, decodes, _, lays, _, _⟩ := laid
  have insns := lays.map_placedInsns (relabels.indexed decodes)
  refine List.ext_getElem? fun position => ?_
  have same := congrArg (·[position]?) (insns.trans relabels.listed)
  simp only [List.getElem?_map] at same
  rw [List.getElem?_map]
  cases found : rows[position]? with
  | none =>
      rw [found] at same
      exact Option.map_eq_none_iff.mp same
  | some row =>
      rw [found] at same
      obtain ⟨⟨offset, insn⟩, placedAt, isRow⟩ := Option.map_eq_some_iff.mp same
      obtain rfl : insn = row.2.mapTargets name := isRow
      rw [placedAt, lays.offset_eq_stopBehind placedAt, List.map_take, insns,
        relabels.stopBehind_take, ← Insn.movedTo_of_listed decodes found]
      rfl

/-- The label of a target is placed where the target moves to. -/
theorem offset_name
    {row : Nat × Insn}
    {target : Nat}
    (laid : LaidAgain name rows bytes nodes placed laidOut)
    (member : row ∈ rows)
    (targeted : target ∈ row.2.targets) :
    laidOut.labels.offset (name target) = .ok (UInt16.ofNat (Insn.movedTo rows target)) ∧
      laidOut.labels.place (name target) = Insn.movedTo rows target ∧
        Insn.movedTo rows target < laidOut.size := by
  obtain ⟨⟨_, insn⟩, among, rfl⟩ := List.mem_map.mp (laid.bounded row member target targeted)
  obtain ⟨position, listed⟩ := List.mem_iff_getElem?.mp among
  have stands := laid.relabels.standing position _ insn listed ⟨row, member, targeted⟩
  obtain ⟨place, placedAt, found⟩ := laid.lays.exists_placed_label stands
  have inside : position < ((Node.placedInsns placed).map Prod.fst).length := by
    rw [laid.placedInsns_eq, List.length_map, List.length_map]
    exact (List.getElem?_eq_some_iff.mp listed).1
  rw [List.getElem?_append_left inside] at found
  have before : place < laidOut.size :=
    (List.pairwise_append.mp laid.lays.ascending.1).2.2 place (List.mem_of_getElem? found) _
      (List.mem_singleton_self laidOut.size)
  rw [laid.placedInsns_eq, List.map_map, List.getElem?_map, listed] at found
  obtain rfl := Option.some.inj found
  rw [laid.places]
  obtain ⟨isPlaced, isPlace⟩ :=
    laid.lays.offset_of_mem_placedLabels laid.relabels.distinct laid.short placedAt
  exact ⟨isPlaced, isPlace, before⟩

theorem mem_nearBranches_iff
    {origin : Nat}
    {label : Label}
    (laid : LaidAgain name rows bytes nodes placed laidOut) :
    (origin, label) ∈ Node.nearBranches placed ↔
      ∃ row ∈ rows,
        ∃ target,
          row.2.nearTarget? = some target ∧
            origin = Insn.movedTo rows row.1 ∧ label = name target := by
  rw [Node.nearBranches, laid.placedInsns_eq, List.filterMap_map]
  simp only [List.mem_filterMap, Function.comp_apply, Insn.nearTarget?_mapTargets,
    Option.map_eq_some_iff, Prod.mk.injEq]
  constructor
  · rintro ⟨row, member, _, ⟨target, branches, rfl⟩, rfl, rfl⟩
    exact ⟨row, member, target, branches, rfl, rfl⟩
  · rintro ⟨row, member, target, branches, rfl, rfl⟩
    exact ⟨row, member, _, ⟨target, branches, rfl⟩, rfl, rfl⟩

/-- Linking succeeds exactly if the branches in two bytes reach their targets. -/
theorem exists_link_iff
    (laid : LaidAgain name rows bytes nodes placed laidOut) :
    (∃ again, laidOut.link = .ok again) ↔ Insn.InReach rows := by
  have isPlaced (cell : Cell) (among : cell ∈ laidOut.cells.reverse.flatten) :
      ∀ origin label, cell = .near origin label ∨ cell = .far origin label →
        ∃ offset, laidOut.labels.offset label = .ok offset := by
    intro origin label distance
    obtain ⟨located, listed, targeted⟩ := laid.lays.exists_target_of_mem_cells among distance
    rw [laid.placedInsns_eq] at listed
    obtain ⟨row, member, rfl⟩ := List.mem_map.mp listed
    rw [Insn.targets_mapTargets] at targeted
    obtain ⟨target, origin, rfl⟩ := List.mem_map.mp targeted
    exact ⟨_, (laid.offset_name member origin).1⟩
  rw [(LaidOut.decided_link isPlaced).exists_ok_iff]
  constructor
  · intro free row member target branches
    by_contra beyond
    have among : .near (Insn.movedTo rows row.1) (name target) ∈ laidOut.cells.reverse.flatten :=
      laid.lays.near_mem_iff.mpr
        (laid.mem_nearBranches_iff.mpr ⟨row, member, target, branches, rfl, rfl⟩)
    have place := (laid.offset_name member (Insn.mem_targets_of_nearTarget? branches)).2.1
    exact free _ ⟨_, among, _, _, rfl, by rwa [place], rfl⟩
  · rintro inReach error ⟨_, among, origin, label, rfl, beyond, _⟩
    obtain ⟨row, member, target, branches, rfl, rfl⟩ :=
      laid.mem_nearBranches_iff.mp (laid.lays.near_mem_iff.mp among)
    rw [(laid.offset_name member (Insn.mem_targets_of_nearTarget? branches)).2.1] at beyond
    exact beyond (inReach row member target branches)

/-- Linked, the instructions are decoded where they have moved to. -/
theorem decode_of_link
    {again : Bytes}
    (laid : LaidAgain name rows bytes nodes placed laidOut)
    (linked : laidOut.link = .ok again) :
    again.length = laidOut.size ∧ Insn.decode again = .ok (Insn.moved rows) := by
  have inside :
      ∀ insn ∈ Node.insns nodes,
        ∀ target ∈ insn.targets, laidOut.labels.place target < laidOut.size := by
    rw [laid.relabels.listed]
    refine List.forall_mem_map.mpr fun row member label targeted => ?_
    rw [Insn.targets_mapTargets] at targeted
    obtain ⟨target, origin, rfl⟩ := List.mem_map.mp targeted
    obtain ⟨_, place, before⟩ := laid.offset_name member origin
    rwa [place]
  obtain ⟨reread, length⟩ :=
    laid.lays.decodes_of_wellFormed (LaidOut.links_of_link linked) laid.short
      (laid.relabels.wellFormed laid.decodes) inside
  rw [Nat.zero_add] at length
  refine ⟨length, Insn.decode_eq_ok_iff.mpr ?_⟩
  have rows_eq :
      ((Node.placedInsns placed).map fun row => (row.1, row.2.mapTargets laidOut.labels.place)) =
        Insn.moved rows := by
    rw [laid.placedInsns_eq, List.map_map]
    refine List.map_congr_left fun row member => congrArg (Prod.mk (Insn.movedTo rows row.1)) ?_
    rw [Insn.mapTargets_mapTargets]
    exact Insn.mapTargets_congr fun target targeted => (laid.offset_name member targeted).2.1
  rw [← rows_eq, length]
  exact reread

end LaidAgain

namespace LaidOut

/-- What laying out decoded instructions again, with labels for their targets, comes to. -/
structure Narrowed
    (name : Nat → Label)
    (rows : List (Nat × Insn))
    (size : Nat)
    (nodes : List Node)
    (pool : Pool)
    (laidOut : LaidOut) : Prop where
  size : laidOut.size = Insn.movedTo rows size
  starts :
    ∀ before item behind,
      nodes = before ++ .insn item :: behind →
        ∃ front row,
          ofNodes before pool = .ok (front, pool) ∧
            rows[(Node.insns before).length]? = some row ∧
              item = row.2.mapTargets name ∧ front.size = Insn.movedTo rows row.1
  labels :
    ∀ row ∈ rows,
      ∀ target ∈ row.2.targets,
        laidOut.labels.offset (name target) = .ok (UInt16.ofNat (Insn.movedTo rows target))
  links : (∃ again, laidOut.link = .ok again) ↔ Insn.InReach rows
  decodes :
    ∀ again,
      laidOut.link = .ok again →
        again.length = laidOut.size ∧ Insn.decode again = .ok (Insn.moved rows)

variable
  {name : Nat → Label} {rows : List (Nat × Insn)} {nodes : List Node} {pool : Pool}
  {bytes : Bytes} {size : Nat}

/-- The nodes in front of an instruction are laid out up to where it starts. -/
theorem exists_front
    {before behind : List Node}
    {item : Insn}
    (relabels : Node.Relabels name rows nodes)
    (decodes : Insn.Decodes size 0 bytes rows)
    (short : bytes.length ≤ maxCodeLength)
    (shape : nodes = before ++ .insn item :: behind) :
    ∃ front row,
      ofNodes before pool = .ok (front, pool) ∧
        rows[(Node.insns before).length]? = some row ∧
          item = row.2.mapTargets name ∧ front.size = Insn.movedTo rows row.1 := by
  have insns : Node.insns nodes = Node.insns before ++ item :: Node.insns behind := by
    rw [shape, Node.insns_append]
    rfl
  have here : (Node.insns nodes)[(Node.insns before).length]? = some item := by
    rw [insns, List.getElem?_append_right (Nat.le_refl _), Nat.sub_self]
    rfl
  rw [relabels.listed, List.getElem?_map] at here
  obtain ⟨row, listed, rfl⟩ := Option.map_eq_some_iff.mp here
  have member := List.mem_of_getElem? listed
  have moved : Insn.stopBehind 0 (Node.insns before) = Insn.movedTo rows row.1 := by
    rw [Insn.movedTo_of_listed decodes listed, ← relabels.stopBehind_take, insns, List.take_left]
  have small : Insn.stopBehind 0 (Node.insns before) ≤ maxCodeLength := by
    have inside := (decodes.placed.2 row.1 (List.mem_map_of_mem member)).2
    have narrowed := Insn.movedTo_le decodes member
    omega
  have indexed : ∀ insn ∈ Node.insns before, insn.Indexed := fun insn among =>
    relabels.indexed decodes insn (insns ▸ List.mem_append_left _ among)
  obtain ⟨front, laid, stopped⟩ := exists_ofNodes_of_indexed pool indexed small
  exact ⟨front, row, laid, listed, rfl, stopped.trans moved⟩

/-- Decoded instructions of a body that is not too long are laid out again. -/
theorem exists_narrowed
    (pool : Pool)
    (relabels : Node.Relabels name rows nodes)
    (decodes : Insn.Decodes bytes.length 0 bytes rows)
    (bounded : ∀ row ∈ rows, ∀ target ∈ row.2.targets, target ∈ rows.map Prod.fst)
    (short : bytes.length ≤ maxCodeLength) :
    ∃ laidOut,
      ofNodes nodes pool = .ok (laidOut, pool) ∧
        laidOut.Narrowed name rows bytes.length nodes pool := by
  have stopped := relabels.stopBehind_insns decodes
  have small : Insn.stopBehind 0 (Node.insns nodes) ≤ maxCodeLength :=
    stopped ▸ Nat.le_trans (Insn.movedTo_length_le decodes) short
  have indexed := relabels.indexed decodes
  obtain ⟨laidOut, laid, size⟩ := exists_ofNodes_of_indexed pool indexed small
  obtain ⟨placed, stop, lays, fits, places, _⟩ := exists_lays laid
  obtain rfl : stop = laidOut.size := by
    rw [size, lays.stop_eq_stopBehind, lays.map_placedInsns indexed]
  have again : LaidAgain name rows bytes nodes placed laidOut :=
    { relabels, decodes, bounded, lays, short := fits, places }
  exact ⟨laidOut, laid,
    { size := size.trans stopped
      starts := fun before item behind => exists_front relabels decodes short
      labels := fun row member target targeted => (again.offset_name member targeted).1
      links := again.exists_link_iff
      decodes := fun bytes => again.decode_of_link }⟩

end LaidOut

/-! ## Bodies that were read -/

namespace Body

/-- A body that was read has the instructions of its bytecode, with labels for their targets. -/
theorem DecodesTo.relabels
    {pool : Pool}
    {raw : CodeAttribute Attribute}
    {body : Body}
    {decoded : Decoded}
    {tables : Tables}
    (decodes : DecodesTo pool raw body decoded tables) :
    Node.Relabels (labelingOf decoded raw.handlers tables).labelAt decoded.insns body.nodes := by
  have decodedFrom := Decoded.decodedFrom_of_ofCode decodes.code
  refine ⟨?_, ?_, fun position target insn listed ⟨row, member, targeted⟩ => ?_⟩
  · rw [decodes.nodes_eq, Node.insns_ofSteps, readSteps, stepsOf, List.map_map]
    rfl
  · rw [decodes.labels_eq, filterMap_label?_offsets decodedFrom decodes.boundaries]
    exact List.nodup_range
  · rw [decodes.nodes_eq, Node.standsAt_ofSteps_iff]
    refine .inl ⟨_, by rw [readSteps, stepsOf, List.getElem?_map, listed]; rfl, ?_⟩
    exact decodes.label?_eq_some (mem_targets member targeted)

end Body

/--
Bytecode of at most 65535 bytes is decoded, and its branches go to instructions.
Once its instructions are laid out again with a label in front of each target, none
of them starts further back than it did, nor does the end.  They are linked exactly if
their branches fit, and then decoded as they were, with their targets where those
have moved to.  A body that was read is laid out so: it is never too long to be
written, and what is written is no longer than what was read.
-/
theorem LaidOut.narrowed_of_decode
    {code : Bytes}
    {rows : List (Nat × Insn)}
    (short : code.length ≤ maxCodeLength)
    (decoded : Insn.decode code = .ok rows)
    (bounded : ∀ row ∈ rows, ∀ target ∈ row.2.targets, target ∈ rows.map Prod.fst) :
    (∀ row ∈ rows, Insn.movedTo rows row.1 ≤ row.1) ∧
      Insn.movedTo rows code.length ≤ code.length ∧
        (∀ name,
          Function.Injective name → Node.Relabels name rows (Node.relabeled name rows)) ∧
          (∀ name nodes pool,
            Node.Relabels name rows nodes →
              ∃ laidOut,
                ofNodes nodes pool = .ok (laidOut, pool) ∧
                  laidOut.Narrowed name rows code.length nodes pool) ∧
            ∀ pool raw body,
              raw.code = code →
                Body.ofAttribute pool raw = .ok body →
                  (∃ name, Node.Relabels name rows body.nodes) ∧
                    ∀ context access method descriptor before,
                      (∀ size,
                        body.assemble context access method descriptor before ≠
                          .error (.codeTooLarge size)) ∧
                        ∀ written after,
                          body.assemble context access method descriptor before =
                              .ok (written, after) →
                            written.code.length = Insn.movedTo rows code.length ∧
                              Insn.decode written.code = .ok (Insn.moved rows) := by
  have decodes := Insn.decode_eq_ok_iff.mp decoded
  refine ⟨fun row => Insn.movedTo_le decodes, Insn.movedTo_length_le decodes,
    fun name apart => Node.relabels_relabeled apart decodes.placed.1,
    fun name nodes pool relabels => exists_narrowed pool relabels decodes bounded short, ?_⟩
  rintro pool raw body rfl read
  obtain ⟨found, tables, decodesTo⟩ := Body.ofAttribute_eq_ok_iff.mp read
  obtain rfl := Except.ok.inj ((Body.Decoded.decode_of_ofCode decodesTo.code).symm.trans decoded)
  refine ⟨⟨_, decodesTo.relabels⟩, fun context access method descriptor before => ?_⟩
  obtain ⟨laidOut, laid, narrowed⟩ :=
    exists_narrowed before decodesTo.relabels decodes bounded short
  refine ⟨Unlimited.ne_codeTooLarge ?_, fun written after assembled => ?_⟩
  · have plain : body.hints = none := congrArg Body.hints decodesTo.shape
    exact Body.unlimited_assemble plain (laid ▸ failsOnly_ok _)
  · obtain ⟨steps⟩ := Body.nonempty_assembling assembled
    obtain ⟨same, _⟩ := Prod.mk.inj (Except.ok.inj (steps.laid.symm.trans laid))
    obtain ⟨length, reread⟩ := narrowed.decodes written.code (same ▸ steps.linked)
    exact ⟨length.trans narrowed.size, reread⟩

/-- A load that is wide without need, a switch behind it, and a branch back. -/
def wideLoop : CodeAttribute Attribute where
  maxStack := 1
  maxLocals := 1
  code :=
    [0xC4, 0x15, 0x00, 0x00, 0x00, 0x00, 0x00, 0xAA, 0x00, 0x00, 0x00, 0x11, 0x00, 0x00, 0x00,
      0x00, 0x00, 0x00, 0x00, 0x00, 0xFF, 0xFF, 0xFF, 0xFD, 0xA7, 0xFF, 0xEC]
  handlers := []
  attributes := []

/-- The instructions of that loop. -/
def wideLoopInsns : List (Nat × Insn) :=
  [(0, .slot 0x15 0), (4, .plain 0x00), (5, .plain 0x00), (6, .plain 0x00),
    (7, .tableSwitch 0xAA 24 0 0 [4]), (24, .jump 0xA7 4)]

/-- The load loses two bytes, the switch moves by them and fills as many up. -/
theorem LaidOut.narrowed_of_wideLoop :
    Insn.decode wideLoop.code = .ok wideLoopInsns ∧
      wideLoopInsns.map (fun row => Insn.movedTo wideLoopInsns row.1) = [0, 2, 3, 4, 5, 24] ∧
        (∃ laidOut again,
          ofNodes (Node.relabeled id wideLoopInsns) .empty = .ok (laidOut, .empty) ∧
            laidOut.size = 27 ∧
              laidOut.link = .ok again ∧
                Insn.decode again =
                  .ok [(0, .slot 0x15 0), (2, .plain 0x00), (3, .plain 0x00), (4, .plain 0x00),
                    (5, .tableSwitch 0xAA 24 0 0 [2]), (24, .jump 0xA7 2)]) ∧
          ∃ body,
            Body.ofAttribute .empty wideLoop = .ok body ∧
              ∀ context access method descriptor size,
                body.assemble context access method descriptor .empty ≠
                  .error (.codeTooLarge size) := by
  have decoded : Insn.decode wideLoop.code = .ok wideLoopInsns := by decide +kernel
  have bounded :
      ∀ row ∈ wideLoopInsns, ∀ target ∈ row.2.targets, target ∈ wideLoopInsns.map Prod.fst := by
    decide
  obtain ⟨_, _, relabels, narrows, bodies⟩ := narrowed_of_decode (by decide) decoded bounded
  obtain ⟨laidOut, laid, narrowed⟩ := narrows id _ .empty (relabels id Function.injective_id)
  obtain ⟨again, linked⟩ := narrowed.links.mpr (by decide)
  obtain ⟨body, read⟩ : ∃ body, Body.ofAttribute .empty wideLoop = .ok body := by
    have outcome : (Body.ofAttribute .empty wideLoop).toOption.isSome := by decide +kernel
    obtain ⟨body, read⟩ := Option.isSome_iff_exists.mp outcome
    exact ⟨body, toOption_eq_some_iff.mp read⟩
  refine ⟨decoded, by decide, ⟨laidOut, again, laid, narrowed.size.trans (by decide), linked, ?_⟩,
    body, read, fun context access method descriptor =>
      ((bodies .empty wideLoop body rfl read).2 context access method descriptor .empty).1⟩
  rw [(narrowed.decodes again linked).2]
  decide

end JvmClass
