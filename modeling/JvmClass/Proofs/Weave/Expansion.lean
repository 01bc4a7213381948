import JvmClass.Proofs.Weave.Blocks

namespace JvmClass

/-!
# Expanded bodies

A body grows by instructions at its start, in front of some of its own, and
around it.  Its own instructions stay in their order, each in a block of its own,
and its labels stay in front of the blocks of the instructions that they stood in
front of.
-/

/-- The nodes of a body with what is added to them. -/
structure Expansion where
  /-- What is inserted in front of a node. -/
  snippet : Origin × Node → List Insn
  entry : List Insn
  opening : List (Origin × Node)
  closing : List (Origin × Node)
  nodes : List Node

namespace Expansion

variable (expansion : Expansion)

/-- The nodes that something may be inserted in front of. -/
def core : List (Origin × Node) :=
  expansion.opening ++ expansion.nodes.map (fun node => (.original, node)) ++ expansion.closing

/-- All nodes. -/
def tagged : List (Origin × Node) :=
  Flow.assembled expansion.snippet expansion.entry expansion.core

/-- The instructions that begin no block of another one. -/
def items : List (Origin × Insn) :=
  Flow.insns expansion.core

/-- What is inserted in front of an instruction. -/
def ahead (item : Origin × Insn) : List Insn :=
  expansion.snippet (item.1, .insn item.2)

/-- Where the block of the instruction at an index begins. -/
def start (index : Nat) : Nat :=
  expansion.entry.length +
    Flow.blockStart (Flow.blockOf expansion.snippet) expansion.items index

/-- Snippets are straight and stand in front of instructions, of which the first are the body's. -/
structure Regular : Prop where
  straightEntry : ∀ insn ∈ expansion.entry, insn.targets = [] ∧ insn.opcode.endsFlow = false
  straight :
    ∀ node, ∀ insn ∈ expansion.snippet node, insn.targets = [] ∧ insn.opcode.endsFlow = false
  silent : ∀ origin node, (∀ insn, node ≠ .insn insn) → expansion.snippet (origin, node) = []
  opening : Flow.insns expansion.opening = []

/--
A position of an expanded body and the instruction there: at the start, in front of
an instruction, or an instruction itself whose index is among some.
-/
inductive Spot (among : Nat → Prop) : Nat → Insn → Prop
  | entry
      {place : Nat}
      {insn : Insn}
      (listed : expansion.entry[place]? = some insn) :
      Spot among place insn
  | inserted
      {index place : Nat}
      {item : Origin × Insn}
      {insn : Insn}
      (isAmong : among index)
      (listed : expansion.items[index]? = some item)
      (inFront : (expansion.ahead item)[place]? = some insn) :
      Spot among (expansion.start index + place) insn
  | kept
      {index : Nat}
      {item : Origin × Insn}
      (isAmong : among index)
      (listed : expansion.items[index]? = some item) :
      Spot among (expansion.start index + (expansion.ahead item).length) item.2

section Positions

variable {expansion} {among : Nat → Prop} {index position : Nat} {item : Origin × Insn} {insn : Insn}
  {label : Label}

@[simp] theorem start_zero : expansion.start 0 = expansion.entry.length := by
  simp [start]

/-- A block holds what is inserted and the instruction. -/
theorem start_succ (listed : expansion.items[index]? = some item) :
    expansion.start (index + 1) = expansion.start index + (expansion.ahead item).length + 1 := by
  rw [start, Flow.blockStart_succ listed, Flow.length_blockOf, start, ahead]
  omega

theorem start_mono
    {later : Nat}
    (notBehind : index ≤ later)
    (inside : later ≤ expansion.items.length) :
    expansion.start index ≤ expansion.start later := by
  have nonempty : ∀ item ∈ expansion.items, 0 < (Flow.blockOf expansion.snippet item).length :=
    fun item _ => by simp
  have := Flow.blockStart_le nonempty notBehind inside
  unfold start
  omega

theorem le_start : expansion.entry.length ≤ expansion.start index :=
  Nat.le_add_right _ _

/-- A position of a block lies behind the beginning of another block exactly if the block does. -/
theorem start_le_iff
    {other place : Nat}
    (listed : expansion.items[index]? = some item)
    (inside : place ≤ (expansion.ahead item).length)
    (bounded : other ≤ expansion.items.length) :
    expansion.start other ≤ expansion.start index + place ↔ other ≤ index := by
  constructor
  · intro notBehind
    by_contra behind
    have := start_mono (show index + 1 ≤ other by omega) bounded
    rw [start_succ listed] at this
    omega
  · intro notBehind
    have short := (List.getElem?_eq_some_iff.mp listed).1
    have := start_mono notBehind (Nat.le_of_lt short)
    omega

theorem start_lt
    {later : Nat}
    (before : index < later)
    (inside : later ≤ expansion.items.length) :
    expansion.start index < expansion.start later := by
  have short : index < expansion.items.length := by omega
  have := start_succ (List.getElem?_eq_getElem short)
  have := start_mono (show index + 1 ≤ later from before) inside
  omega

/-- A position lies in one block. -/
theorem index_eq
    {other place otherPlace : Nat}
    {otherItem : Origin × Insn}
    (listed : expansion.items[index]? = some item)
    (inside : place ≤ (expansion.ahead item).length)
    (otherListed : expansion.items[other]? = some otherItem)
    (otherInside : otherPlace ≤ (expansion.ahead otherItem).length)
    (same : expansion.start index + place = expansion.start other + otherPlace) :
    index = other := by
  have short := (List.getElem?_eq_some_iff.mp listed).1
  have otherShort := (List.getElem?_eq_some_iff.mp otherListed).1
  have first := (start_le_iff listed inside (Nat.le_of_lt otherShort)).mp (by omega)
  have second := (start_le_iff otherListed otherInside (Nat.le_of_lt short)).mp (by omega)
  omega

section Regular

variable (regular : expansion.Regular)
include regular

theorem insns_tagged :
    Node.insns (expansion.tagged.map Prod.snd) =
      expansion.entry ++
        (expansion.items.flatMap (Flow.blockOf expansion.snippet)).map Prod.snd := by
  rw [tagged, ← Flow.map_snd_insns, Flow.insns_assembled regular.silent, items]
  simp

/-- At a spot stands its instruction. -/
theorem getElem?_of_spot (spot : expansion.Spot among position insn) :
    (Node.insns (expansion.tagged.map Prod.snd))[position]? = some insn := by
  have block (index place : Nat) (item : Origin × Insn)
      (listed : expansion.items[index]? = some item)
      (inside : place < (Flow.blockOf expansion.snippet item).length) :
      (Node.insns (expansion.tagged.map Prod.snd))[expansion.start index + place]? =
        ((Flow.blockOf expansion.snippet item)[place]?).map Prod.snd := by
    rw [insns_tagged regular, start, Nat.add_assoc, List.getElem?_append_right (by omega),
      Nat.add_sub_cancel_left, List.getElem?_map, Flow.getElem?_flatMap listed inside]
  cases spot with
  | entry listed =>
      rw [insns_tagged regular, List.getElem?_append_left (List.getElem?_eq_some_iff.mp listed).1]
      exact listed
  | @inserted index place item _ isAmong listed inFront =>
      have inside : place < (expansion.snippet (item.1, .insn item.2)).length :=
        (List.getElem?_eq_some_iff.mp inFront).1
      rw [block index place item listed (by rw [Flow.length_blockOf]; omega), Flow.blockOf,
        List.getElem?_append_left (by simpa using inside), List.getElem?_map]
      simp [show (expansion.snippet (item.1, .insn item.2))[place]? = some insn from inFront]
  | @kept index item isAmong listed =>
      rw [block index _ item listed (by rw [Flow.length_blockOf, ahead]; omega), Flow.blockOf,
        List.getElem?_append_right (by simp [ahead])]
      simp [ahead]

/-- A label among the nodes stands in front of the block of the instruction behind it. -/
theorem standsAt_of_core (stands : Node.StandsAt label (expansion.core.map Prod.snd) position) :
    Node.StandsAt label (expansion.tagged.map Prod.snd) (expansion.start position) := by
  have behind := Flow.standsAt_insns expansion.entry (Flow.standsAt_blocks regular.silent stands)
  rw [tagged, Flow.assembled, List.map_append, List.map_map]
  exact behind

/-- The nodes that something may be inserted in front of are those around the body and its own. -/
theorem map_snd_core :
    expansion.core.map Prod.snd =
        expansion.opening.map Prod.snd ++
          (expansion.nodes ++ expansion.closing.map Prod.snd) ∧
      Node.insns (expansion.opening.map Prod.snd) = [] := by
  constructor
  · simp [core, Function.comp_def]
  · rw [← Flow.map_snd_insns, regular.opening]
    rfl

/-- A label stands in front of the block of the instruction that it stood in front of. -/
theorem standsAt_tagged (stands : Node.StandsAt label expansion.nodes position) :
    Node.StandsAt label (expansion.tagged.map Prod.snd) (expansion.start position) := by
  obtain ⟨shape, silent⟩ := map_snd_core regular
  refine standsAt_of_core regular ?_
  have behind :=
    @Node.StandsAt.append_right _ (expansion.opening.map Prod.snd) _ _
      (@Node.StandsAt.append_left _ _ (expansion.closing.map Prod.snd) _ stands)
  rwa [silent, List.length_nil, Nat.zero_add, ← shape] at behind

/-- A label around the body stands in front of the block of the instruction behind it. -/
theorem standsAt_closing
    (stands : Node.StandsAt label (expansion.closing.map Prod.snd) position) :
    Node.StandsAt label (expansion.tagged.map Prod.snd)
      (expansion.start ((Node.insns expansion.nodes).length + position)) := by
  obtain ⟨shape, silent⟩ := map_snd_core regular
  refine standsAt_of_core regular ?_
  have behind :=
    @Node.StandsAt.append_right _ (expansion.opening.map Prod.snd) _ _
      (@Node.StandsAt.append_right _ expansion.nodes _ _ stands)
  rwa [silent, List.length_nil, Nat.zero_add, ← shape] at behind

/-- The instructions are those of the body, and those behind it. -/
theorem items_eq :
    expansion.items =
      (Node.insns expansion.nodes).map (Origin.original, ·) ++ Flow.insns expansion.closing := by
  have originals :
      Flow.insns (expansion.nodes.map fun node => (Origin.original, node)) =
        (Node.insns expansion.nodes).map (Origin.original, ·) := by
    simp only [Flow.insns, Node.insns, List.filterMap_map, List.map_filterMap]
    refine List.filterMap_congr fun node _ => ?_
    cases node <;> rfl
  rw [items, core, Flow.insns_append, Flow.insns_append, regular.opening, List.nil_append,
    originals]

/-- The first instructions are those of the body. -/
theorem getElem?_items
    (listed : (Node.insns expansion.nodes)[index]? = some insn) :
    expansion.items[index]? = some (.original, insn) := by
  have inside := (List.getElem?_eq_some_iff.mp listed).1
  rw [items_eq regular, List.getElem?_append_left (by simpa using inside), List.getElem?_map, listed]
  rfl

end Regular

/-! ### Onward from spots -/

/-- A block begins with a spot. -/
theorem exists_spot_start
    (isAmong : among index)
    (listed : expansion.items[index]? = some item) :
    ∃ insn, expansion.Spot among (expansion.start index) insn := by
  cases front : expansion.ahead item with
  | nil =>
      have spot : expansion.Spot among _ item.2 := .kept isAmong listed
      rw [front] at spot
      exact ⟨item.2, spot⟩
  | cons insn rest =>
      have spot : expansion.Spot among (expansion.start index + 0) insn :=
        .inserted isAmong listed (by rw [front]; rfl)
      exact ⟨insn, spot⟩

/-- Behind what is inserted more of it follows, or the instruction. -/
theorem exists_spot_behind_inserted
    {place : Nat}
    (isAmong : among index)
    (listed : expansion.items[index]? = some item)
    (inFront : (expansion.ahead item)[place]? = some insn) :
    ∃ next, expansion.Spot among (expansion.start index + place + 1) next := by
  have inside := (List.getElem?_eq_some_iff.mp inFront).1
  by_cases last : place + 1 < (expansion.ahead item).length
  · exact ⟨_, .inserted isAmong listed (List.getElem?_eq_getElem last)⟩
  · have length : place + 1 = (expansion.ahead item).length := by omega
    rw [Nat.add_assoc, length]
    exact ⟨item.2, .kept isAmong listed⟩

/-- Behind what is inserted at the start more of it follows, or the first block. -/
theorem exists_spot_behind_entry
    {place : Nat}
    (isAmong : among 0)
    (first : expansion.items[0]? = some item)
    (listed : expansion.entry[place]? = some insn) :
    ∃ next, expansion.Spot among (place + 1) next := by
  have inside := (List.getElem?_eq_some_iff.mp listed).1
  by_cases last : place + 1 < expansion.entry.length
  · exact ⟨_, .entry (List.getElem?_eq_getElem last)⟩
  · have length : place + 1 = expansion.start 0 := by
      rw [start_zero]
      omega
    rw [length]
    exact exists_spot_start isAmong first

/-- An expanded body begins with a spot. -/
theorem exists_spot_zero
    (isAmong : among 0)
    (first : expansion.items[0]? = some item) :
    ∃ insn, expansion.Spot among 0 insn := by
  cases entry : expansion.entry with
  | nil =>
      obtain ⟨insn, spot⟩ := exists_spot_start isAmong first
      rw [start_zero, entry] at spot
      exact ⟨insn, spot⟩
  | cons insn rest => exact ⟨insn, .entry (by rw [entry]; rfl)⟩

end Positions

end Expansion

/-! ## Expansions of a body -/

/-- A body that nothing is added to. -/
def Body.unexpanded (body : Body) : Expansion :=
  ⟨fun _ => [], [], [], [], body.nodes⟩

theorem Body.regular_unexpanded (body : Body) : body.unexpanded.Regular :=
  ⟨nofun, fun _ => nofun, fun _ _ _ => rfl, rfl⟩

theorem Body.map_snd_tagged_unexpanded (body : Body) :
    body.unexpanded.tagged.map Prod.snd = body.nodes := by
  simp [Body.unexpanded, Expansion.tagged, Expansion.core, Flow.assembled, Flow.blocks,
    Function.comp_def]

namespace Weaver

variable {Memory : Type} (weaver : Weaver Memory) (memory : Memory) (body : Body)

/-- A body with what weaving adds to it. -/
def expansion : Expansion :=
  ⟨weaver.inserted memory body, weaver.entryInsns memory body, weaver.openingNodes body,
    weaver.closingNodes body, body.nodes⟩

variable {weaver}

theorem regular_expansion (straight : weaver.advice.Straight) :
    (weaver.expansion memory body).Regular := by
  have regular := regular_weave memory body straight
  refine ⟨regular.straightEntry, regular.straight, regular.silent, ?_⟩
  simp only [expansion, openingNodes]
  cases weaver.detection <;> rfl

theorem nodes_wovenBody (straight : weaver.advice.Straight) :
    (weaver.wovenBody memory body).nodes = (weaver.expansion memory body).tagged.map Prod.snd :=
  congrArg (List.map Prod.snd) (tagged_weave memory body straight)

end Weaver

end JvmClass
