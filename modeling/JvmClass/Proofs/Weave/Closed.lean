import JvmClass.Proofs.Body.Linked
import JvmClass.Proofs.Weave.Expansion

namespace JvmClass

/-!
# Woven bodies are closed

What is inserted into a body branches nowhere, and the labels of a handler around
it are new, so a woven body is laid out and decoded like the one that it was.
-/

/-- A body that was read is closed. -/
theorem Body.Regular.closed
    {pool : Pool}
    {body : Body}
    {steps : List (Spot × Insn)}
    {last : Option Label}
    (regular : body.Regular pool steps last) :
    Node.Closed body.nodes := by
  have listed : Node.insns body.nodes = steps.map Prod.snd := by
    rw [regular.nodes, Node.insns_ofSteps]
  refine ⟨?_, ?_, ?_⟩
  · rw [regular.numbered]
    exact List.nodup_range
  · rw [listed]
    intro insn member
    obtain ⟨step, stepListed, rfl⟩ := List.mem_map.mp member
    exact (regular.insns step stepListed).1
  · rw [listed]
    intro insn member target targeted
    obtain ⟨step, stepListed, rfl⟩ := List.mem_map.mp member
    obtain ⟨goal, goalListed, labelled⟩ :=
      List.mem_filterMap.mp ((regular.insns step stepListed).2.2.2 target targeted)
    obtain ⟨position, inside, rfl⟩ := List.mem_iff_getElem.mp goalListed
    refine ⟨position, by simpa using inside, ?_⟩
    rw [regular.nodes]
    exact Node.standsAt_ofSteps_iff.mpr
      (.inl ⟨_, List.getElem?_eq_getElem inside, labelled⟩)

/-- The labels of a body lie below its first free one. -/
theorem Body.lt_nextLabel
    {body : Body}
    {label : Label}
    (placed : label ∈ Node.labels body.nodes) :
    label < body.nextLabel := by
  have bound (labels : List Label) (first : Label) :
      first ≤ labels.foldl (fun next label => max next (label + 1)) first ∧
        ∀ label ∈ labels,
          label < labels.foldl (fun next label => max next (label + 1)) first := by
    induction labels generalizing first with
    | nil => simp
    | cons other labels inductionHypothesis =>
        obtain ⟨enough, below⟩ := inductionHypothesis (max first (other + 1))
        rw [List.foldl_cons, List.forall_mem_cons]
        exact ⟨Nat.le_trans (Nat.le_max_left _ _) enough,
          Nat.lt_of_succ_le (Nat.le_trans (Nat.le_max_right _ _) enough), below⟩
  exact (bound _ 0).2 label placed

namespace Expansion

variable {expansion : Expansion}

/-- What is collected of an expanded body, apart from instructions, is from around it and its own. -/
theorem filterMap_tagged
    {α : Type}
    {collect : Node → Option α}
    (silent : ∀ insn, collect (.insn insn) = none) :
    (expansion.tagged.map Prod.snd).filterMap collect =
      (expansion.opening.map Prod.snd).filterMap collect ++
        (expansion.nodes.filterMap collect ++
          (expansion.closing.map Prod.snd).filterMap collect) := by
  have entry :
      ((expansion.entry.map fun insn => (Origin.entry, Node.insn insn)).map
        Prod.snd).filterMap collect = [] := by
    simp [List.filterMap_map, Function.comp_def, silent]
  have plain : (expansion.nodes.map fun node => (Origin.original, node)).map Prod.snd =
      expansion.nodes := by
    simp [Function.comp_def]
  rw [tagged, Flow.assembled, List.map_append, List.filterMap_append, entry, List.nil_append,
    Flow.filterMap_blocks silent, core, List.map_append, List.map_append, plain,
    List.filterMap_append, List.filterMap_append, List.append_assoc]

/-- The labels of an expanded body are those around it and its own. -/
theorem labels_tagged :
    Node.labels (expansion.tagged.map Prod.snd) =
      Node.labels (expansion.opening.map Prod.snd) ++
        (Node.labels expansion.nodes ++ Node.labels (expansion.closing.map Prod.snd)) :=
  filterMap_tagged fun _ => rfl

/-- An instruction of an expanded body was inserted, or is one of the body or of those around it. -/
theorem cases_of_mem_insns
    {insn : Insn}
    (regular : expansion.Regular)
    (member : insn ∈ Node.insns (expansion.tagged.map Prod.snd)) :
    (insn ∈ expansion.entry ∨ ∃ node, insn ∈ expansion.snippet node) ∨
      insn ∈ Node.insns expansion.nodes ∨
        insn ∈ Node.insns (expansion.closing.map Prod.snd) := by
  rw [insns_tagged regular, List.mem_append] at member
  rcases member with entry | inBlock
  · exact .inl (.inl entry)
  · obtain ⟨tagged, listed, rfl⟩ := List.mem_map.mp inBlock
    obtain ⟨item, itemListed, inside⟩ := List.mem_flatMap.mp listed
    rcases List.mem_append.mp inside with inserted | kept
    · obtain ⟨other, otherListed, rfl⟩ := List.mem_map.mp inserted
      exact .inl (.inr ⟨_, otherListed⟩)
    · rw [List.mem_singleton.mp kept]
      have plain : (expansion.nodes.map fun node => (Origin.original, node)).map Prod.snd =
          expansion.nodes := by
        simp [Function.comp_def]
      have among : item.2 ∈ (Flow.insns expansion.core).map Prod.snd :=
        List.mem_map_of_mem itemListed
      rw [core, Flow.insns_append, Flow.insns_append, regular.opening, List.nil_append,
        List.map_append, Flow.map_snd_insns, Flow.map_snd_insns, plain, List.mem_append] at among
      exact .inr among

/-- A closed body stays closed when straight code with operands in order comes to it. -/
theorem closed
    (regular : expansion.Regular)
    (closed : Node.Closed expansion.nodes)
    (distinct : (Node.labels (expansion.tagged.map Prod.snd)).Nodup)
    (entry : ∀ insn ∈ expansion.entry, insn.WellFormed)
    (snippets : ∀ node, ∀ insn ∈ expansion.snippet node, insn.WellFormed)
    (closing :
      ∀ insn ∈ Node.insns (expansion.closing.map Prod.snd),
        insn.WellFormed ∧ insn.targets = []) :
    Node.Closed (expansion.tagged.map Prod.snd) := by
  refine ⟨distinct, fun insn member => ?_, fun insn member target targeted => ?_⟩
  · rcases cases_of_mem_insns regular member with (atStart | ⟨node, inFront⟩) | own | behind
    · exact entry insn atStart
    · exact snippets node insn inFront
    · exact closed.wellFormed insn own
    · exact (closing insn behind).1
  · have straight (none : insn.targets = []) (goal : Prop) : goal := by
      rw [none] at targeted
      cases targeted
    rcases cases_of_mem_insns regular member with (atStart | ⟨node, inFront⟩) | own | behind
    · exact straight (regular.straightEntry insn atStart).1 _
    · exact straight (regular.straight node insn inFront).1 _
    · obtain ⟨position, inside, stands⟩ := closed.inside insn own target targeted
      refine ⟨expansion.start position, ?_, standsAt_tagged regular stands⟩
      have listed := getElem?_items regular (List.getElem?_eq_getElem inside)
      obtain ⟨first, spot⟩ := @exists_spot_start _ (fun _ => True) _ _ trivial listed
      exact (List.getElem?_eq_some_iff.mp (getElem?_of_spot regular spot)).1
    · exact straight (closing insn behind).2 _

end Expansion

/-- The instructions of advice have operands as their opcodes ask. -/
structure Advice.WellFormed {Memory : Type} (advice : Advice Memory) : Prop where
  enter :
    ∀ memory slots, ∀ insn ∈ Node.insns (advice.enter memory slots).1.nodes, insn.WellFormed
  exit : ∀ memory opcode, ∀ insn ∈ Node.insns (advice.exit memory opcode).nodes, insn.WellFormed

namespace Timer

variable (field : Member) (clock : Clock)

theorem wellFormed_fieldCounter :
    (fieldCounter field clock).WellFormed := by
  have changes {combine : Opcode} (plain : (Insn.plain combine).WellFormed) :
      ∀ insn ∈ Node.insns (changeField field clock combine).nodes, insn.WellFormed := by
    simp only [changeField, Snippet.ofInsns, Node.insns, List.map_cons, List.map_nil,
      List.filterMap_cons, List.filterMap_nil, List.forall_mem_cons, List.not_mem_nil,
      false_imp_iff, implies_true, and_true]
    exact ⟨rfl, rfl, plain, rfl⟩
  exact ⟨fun _ _ => changes rfl, fun _ _ => changes rfl⟩

theorem wellFormed_localScoped :
    (localScoped field clock).WellFormed := by
  constructor
  · intro memory slots
    simp only [localScoped]
    rcases slots.allot 2 with ⟨_ | slot, behind⟩
    · rintro insn ⟨⟩
    · simp only [Snippet.ofInsns, Node.insns, List.map_cons, List.map_nil, List.filterMap_cons,
        List.filterMap_nil, List.forall_mem_cons, List.not_mem_nil, false_imp_iff, implies_true,
        and_true]
      exact ⟨rfl, rfl⟩
  · intro memory opcode
    cases memory with
    | none => rintro insn ⟨⟩
    | some slot =>
        simp only [localScoped, addElapsed, Snippet.ofInsns, Node.insns, List.map_cons,
          List.map_nil, List.filterMap_cons, List.filterMap_nil, List.forall_mem_cons,
          List.not_mem_nil, false_imp_iff, implies_true, and_true]
        exact ⟨rfl, rfl, rfl, rfl, rfl, rfl⟩

end Timer

namespace Weaver

variable {Memory : Type} {weaver : Weaver Memory}

/-- The labels of a handler around a body are none of the body's. -/
theorem distinct_expansion
    (memory : Memory)
    {body : Body}
    (distinct : (Node.labels body.nodes).Nodup) :
    (Node.labels ((weaver.expansion memory body).tagged.map Prod.snd)).Nodup := by
  rw [Expansion.labels_tagged]
  simp only [expansion, openingNodes, closingNodes]
  cases weaver.detection with
  | explicit => simpa [Node.labels] using distinct
  | guarded =>
      have fresh (distance : Nat) : body.nextLabel + distance ∉ Node.labels body.nodes :=
        fun placed => Nat.not_lt.mpr (Nat.le_add_right _ _) (Body.lt_nextLabel placed)
      have first := fresh 0
      have second := fresh 1
      have third := fresh 2
      show
        ([body.nextLabel] ++
          (Node.labels body.nodes ++ [body.nextLabel + 1, body.nextLabel + 2])).Nodup
      rw [List.singleton_append, List.nodup_cons, List.nodup_append]
      refine ⟨by simpa using first, distinct, by simp, ?_⟩
      rintro label placed other behind rfl
      rcases List.mem_pair.mp behind with rfl | rfl
      · exact second placed
      · exact third placed

/-- A woven body keeps the local variables of the body if the slots do not run out. -/
theorem maxLocals_le_wovenBody
    {memory : Memory}
    {body : Body}
    (small : (weaver.enteredState memory body).slots.next < 2 ^ 16) :
    body.maxLocals.toNat ≤ (weaver.wovenBody memory body).maxLocals.toNat := by
  have bounded := body.maxLocals.toNat_lt
  rw [wovenBody, UInt16.toNat_ofNat_of_lt' (show max _ _ < 2 ^ 16 by omega)]
  exact Nat.le_max_left _ _

/-- A woven body marks the lines that the body does. -/
theorem lineMarks_wovenBody
    (memory : Memory)
    {body : Body}
    (straight : weaver.advice.Straight) :
    LaidOut.lineMarks (weaver.wovenBody memory body).nodes = LaidOut.lineMarks body.nodes := by
  rw [nodes_wovenBody memory body straight]
  refine (Expansion.filterMap_tagged fun _ => rfl).trans ?_
  simp only [expansion, openingNodes, closingNodes]
  cases weaver.detection with
  | explicit => exact List.append_nil _
  | guarded => exact List.append_nil _

/-- Weaving straight advice into a closed body gives one. -/
theorem closed_wovenBody
    (memory : Memory)
    {body : Body}
    (straight : weaver.advice.Straight)
    (wellFormed : weaver.advice.WellFormed)
    (closed : Node.Closed body.nodes) :
    Node.Closed (weaver.wovenBody memory body).nodes := by
  rw [nodes_wovenBody memory body straight]
  refine Expansion.closed (regular_expansion memory body straight) closed
    (distinct_expansion memory closed.distinct) (wellFormed.enter _ _) ?_ ?_
  · rintro ⟨origin, node⟩ insn member
    cases node with
    | insn exit =>
        simp only [expansion, inserted] at member
        split at member
        · exact wellFormed.exit _ _ insn member
        · cases member
    | label _ | line _ _ => cases member
  · simp only [expansion, closingNodes]
    cases weaver.detection with
    | explicit => rintro insn ⟨⟩
    | guarded =>
        intro insn member
        obtain rfl : insn = .plain Opcode.throwReference := by simpa [Node.insns] using member
        exact ⟨rfl, rfl⟩

end Weaver

end JvmClass
