import JvmClass.Proofs.Body.Positions
import JvmClass.Proofs.Weave.Exits
import JvmClass.Timer

namespace JvmClass

/-!
# Woven bodies by position

The instructions of a woven body are those of the body, each behind what is
inserted in front of it, so every position of the body has a block of positions
of the woven body.  Labels stand in front of blocks.
-/

namespace Flow

/-! ## Rows of blocks -/

section Starts

variable {α β : Type} {block : α → List β} {items : List α} {index : Nat} {item : α}

/-- Where the block of the item at an index begins. -/
def blockStart
    (block : α → List β)
    (items : List α)
    (index : Nat) : Nat :=
  ((items.take index).flatMap block).length

@[simp] theorem blockStart_zero : blockStart block items 0 = 0 := by
  simp [blockStart]

theorem blockStart_succ
    (listed : items[index]? = some item) :
    blockStart block items (index + 1) = blockStart block items index + (block item).length := by
  simp [blockStart, List.take_add_one, listed]

theorem blockStart_cons_succ
    (first : α)
    (index : Nat) :
    blockStart block (first :: items) (index + 1) =
      (block first).length + blockStart block items index := by
  simp [blockStart]

/-- The items of a block stand one behind the other. -/
theorem getElem?_flatMap
    {place : Nat}
    (listed : items[index]? = some item)
    (inside : place < (block item).length) :
    (items.flatMap block)[blockStart block items index + place]? = (block item)[place]? := by
  induction items generalizing index with
  | nil => cases listed
  | cons first items inductionHypothesis =>
      cases index with
      | zero =>
          cases listed
          rw [List.flatMap_cons, blockStart_zero, Nat.zero_add, List.getElem?_append_left inside]
      | succ index =>
          rw [List.flatMap_cons, blockStart_cons_succ, Nat.add_assoc,
            List.getElem?_append_right (Nat.le_add_right _ _), Nat.add_sub_cancel_left]
          exact inductionHypothesis listed

/-- Blocks that are not empty begin one behind the other. -/
theorem blockStart_lt
    {later : Nat}
    (nonempty : ∀ item ∈ items, 0 < (block item).length)
    (before : index < later)
    (inside : later ≤ items.length) :
    blockStart block items index < blockStart block items later := by
  induction later with
  | zero => exact absurd before (Nat.not_lt_zero _)
  | succ later inductionHypothesis =>
      have listed : items[later]? = some items[later] := List.getElem?_eq_getElem (by omega)
      have positive := nonempty items[later] (List.getElem_mem _)
      rw [blockStart_succ listed]
      rcases Nat.lt_succ_iff_lt_or_eq.mp before with earlier | rfl
      · have := inductionHypothesis earlier (by omega)
        omega
      · omega

theorem blockStart_le
    {later : Nat}
    (nonempty : ∀ item ∈ items, 0 < (block item).length)
    (notBehind : index ≤ later)
    (inside : later ≤ items.length) :
    blockStart block items index ≤ blockStart block items later := by
  rcases Nat.eq_or_lt_of_le notBehind with rfl | before
  · exact Nat.le_refl _
  · exact Nat.le_of_lt (blockStart_lt nonempty before inside)

end Starts

/-! ## Assembled nodes -/

section Assembled

variable {snippet : Origin × Node → List Insn} {core : List (Origin × Node)}

/-- The instructions among tagged nodes. -/
def insns (nodes : List (Origin × Node)) : List (Origin × Insn) :=
  nodes.filterMap fun
    | (origin, .insn item) => some (origin, item)
    | _ => none

/-- An instruction behind what is inserted in front of it. -/
def blockOf
    (snippet : Origin × Node → List Insn)
    (item : Origin × Insn) : List (Origin × Insn) :=
  (snippet (item.1, .insn item.2)).map (.exit, ·) ++ [item]

theorem map_snd_insns (nodes : List (Origin × Node)) :
    (insns nodes).map Prod.snd = Node.insns (nodes.map Prod.snd) := by
  simp only [insns, Node.insns, List.map_filterMap, List.filterMap_map]
  refine List.filterMap_congr fun node _ => ?_
  obtain ⟨origin, node⟩ := node
  cases node <;> rfl

theorem insns_append (first second : List (Origin × Node)) :
    insns (first ++ second) = insns first ++ insns second :=
  List.filterMap_append

theorem insns_inserted
    (origin : Origin)
    (inserted : List Insn) :
    insns (inserted.map fun insn => (origin, Node.insn insn)) = inserted.map (origin, ·) := by
  simp [insns, List.filterMap_map]

@[simp] theorem length_blockOf (item : Origin × Insn) :
    (blockOf snippet item).length = (snippet (item.1, .insn item.2)).length + 1 := by
  simp [blockOf]

/-- The instructions of blocks of nodes are blocks of the instructions. -/
theorem insns_blocks
    (silent : ∀ origin node, (∀ insn, node ≠ .insn insn) → snippet (origin, node) = []) :
    insns (blocks snippet core) = (insns core).flatMap (blockOf snippet) := by
  induction core with
  | nil => rfl
  | cons node core inductionHypothesis =>
      rw [blocks_cons, insns_append, insns_inserted]
      obtain ⟨origin, node⟩ := node
      have keep (rest : List (Origin × Node)) (insn : Insn) :
          insns ((origin, .insn insn) :: rest) = (origin, insn) :: insns rest := rfl
      cases node with
      | insn insn =>
          simp only [keep, inductionHypothesis, List.flatMap_cons, blockOf, List.append_assoc,
            List.singleton_append]
      | label label =>
          rw [silent origin (.label label) (by simp)]
          exact inductionHypothesis
      | line number start =>
          rw [silent origin (.line number start) (by simp)]
          exact inductionHypothesis

theorem insns_assembled
    (silent : ∀ origin node, (∀ insn, node ≠ .insn insn) → snippet (origin, node) = [])
    (entry : List Insn) :
    insns (assembled snippet entry core) =
      entry.map (.entry, ·) ++ (insns core).flatMap (blockOf snippet) := by
  rw [assembled, insns_append, insns_inserted, insns_blocks silent]

theorem standsAt_insns
    {label : Label}
    {nodes : List Node}
    {position : Nat}
    (inserted : List Insn)
    (stands : Node.StandsAt label nodes position) :
    Node.StandsAt label (inserted.map .insn ++ nodes) (inserted.length + position) := by
  have counted : (Node.insns (inserted.map .insn)).length = inserted.length := by
    simp [Node.insns, List.filterMap_map]
  rw [← counted]
  exact stands.append_right

/-- A label stands in front of the block of the instruction that it stood in front of. -/
theorem standsAt_blocks
    {label : Label}
    {index : Nat}
    (silent : ∀ origin node, (∀ insn, node ≠ .insn insn) → snippet (origin, node) = [])
    (stands : Node.StandsAt label (core.map Prod.snd) index) :
    Node.StandsAt label ((blocks snippet core).map Prod.snd)
      (blockStart (blockOf snippet) (insns core) index) := by
  induction core generalizing index with
  | nil => cases stands
  | cons node core inductionHypothesis =>
      obtain ⟨origin, node⟩ := node
      rw [blocks_cons, List.map_append, List.map_map, List.map_cons]
      rw [List.map_cons] at stands
      cases node with
      | label other =>
          rw [silent origin (.label other) (by simp)]
          cases stands with
          | here => exact .here
          | label later => exact .label (inductionHypothesis later)
      | line number start =>
          rw [silent origin (.line number start) (by simp)]
          cases stands with
          | line later => exact .line (inductionHypothesis later)
      | insn insn =>
          cases stands with
          | insn later =>
              have behind :
                  Node.StandsAt label (.insn insn :: (blocks snippet core).map Prod.snd)
                    (blockStart (blockOf snippet) (insns core) _ + 1) :=
                .insn (inductionHypothesis later)
              have shifted := standsAt_insns (snippet (origin, .insn insn)) behind
              rw [show insns ((origin, .insn insn) :: core) = (origin, insn) :: insns core from rfl,
                blockStart_cons_succ, length_blockOf, Nat.add_assoc, Nat.add_comm 1]
              exact shifted

/-- What is collected of nodes that are no instructions does not change with what is inserted. -/
theorem filterMap_blocks
    {α : Type}
    {collect : Node → Option α}
    (silent : ∀ insn, collect (.insn insn) = none) :
    ((blocks snippet core).map Prod.snd).filterMap collect =
      (core.map Prod.snd).filterMap collect := by
  induction core with
  | nil => rfl
  | cons node core inductionHypothesis =>
      have nothing :
          (((snippet node).map fun insn => (Origin.exit, Node.insn insn)).map
            Prod.snd).filterMap collect = [] := by
        simp [List.filterMap_map, Function.comp_def, silent]
      rw [blocks_cons, List.map_append, List.filterMap_append, nothing, List.nil_append,
        List.map_cons, List.map_cons, List.filterMap_cons, List.filterMap_cons,
        inductionHypothesis]

end Assembled

end Flow

/-! ## Bodies from the parts of woven ones -/

namespace Weaver

variable {Memory : Type} (weaver : Weaver Memory) (memory : Memory) (body : Body)

/-- The handler that weaving puts around a body. -/
def guards (body : Body) : List Handler :=
  match weaver.detection with
  | .explicit => []
  | .guarded => [guardAt body.nextLabel]

/-- What becomes of a body with instructions. -/
def wovenBody : Body where
  maxStack := UInt16.ofNat (min (2 ^ 16 - 1) (max 1 body.maxStack.toNat + adviceStack))
  maxLocals :=
    UInt16.ofNat (max body.maxLocals.toNat (weaver.enteredState memory body).slots.next)
  nodes := (weaver.weave memory body.events).tagged.map Prod.snd
  handlers := body.handlers ++ weaver.guards body
  locals := body.locals
  frames := []
  hints := if body.frames.isEmpty then none else some ⟨body.maxLocals, body.frames⟩
  attributes := []

/-- What is collected of the parts of a woven body that are no nodes. -/
theorem filterMap_weave
    {α : Type}
    {collect : BodyEvent → Option α}
    (nonempty : body.nodes.isEmpty = false)
    (noNodes : ∀ node, collect (.node node) = none) :
    (weaver.weave memory body.events).events.filterMap collect =
      [.code body.maxStack body.maxLocals (weaver.labelAfter body.nextLabel)].filterMap collect ++
        body.handlers.filterMap (collect ∘ .handler) ++
        (weaver.guards body).filterMap (collect ∘ .handler) ++
        body.locals.filterMap (collect ∘ .localVariable) ++
        (weaver.wovenBody memory body).hints.toList.filterMap (collect ∘ .hints) ++
        [.maxima (weaver.wovenBody memory body).maxStack
          (weaver.wovenBody memory body).maxLocals].filterMap collect := by
  let collected (part : WovenPart) : List α := part.events.filterMap collect
  have snippets (nodes : List Node) : (nodes.map .node).filterMap collect = [] := by
    rw [List.filterMap_map, List.filterMap_eq_nil_iff]
    exact fun node _ => noNodes node
  have handlers :
      (body.handlers.map (.kept ∘ .handler)).flatMap collected =
        body.handlers.filterMap (collect ∘ .handler) := by
    rw [List.flatMap_map, List.filterMap_eq_flatMap_toList]
    refine List.flatMap_congr fun handler _ => ?_
    show [BodyEvent.handler handler].filterMap collect = _
    cases found : collect (.handler handler) <;> simp [found]
  have locals :
      (body.locals.map (.kept ∘ .localVariable)).flatMap collected =
        body.locals.filterMap (collect ∘ .localVariable) := by
    rw [List.flatMap_map, List.filterMap_eq_flatMap_toList]
    refine List.flatMap_congr fun entry _ => ?_
    show [BodyEvent.localVariable entry].filterMap collect = _
    cases found : collect (.localVariable entry) <;> simp [found]
  have nodes :
      (body.nodes.flatMap (weaver.wovenNode (weaver.enteredState memory body).memory)).flatMap
          collected = [] := by
    refine List.flatMap_eq_nil_iff.mpr fun part member => ?_
    obtain ⟨node, _, listed⟩ := List.mem_flatMap.mp member
    have kept : collected (.kept (.node node)) = [] := by simp [collected, WovenPart.events, noNodes]
    cases node with
    | insn insn =>
        simp only [wovenNode] at listed
        split at listed
        · rcases List.mem_pair.mp listed with rfl | rfl
          · exact snippets _
          · exact kept
        · obtain rfl := List.mem_singleton.mp listed
          exact kept
    | _ =>
        obtain rfl := List.mem_singleton.mp listed
        exact kept
  have entering :
      (weaver.entering memory body).flatMap collected =
        (weaver.guards body).filterMap (collect ∘ .handler) := by
    unfold entering enter guards
    cases weaver.detection with
    | explicit => simp [collected, WovenPart.events, snippets]
    | guarded =>
        cases found : collect (.handler (guardAt body.nextLabel)) <;>
          simp [collected, WovenPart.events, snippets, noNodes, found]
  have closing : (weaver.closing (weaver.enteredState memory body)).flatMap collected = [] := by
    simp only [closing, guard_enteredState]
    cases weaver.detection <;> simp [collected, WovenPart.events, snippets, noNodes]
  have declared :
      (declaredParts body).flatMap collected =
        (weaver.wovenBody memory body).hints.toList.filterMap (collect ∘ .hints) := by
    unfold declaredParts wovenBody
    split
    · rfl
    · show [BodyEvent.hints _].filterMap collect ++ [] = _
      cases found : collect (.hints ⟨body.maxLocals, body.frames⟩) <;> simp [found]
  rw [weave_events, WovenBody.events, List.filterMap_flatMap]
  change List.flatMap collected _ = _
  simp only [List.flatMap_append, nodes, closing, declared, handlers, locals, nonempty, entering,
    Bool.false_eq_true, if_false, List.append_nil, List.flatMap_singleton]
  rfl

/-- Collecting the parts of a woven body gives the body. -/
theorem ofEvents?_weave
    (nonempty : body.nodes.isEmpty = false) :
    Body.ofEvents? (weaver.weave memory body.events).events =
      some (weaver.wovenBody memory body) := by
  have collect {α : Type} (part : BodyEvent → Option α) (noNodes : ∀ node, part (.node node) = none) :=
    weaver.filterMap_weave memory body nonempty noNodes
  have handlers :
      (weaver.weave memory body.events).events.filterMap BodyEvent.handler? =
        (weaver.wovenBody memory body).handlers := by
    rw [collect _ fun _ => rfl]
    simp [Function.comp_def, List.filterMap_cons, BodyEvent.handler?, wovenBody]
  have locals :
      (weaver.weave memory body.events).events.filterMap BodyEvent.localVariable? =
        (weaver.wovenBody memory body).locals := by
    rw [collect _ fun _ => rfl]
    simp [Function.comp_def, List.filterMap_cons, BodyEvent.localVariable?, wovenBody]
  have frames : (weaver.weave memory body.events).events.filterMap BodyEvent.frame? = [] := by
    rw [collect _ fun _ => rfl]
    simp [Function.comp_def, List.filterMap_cons, BodyEvent.frame?]
  have hints :
      (weaver.weave memory body.events).events.filterMap BodyEvent.hints? =
        (weaver.wovenBody memory body).hints.toList := by
    rw [collect _ fun _ => rfl]
    simp [Function.comp_def, List.filterMap_cons, BodyEvent.hints?]
  have attributes :
      (weaver.weave memory body.events).events.filterMap BodyEvent.codeAttribute? = [] := by
    rw [collect _ fun _ => rfl]
    simp [Function.comp_def, List.filterMap_cons, BodyEvent.codeAttribute?]
  have sizes :
      (weaver.weave memory body.events).events.filterMap BodyEvent.sizes? =
        [(body.maxStack, body.maxLocals),
          ((weaver.wovenBody memory body).maxStack, (weaver.wovenBody memory body).maxLocals)] := by
    rw [collect _ fun _ => rfl]
    simp [Function.comp_def, BodyEvent.sizes?]
  have some : (weaver.weave memory body.events).events.isEmpty = false := by
    cases events : (weaver.weave memory body.events).events with
    | nil => simp [events] at sizes
    | cons _ _ => rfl
  have nodes := (weaver.weave memory body.events).map_snd_tagged
  rw [Body.ofEvents?, some, handlers, locals, frames, hints, attributes, sizes, ← nodes]
  cases unframed : body.frames.isEmpty <;> simp [wovenBody, unframed]

end Weaver

end JvmClass
