import JvmClass.Proofs.Weave.Closed
import JvmClass.Weave.Recall

namespace JvmClass

/-!
# Weaving only inserts

The nodes of a woven body are those of the body in their order.  In front of them
stands the snippet for the start, in front of each exit the snippet for it, and
the handler around the body has its labels at both ends.  So a label of the body
still stands in front of its instruction, with at most one snippet in between,
and the range of a handler covers what it covered.  Advice may remember the exits
that it was asked for.
-/

/-- The nodes of one origin. -/
def Origin.nodes (origin : Origin) (items : List (Origin × Node)) : List Node :=
  (items.filter fun item => item.1 = origin).map Prod.snd

namespace Origin

variable {origin : Origin}

@[simp] theorem nodes_nil : origin.nodes [] = [] :=
  rfl

@[simp] theorem nodes_append
    (first second : List (Origin × Node)) :
    origin.nodes (first ++ second) = origin.nodes first ++ origin.nodes second := by
  simp [nodes]

@[simp] theorem nodes_cons
    (other : Origin)
    (node : Node)
    (items : List (Origin × Node)) :
    origin.nodes ((other, node) :: items) =
      if other = origin then node :: origin.nodes items else origin.nodes items := by
  simp only [nodes, List.filter_cons, decide_eq_true_eq]
  split <;> rfl

@[simp] theorem nodes_map
    (other : Origin)
    (nodes : List Node) :
    origin.nodes (nodes.map (Prod.mk other)) = if other = origin then nodes else [] := by
  induction nodes with
  | nil => simp
  | cons node nodes inductionHypothesis =>
      rw [List.map_cons, nodes_cons, inductionHypothesis]
      split <;> rfl

/-- A node of an origin is one of its nodes. -/
theorem mem_nodes_iff
    {node : Node}
    {items : List (Origin × Node)} :
    node ∈ origin.nodes items ↔ (origin, node) ∈ items := by
  simp [nodes]

end Origin

namespace WovenPart

/-- The handlers that a part brings. -/
def handlers (part : WovenPart) : List Handler :=
  part.events.filterMap BodyEvent.handler?

section Snippets

variable (nodes : List Node) (opcode : Opcode) (reserved : List (Nat × Nat))

@[simp] theorem tagged_entry :
    (WovenPart.entry reserved nodes).tagged = nodes.map (Prod.mk .entry) := by
  simp [tagged, events, origin, List.filterMap_map, Function.comp_def, BodyEvent.node?]

@[simp] theorem tagged_exit :
    (WovenPart.exit opcode nodes).tagged = nodes.map (Prod.mk .exit) := by
  simp [tagged, events, origin, List.filterMap_map, Function.comp_def, BodyEvent.node?]

@[simp] theorem handlers_entry : (WovenPart.entry reserved nodes).handlers = [] := by
  simp [handlers, events, List.filterMap_map, Function.comp_def, BodyEvent.handler?]

@[simp] theorem handlers_exit : (WovenPart.exit opcode nodes).handlers = [] := by
  simp [handlers, events, List.filterMap_map, Function.comp_def, BodyEvent.handler?]

end Snippets

end WovenPart

namespace Weaver

variable {Memory : Type} (weaver : Weaver Memory) (remember : Memory → Opcode → Memory)

/-! ## Advice that remembers -/

/-- Nothing is remembered of parts without an exit. -/
theorem recalled_of_silent
    {memory : Memory}
    {parts : List WovenPart}
    (silent : ∀ part ∈ parts, part.origin ≠ .exit) :
    recalled remember memory parts = memory := by
  induction parts with
  | nil => rfl
  | cons part parts inductionHypothesis =>
      rw [List.forall_mem_cons] at silent
      cases part with
      | exit opcode nodes => exact absurd rfl silent.1
      | _ => exact inductionHypothesis silent.2

theorem recallStep_snd
    (state : WeaveState Memory)
    (event : BodyEvent) :
    (weaver.recallStep remember state event).2 = (weaver.step state event).2 :=
  rfl

theorem recallSteps_append
    (state : WeaveState Memory)
    (first second : List BodyEvent) :
    weaver.recallSteps remember state (first ++ second) =
      ((weaver.recallSteps remember (weaver.recallSteps remember state first).1 second).1,
        (weaver.recallSteps remember state first).2 ++
          (weaver.recallSteps remember (weaver.recallSteps remember state first).1 second).2) := by
  induction first generalizing state with
  | nil => simp [recallSteps]
  | cons event first inductionHypothesis => simp [recallSteps, inductionHypothesis]

/-- Advice that is asked for no exit has nothing to remember. -/
theorem recallSteps_of_silent
    {state : WeaveState Memory}
    {events : List BodyEvent}
    (silent : ∀ part ∈ (weaver.steps state events).2, part.origin ≠ .exit) :
    weaver.recallSteps remember state events = weaver.steps state events := by
  induction events generalizing state with
  | nil => rfl
  | cons event events inductionHypothesis =>
      simp only [steps, List.mem_append, or_imp, forall_and] at silent
      have same : weaver.recallStep remember state event = weaver.step state event := by
        simp [recallStep, recalled_of_silent remember silent.1]
      simp only [recallSteps, steps, same, inductionHypothesis silent.2]

/-- Advice that remembers nothing is woven as it is. -/
theorem weaveRecalling_of_forgetful
    (memory : Memory)
    (events : List BodyEvent) :
    weaver.weaveRecalling (fun memory _ => memory) memory events = weaver.weave memory events := by
  have nothing (memory : Memory) (parts : List WovenPart) :
      recalled (fun memory _ => memory) memory parts = memory := by
    induction parts with
    | nil => rfl
    | cons part parts inductionHypothesis => cases part <;> exact inductionHypothesis
  have same (state : WeaveState Memory) :
      weaver.recallSteps (fun memory _ => memory) state events = weaver.steps state events := by
    induction events generalizing state with
    | nil => rfl
    | cons event events inductionHypothesis =>
        simp [recallSteps, steps, recallStep, nothing, inductionHypothesis]
  rw [weave, weaveFrom_eq_steps, weaveRecalling, same]
  rfl

/-! ## What stands where -/

/-- The snippet for the start of a body, the slots behind it and what the advice then knows. -/
def entrance (memory : Memory) (body : Body) : Snippet × SlotAllocator × Memory :=
  weaver.advice.enter memory (weaver.begun memory body).slots

/-- The snippet in front of a node. -/
def exitNodes (memory : Memory) : Node → List (Origin × Node)
  | .insn insn =>
      if weaver.detection.isExit insn.opcode then
        (weaver.advice.exit memory insn.opcode).nodes.map (Prod.mk .exit)
      else
        []
  | _ => []

/-- What the advice knows behind a node. -/
def behind (memory : Memory) : Node → Memory
  | .insn insn =>
      if weaver.detection.isExit insn.opcode then remember memory insn.opcode else memory
  | _ => memory

/-- What the advice knows behind some first nodes of a body. -/
def knownBehind (memory : Memory) (body : Body) (first : List Node) : Memory :=
  first.foldl (weaver.behind remember) (weaver.entrance memory body).2.2

/-- Nodes of a body, each exit right behind the snippet for it. -/
def withExits (memory : Memory) : List Node → List (Origin × Node)
  | [] => []
  | node :: rest =>
      weaver.exitNodes memory node ++
        (.original, node) :: withExits (weaver.behind remember memory node) rest

/-- The end of the handler around a body: its labels, the snippet for its throw, and the throw. -/
def guardEnd (memory : Memory) (body : Body) : List (Origin × Node) :=
  match weaver.detection with
  | .explicit => []
  | .guarded =>
      [(.guard, .label (guardAt body.nextLabel).stop),
          (.guard, .label (guardAt body.nextLabel).handler)] ++
        (weaver.advice.exit memory Opcode.throwReference).nodes.map (Prod.mk .exit) ++
        [(.guard, .insn (.plain Opcode.throwReference))]

/-- The nodes of a body with all that is inserted. -/
def insertedNodes (memory : Memory) (body : Body) : List (Origin × Node) :=
  (weaver.entrance memory body).1.nodes.map (Prod.mk .entry) ++ weaver.openingNodes body ++
    weaver.withExits remember (weaver.knownBehind remember memory body []) body.nodes ++
    weaver.guardEnd (weaver.knownBehind remember memory body body.nodes) body

/-- The handler around a body. -/
def addedHandlers (body : Body) : List Handler :=
  match weaver.detection with
  | .explicit => []
  | .guarded => [guardAt body.nextLabel]

/-- What the advice knows of one node is what it remembers of the parts that the node becomes. -/
theorem recalled_wovenNode
    (memory : Memory)
    (node : Node) :
    recalled remember memory (weaver.wovenNode memory node) =
      weaver.behind remember memory node := by
  cases node with
  | insn insn =>
      simp only [wovenNode, behind]
      split <;> rfl
  | _ => rfl

theorem flatMap_tagged_wovenNode
    (memory : Memory)
    (node : Node) :
    (weaver.wovenNode memory node).flatMap WovenPart.tagged =
      weaver.exitNodes memory node ++ [(.original, node)] := by
  have kept (node : Node) : (WovenPart.kept (.node node)).tagged = [(.original, node)] := rfl
  cases node with
  | insn insn =>
      simp only [wovenNode, exitNodes]
      split <;> simp [kept]
  | _ => simp [wovenNode, exitNodes, kept]

theorem flatMap_handlers_wovenNode
    (memory : Memory)
    (node : Node) :
    (weaver.wovenNode memory node).flatMap WovenPart.handlers = [] := by
  have kept (node : Node) : (WovenPart.kept (.node node)).handlers = [] := rfl
  cases node with
  | insn insn =>
      simp only [wovenNode]
      split <;> simp [kept]
  | _ => simp [wovenNode, kept]

/-- The nodes of a body that was entered come out with their exits. -/
theorem recallSteps_nodes
    {state : WeaveState Memory}
    (entered : state.entered = true)
    (nodes : List Node) :
    ∃ last parts,
      weaver.recallSteps remember state (nodes.map .node) = (last, parts) ∧
        last.entered = true ∧
          last.guard = state.guard ∧
            last.memory = nodes.foldl (weaver.behind remember) state.memory ∧
              parts.flatMap WovenPart.tagged = weaver.withExits remember state.memory nodes ∧
                parts.flatMap WovenPart.handlers = [] := by
  induction nodes generalizing state with
  | nil => exact ⟨state, [], rfl, entered, rfl, rfl, rfl, rfl⟩
  | cons node nodes inductionHypothesis =>
      let next : WeaveState Memory :=
        { state with memory := weaver.behind remember state.memory node }.fail
          (weaver.nodeFailure state node)
      have first :
          weaver.recallStep remember state (.node node) =
            (next, weaver.wovenNode state.memory node) := by
        simp only [recallStep, step, weaver.passNode_of_entered entered, WeaveState.memory_fail,
          recalled_wovenNode]
        rfl
      have nextEntered : next.entered = true := entered
      obtain ⟨last, parts, run, lastEntered, guard, known, tagged, handlers⟩ :=
        inductionHypothesis nextEntered
      refine ⟨last, weaver.wovenNode state.memory node ++ parts, ?_, lastEntered, guard, known,
        ?_, ?_⟩
      · simp only [List.map_cons, recallSteps, first, run]
      · simp [flatMap_tagged_wovenNode, tagged, withExits, next]
      · simp [flatMap_handlers_wovenNode, handlers]

/-- The parts behind the last node of a body that was entered. -/
theorem finish_of_guard
    {state : WeaveState Memory}
    (entered : state.entered = true)
    (body : Body)
    (guard :
      state.guard =
        match weaver.detection with
        | .explicit => none
        | .guarded => some (guardAt body.nextLabel))
    (maxStack maxLocals : UInt16) :
    (weaver.finish state maxStack maxLocals).2.flatMap WovenPart.tagged =
        weaver.guardEnd state.memory body ∧
      (weaver.finish state maxStack maxLocals).2.flatMap WovenPart.handlers = [] := by
  have declared (state : WeaveState Memory) :
      (passFrames state).2.flatMap WovenPart.tagged = [] ∧
        (passFrames state).2.flatMap WovenPart.handlers = [] := by
    unfold passFrames
    split <;> exact ⟨rfl, rfl⟩
  have sizes (state : WeaveState Memory) :
      (raisedSizes state maxStack maxLocals).tagged = [] ∧
        (raisedSizes state maxStack maxLocals).handlers = [] :=
    ⟨rfl, rfl⟩
  have closing :
      (weaver.closeGuard state).2.flatMap WovenPart.tagged = weaver.guardEnd state.memory body ∧
        (weaver.closeGuard state).2.flatMap WovenPart.handlers = [] := by
    unfold closeGuard guardEnd
    rw [guard]
    cases weaver.detection with
    | explicit => exact ⟨rfl, rfl⟩
    | guarded =>
        constructor
        · simp only [exit, List.flatMap_append, List.flatMap_singleton, WovenPart.tagged_exit]
          rfl
        · simp only [exit, List.flatMap_append, List.flatMap_singleton, WovenPart.handlers_exit]
          rfl
  simp [finish, ensureEntered, entered, closing, declared, sizes]

/-- The parts that a body begins with. -/
theorem flatMap_entering
    (memory : Memory)
    (body : Body) :
    (weaver.entering memory body).flatMap WovenPart.tagged =
        (weaver.entrance memory body).1.nodes.map (Prod.mk .entry) ++ weaver.openingNodes body ∧
      (weaver.entering memory body).flatMap WovenPart.handlers = weaver.addedHandlers body := by
  unfold entering enter entrance openingNodes addedHandlers
  cases weaver.detection with
  | explicit => simp
  | guarded =>
      simp only [List.flatMap_cons, List.flatMap_nil, WovenPart.tagged_entry,
        WovenPart.handlers_entry, WeaveState.freeLabel_fail, freeLabel_begun, memory_begun]
      exact ⟨rfl, rfl⟩

theorem silent_entering
    (memory : Memory)
    (body : Body) :
    ∀ part ∈ weaver.entering memory body, part.origin ≠ .exit := by
  unfold entering enter
  cases weaver.detection <;> simp [WovenPart.origin]

/-- The nodes of a body come out with their exits, behind the snippet for the start. -/
theorem recallSteps_begun
    (memory : Memory)
    (body : Body)
    (nonempty : body.nodes ≠ []) :
    weaver.recallSteps remember (weaver.begun memory body) (body.nodes.map .node) =
      ((weaver.recallSteps remember (weaver.enteredState memory body) (body.nodes.map .node)).1,
        weaver.entering memory body ++
          (weaver.recallSteps remember (weaver.enteredState memory body)
            (body.nodes.map .node)).2) := by
  have silent := weaver.silent_entering memory body
  cases listed : body.nodes with
  | nil => exact absurd listed nonempty
  | cons node nodes =>
      have first :
          weaver.recallStep remember (weaver.begun memory body) (.node node) =
            ((weaver.recallStep remember (weaver.enteredState memory body) (.node node)).1,
              weaver.entering memory body ++
                (weaver.recallStep remember (weaver.enteredState memory body) (.node node)).2) := by
        simp only [recallStep, step,
          weaver.passNode_of_not_entered (weaver.entered_begun memory body)]
        rw [← enteredState, ← entering, recalled, List.foldl_append, ← recalled, ← recalled,
          recalled_of_silent remember silent]
      simp only [List.map_cons, recallSteps, first, List.append_assoc]

/-- What comes out of a body in front of its sizes. -/
theorem recallSteps_front
    (memory : Memory)
    (body : Body) :
    weaver.recallSteps remember (.start memory)
        ([.code body.maxStack body.maxLocals body.nextLabel] ++ body.handlers.map .handler ++
          body.frames.map .frame) =
      (weaver.begun memory body,
        [.kept (.code body.maxStack body.maxLocals (weaver.labelAfter body.nextLabel))] ++
          body.handlers.map (.kept ∘ .handler)) := by
  have plain := weaver.steps_front memory body
  rw [← plain]
  refine recallSteps_of_silent weaver remember ?_
  rw [plain]
  simp [WovenPart.origin]

/-- What comes out of a body behind its nodes. -/
theorem recallSteps_back
    (state : WeaveState Memory)
    (body : Body) :
    (weaver.recallSteps remember state
        ((body.locals.map .localVariable ++ body.attributes.map .codeAttribute ++
            body.hints.toList.map .hints) ++
          [.maxima body.maxStack body.maxLocals])).2 =
      body.locals.map (.kept ∘ .localVariable) ++
        (weaver.finish state body.maxStack body.maxLocals).2 := by
  have plain := weaver.steps_back state body.locals body.attributes body.hints
  have silent := recallSteps_of_silent weaver remember (by
    rw [plain]
    simp [WovenPart.origin])
  rw [recallSteps_append, silent, plain]
  simp [recallSteps, recallStep_snd, step]

theorem memory_enteredState
    (memory : Memory)
    (body : Body) :
    (weaver.enteredState memory body).memory = weaver.knownBehind remember memory body [] := by
  unfold enteredState enter knownBehind entrance
  cases weaver.detection <;> simp

/-- What comes out of a body from its first node on. -/
theorem recallSteps_inner
    (memory : Memory)
    (body : Body) :
    let woven :=
      (weaver.recallSteps remember (weaver.begun memory body)
        (body.nodes.map .node ++
          ((body.locals.map .localVariable ++ body.attributes.map .codeAttribute ++
              body.hints.toList.map .hints) ++
            [.maxima body.maxStack body.maxLocals]))).2
    woven.flatMap WovenPart.tagged = weaver.insertedNodes remember memory body ∧
      woven.flatMap WovenPart.handlers = weaver.addedHandlers body := by
  have known := weaver.memory_enteredState remember memory body
  have locals :
      (body.locals.map (.kept ∘ .localVariable)).flatMap WovenPart.tagged = [] ∧
        (body.locals.map (.kept ∘ .localVariable)).flatMap WovenPart.handlers = [] :=
    ⟨List.flatMap_eq_nil_iff.mpr (by simp [WovenPart.tagged, WovenPart.events, BodyEvent.node?]),
      List.flatMap_eq_nil_iff.mpr
        (by simp [WovenPart.handlers, WovenPart.events, BodyEvent.handler?])⟩
  have opened := weaver.flatMap_entering memory body
  have entered := weaver.entered_enteredState memory body
  have guard := weaver.guard_enteredState memory body
  obtain ⟨last, parts, run, lastEntered, lastGuard, lastKnown, tagged, handlers⟩ :=
    weaver.recallSteps_nodes remember entered body.nodes
  rw [known] at tagged lastKnown
  intro woven
  -- The snippet for the start comes with the first node, or else with the sizes.
  by_cases empty : body.nodes = []
  · have finished :=
      weaver.finish_of_guard entered body guard body.maxStack body.maxLocals
    have wovenParts :
        woven =
          body.locals.map (.kept ∘ .localVariable) ++
            (weaver.entering memory body ++
              (weaver.finish (weaver.enteredState memory body) body.maxStack
                body.maxLocals).2) := by
      simp only [woven, empty, List.map_nil, List.nil_append, recallSteps_back]
      rw [weaver.finish_of_not_entered (weaver.entered_begun memory body), ← entering,
        ← enteredState]
    rw [wovenParts]
    simp [locals, opened, finished, known, empty, insertedNodes, withExits]
  · have finished :=
      weaver.finish_of_guard lastEntered body (lastGuard.trans guard) body.maxStack
        body.maxLocals
    have wovenParts :
        woven =
          weaver.entering memory body ++ parts ++
            (body.locals.map (.kept ∘ .localVariable) ++
              (weaver.finish last body.maxStack body.maxLocals).2) := by
      simp only [woven]
      rw [recallSteps_append, recallSteps_begun _ _ _ _ empty, run, recallSteps_back]
    rw [wovenParts]
    simp [locals, opened, finished, lastKnown, tagged, handlers, insertedNodes, knownBehind]

/-- The nodes and the handlers of a woven body. -/
theorem weaveRecalling_events
    (memory : Memory)
    (body : Body) :
    (weaver.weaveRecalling remember memory body.events).tagged =
        weaver.insertedNodes remember memory body ∧
      (weaver.weaveRecalling remember memory body.events).handlers =
        body.handlers ++ weaver.addedHandlers body := by
  obtain ⟨tagged, handlers⟩ := weaver.recallSteps_inner remember memory body
  have parts (woven : WovenBody) : woven.handlers = woven.parts.flatMap WovenPart.handlers := by
    simp only [WovenBody.handlers, WovenBody.events, List.filterMap_flatMap]
    rfl
  have front :
      (body.handlers.map (.kept ∘ .handler)).flatMap WovenPart.tagged = [] ∧
        (body.handlers.map (.kept ∘ .handler)).flatMap WovenPart.handlers = body.handlers := by
    constructor
    · exact List.flatMap_eq_nil_iff.mpr
        (by simp [WovenPart.tagged, WovenPart.events, BodyEvent.node?])
    · simp [WovenPart.handlers, WovenPart.events, BodyEvent.handler?, List.flatMap_map]
  rw [parts, WovenBody.tagged, weaveRecalling, body.events_eq_append,
    recallSteps_append, recallSteps_front]
  simp only [List.flatMap_append, List.flatMap_singleton, front, tagged, handlers]
  exact ⟨rfl, rfl⟩

/-! ## Where nodes come to stand -/

/-- Labels and line marks get nothing in front of them. -/
theorem withExits_of_silent
    (memory : Memory)
    {nodes : List Node}
    (silent : ∀ node ∈ nodes, ∀ insn, node ≠ .insn insn) :
    weaver.withExits remember memory nodes = nodes.map (Prod.mk .original) ∧
      nodes.foldl (weaver.behind remember) memory = memory := by
  induction nodes with
  | nil => exact ⟨rfl, rfl⟩
  | cons node nodes inductionHypothesis =>
      rw [List.forall_mem_cons] at silent
      obtain ⟨inserted, known⟩ := inductionHypothesis silent.2
      cases node with
      | insn insn => exact absurd rfl (silent.1 insn)
      | _ => simp [withExits, exitNodes, behind, inserted, known]

theorem withExits_append
    (memory : Memory)
    (first second : List Node) :
    weaver.withExits remember memory (first ++ second) =
      weaver.withExits remember memory first ++
        weaver.withExits remember (first.foldl (weaver.behind remember) memory) second := by
  induction first generalizing memory with
  | nil => rfl
  | cons node first inductionHypothesis => simp [withExits, inductionHypothesis]

/-- A snippet has no other origin than its own. -/
theorem nodes_exitNodes
    {origin : Origin}
    (other : origin ≠ .exit)
    (memory : Memory)
    (node : Node) :
    origin.nodes (weaver.exitNodes memory node) = [] := by
  cases node with
  | insn insn =>
      simp only [exitNodes]
      split <;> simp [other.symm]
  | _ => rfl

theorem nodes_withExits
    {origin : Origin}
    (other : origin ≠ .exit)
    (memory : Memory)
    (nodes : List Node) :
    origin.nodes (weaver.withExits remember memory nodes) =
      if .original = origin then nodes else [] := by
  induction nodes generalizing memory with
  | nil => simp [withExits]
  | cons node nodes inductionHypothesis =>
      simp only [withExits, Origin.nodes_append, weaver.nodes_exitNodes other, Origin.nodes_cons,
        inductionHypothesis, List.nil_append]
      split <;> rfl

/-- Where a body is split, the woven body is. -/
theorem exists_insertedNodes_eq
    {body : Body}
    {first second : List Node}
    (memory : Memory)
    (split : body.nodes = first ++ second) :
    ∃ before after,
      weaver.insertedNodes remember memory body =
          before ++
            (weaver.withExits remember (weaver.knownBehind remember memory body first) second ++
              after) ∧
        Origin.original.nodes before = first ∧ Origin.original.nodes after = [] := by
  have opening : Origin.original.nodes (weaver.openingNodes body) = [] := by
    unfold openingNodes
    cases weaver.detection <;> rfl
  have ending (memory : Memory) : Origin.original.nodes (weaver.guardEnd memory body) = [] := by
    unfold guardEnd
    cases weaver.detection <;> simp
  let before :=
    (weaver.entrance memory body).1.nodes.map (Prod.mk .entry) ++ weaver.openingNodes body ++
      weaver.withExits remember (weaver.knownBehind remember memory body []) first
  let after := weaver.guardEnd (weaver.knownBehind remember memory body body.nodes) body
  refine ⟨before, after, ?_, ?_, ending _⟩
  · simp [insertedNodes, before, after, split, withExits_append, knownBehind]
  · simp [before, opening, nodes_withExits]

/-- A label of a body comes to stand in front of its instruction and the snippet for that. -/
theorem exists_insertedNodes_eq_of_label
    {body : Body}
    {first marks second : List Node}
    {label : Label}
    {insn : Insn}
    (memory : Memory)
    (split : body.nodes = first ++ .label label :: (marks ++ .insn insn :: second))
    (silent : ∀ mark ∈ marks, ∀ insn, mark ≠ .insn insn) :
    ∃ before after,
      weaver.insertedNodes remember memory body =
          before ++
            (.original, .label label) ::
              (marks.map (Prod.mk .original) ++
                (weaver.exitNodes (weaver.knownBehind remember memory body first) (.insn insn) ++
                  (.original, .insn insn) :: after)) ∧
        Origin.original.nodes before = first ∧ Origin.original.nodes after = second := by
  let known := weaver.knownBehind remember memory body first
  obtain ⟨before, after, shape, front, back⟩ := weaver.exists_insertedNodes_eq remember memory split
  obtain ⟨plain, same⟩ := weaver.withExits_of_silent remember known silent
  have noExit : weaver.exitNodes known (.label label) = [] := rfl
  have noRecall : weaver.behind remember known (.label label) = known := rfl
  refine ⟨before,
    weaver.withExits remember (weaver.behind remember known (.insn insn)) second ++ after, ?_,
    front, by simp [nodes_withExits, back]⟩
  rw [shape]
  simp [withExits, withExits_append, known, noExit, noRecall, plain, same]

/-- An instruction of a body comes to stand between what stood around it. -/
theorem exists_insertedNodes_eq_of_insn
    {body : Body}
    {first second : List Node}
    {insn : Insn}
    (memory : Memory)
    (split : body.nodes = first ++ .insn insn :: second) :
    ∃ before after,
      weaver.insertedNodes remember memory body = before ++ (.original, .insn insn) :: after ∧
        Origin.original.nodes before = first ∧ Origin.original.nodes after = second := by
  let known := weaver.knownBehind remember memory body first
  obtain ⟨before, after, shape, front, back⟩ := weaver.exists_insertedNodes_eq remember memory split
  refine ⟨before ++ weaver.exitNodes known (.insn insn),
    weaver.withExits remember (weaver.behind remember known (.insn insn)) second ++ after, ?_,
    by simp [nodes_exitNodes, front], by simp [nodes_withExits, back]⟩
  rw [shape]
  simp [withExits, known]

/-- What the handler around a body places. -/
theorem nodes_guard_insertedNodes
    (memory : Memory)
    (body : Body) :
    Origin.guard.nodes (weaver.insertedNodes remember memory body) =
      match weaver.detection with
      | .explicit => []
      | .guarded =>
          [.label (guardAt body.nextLabel).start, .label (guardAt body.nextLabel).stop,
            .label (guardAt body.nextLabel).handler, .insn (.plain Opcode.throwReference)] := by
  have other : Origin.guard ≠ .exit := by decide
  simp only [insertedNodes, openingNodes, guardEnd, Origin.nodes_append, Origin.nodes_map,
    reduceCtorEq, if_false, weaver.nodes_withExits remember other]
  cases weaver.detection <;> simp

/-- The labels of the handler around a body are not placed in it. -/
theorem not_mem_labels_of_guard
    (memory : Memory)
    (body : Body)
    (label : Label)
    (member : (.guard, .label label) ∈ weaver.insertedNodes remember memory body) :
    label ∉ Node.labels body.nodes := by
  intro placed
  rw [← Origin.mem_nodes_iff, nodes_guard_insertedNodes] at member
  have above : body.nextLabel ≤ label := by
    cases detected : weaver.detection with
    | explicit => simp [detected] at member
    | guarded =>
        simp only [detected, guardAt, List.mem_cons, Node.label.injEq, reduceCtorEq,
          List.not_mem_nil, or_false] at member
        rcases member with rfl | rfl | rfl
        · exact Nat.le_refl _
        · exact Nat.le_add_right _ _
        · exact Nat.le_add_right _ _
  exact Nat.not_lt.mpr above (Body.lt_nextLabel placed)

end Weaver

/-! ## Labels and ranges -/

/-- A label that nothing that is inserted places. -/
def WovenBody.Own (woven : WovenBody) (label : Label) : Prop :=
  ∀ origin, (origin, .label label) ∈ woven.tagged → origin = .original

/-- A label that is placed by the body alone is placed where its nodes are. -/
theorem mem_labels_iff_of_own
    {items : List (Origin × Node)}
    {label : Label}
    (own : ∀ origin, (origin, .label label) ∈ items → origin = .original) :
    label ∈ Node.labels (items.map Prod.snd) ↔
      label ∈ Node.labels (Origin.original.nodes items) := by
  have placed (nodes : List Node) : label ∈ Node.labels nodes ↔ .label label ∈ nodes := by
    rw [Node.labels, List.mem_filterMap]
    constructor
    · rintro ⟨node, member, same⟩
      cases node <;> cases same
      exact member
    · exact fun member => ⟨_, member, rfl⟩
  rw [placed, placed, Origin.mem_nodes_iff, List.mem_map]
  constructor
  · rintro ⟨⟨origin, _⟩, member, rfl⟩
    rwa [own origin member] at member
  · exact fun member => ⟨_, member, rfl⟩

/-- A range between labels of the body covers an instruction by the nodes of the body around it. -/
theorem WovenBody.covers_iff_of_own
    {woven : WovenBody}
    {before after : List (Origin × Node)}
    {insn : Insn}
    {handler : Handler}
    (place : woven.tagged = before ++ (.original, .insn insn) :: after)
    (start : woven.Own handler.start)
    (stop : woven.Own handler.stop) :
    Flow.Covers handler before ((.original, .insn insn) :: after) ↔
      handler.start ∈ Node.labels (Origin.original.nodes before) ∧
        handler.stop ∈ Node.labels (Origin.original.nodes after) := by
  have starts :
      handler.start ∈ Node.labels (before.map Prod.snd) ↔
        handler.start ∈ Node.labels (Origin.original.nodes before) :=
    mem_labels_iff_of_own fun origin member =>
      start origin (place ▸ List.mem_append_left _ member)
  have stops :
      handler.stop ∈ Node.labels (after.map Prod.snd) ↔
        handler.stop ∈ Node.labels (Origin.original.nodes after) :=
    mem_labels_iff_of_own fun origin member =>
      stop origin (place ▸ List.mem_append_right _ (List.mem_cons_of_mem _ member))
  exact and_congr starts stops

namespace Weaver

variable {Memory : Type}

/-- A woven body is the body with snippets and the handler around it inserted. -/
structure Inserts
    (weaver : Weaver Memory)
    (remember : Memory → Opcode → Memory)
    (memory : Memory)
    (body : Body)
    (woven : WovenBody) : Prop where
  nodes : woven.tagged = weaver.insertedNodes remember memory body
  /-- The labels of the handler around the body are not placed in it. -/
  fresh : ∀ label, (.guard, .label label) ∈ woven.tagged → label ∉ Node.labels body.nodes
  distinct : (Node.labels (Origin.guard.nodes woven.tagged)).Nodup
  /-- Without what was inserted the body is what it was. -/
  erased : Origin.original.nodes woven.tagged = body.nodes
  /-- A label stands in front of its instruction, with at most the snippet for that in between. -/
  labels :
    ∀ first label marks insn second,
      body.nodes = first ++ .label label :: (marks ++ .insn insn :: second) →
        (∀ mark ∈ marks, ∀ insn, mark ≠ .insn insn) →
          ∃ before after,
            woven.tagged =
                before ++
                  (.original, .label label) ::
                    (marks.map (Prod.mk .original) ++
                      (weaver.exitNodes (weaver.knownBehind remember memory body first)
                          (.insn insn) ++
                        (.original, .insn insn) :: after)) ∧
              Origin.original.nodes before = first ∧ Origin.original.nodes after = second
  /-- A label of the body is its own unless a snippet places it too. -/
  own :
    ∀ label ∈ Node.labels body.nodes,
      (.entry, .label label) ∉ woven.tagged →
        (.exit, .label label) ∉ woven.tagged → woven.Own label
  /-- A range between labels that only the body places covers the instructions that it covered. -/
  ranges :
    ∀ first insn second,
      body.nodes = first ++ .insn insn :: second →
        ∃ before after,
          woven.tagged = before ++ (.original, .insn insn) :: after ∧
            Origin.original.nodes before = first ∧
              Origin.original.nodes after = second ∧
                ∀ handler : Handler,
                  woven.Own handler.start →
                    woven.Own handler.stop →
                      (Flow.Covers handler before ((.original, .insn insn) :: after) ↔
                        handler.start ∈ Node.labels first ∧
                          handler.stop ∈ Node.labels second)
  handlers : woven.handlers = body.handlers ++ weaver.addedHandlers body

/-- Weaving inserts snippets and a handler around the body, and does nothing else to its nodes. -/
theorem inserts_weaveRecalling
    (weaver : Weaver Memory)
    (remember : Memory → Opcode → Memory)
    (memory : Memory)
    (body : Body) :
    weaver.Inserts remember memory body (weaver.weaveRecalling remember memory body.events) ∧
      weaver.weaveRecalling (fun memory _ => memory) memory body.events =
        weaver.weave memory body.events := by
  obtain ⟨tagged, handlers⟩ := weaver.weaveRecalling_events remember memory body
  have guard := weaver.nodes_guard_insertedNodes remember memory body
  have fresh := weaver.not_mem_labels_of_guard remember memory body
  refine ⟨?_, weaver.weaveRecalling_of_forgetful memory body.events⟩
  constructor
  case nodes => exact tagged
  case handlers => exact handlers
  case fresh =>
    rw [tagged]
    exact fresh
  case distinct =>
    rw [tagged, guard]
    cases weaver.detection with
    | explicit => exact List.nodup_nil
    | guarded => simp [Node.labels, guardAt]
  case erased =>
    obtain ⟨before, after, shape, front, back⟩ :=
      weaver.exists_insertedNodes_eq remember memory (body.nodes.append_nil).symm
    rw [tagged, shape]
    simp [front, back, withExits]
  case labels =>
    rw [tagged]
    exact fun _ _ _ _ _ => weaver.exists_insertedNodes_eq_of_label remember memory
  case own =>
    intro label placed noEntry noExit origin member
    cases origin with
    | entry => exact absurd member noEntry
    | exit => exact absurd member noExit
    | original => rfl
    | guard =>
        rw [tagged] at member
        exact absurd placed (fresh label member)
  case ranges =>
    intro first insn second split
    obtain ⟨before, after, place, front, back⟩ :=
      weaver.exists_insertedNodes_eq_of_insn remember memory split
    rw [← tagged] at place
    refine ⟨before, after, place, front, back, fun handler start stop => ?_⟩
    rw [WovenBody.covers_iff_of_own place start stop, front, back]

/-- Weaving stretches a range of the body over an instruction of the body that it did not cover. -/
def Stretches
    (weaver : Weaver Memory)
    (memory : Memory)
    (body : Body) : Prop :=
  ∃ handler ∈ body.handlers, ∃ first insn second before after,
    body.nodes = first ++ .insn insn :: second ∧
      ¬(handler.start ∈ Node.labels first ∧ handler.stop ∈ Node.labels second) ∧
        (weaver.weave memory body.events).failure = none ∧
          (weaver.weave memory body.events).tagged =
              before ++ (.original, .insn insn) :: after ∧
            Origin.original.nodes before = first ∧
              Flow.Covers handler before ((.original, .insn insn) :: after)

/-- Advice that inserts nodes at the start. -/
def placing (detection : ExitDetection) (nodes : List Node) : Weaver Unit where
  advice :=
    { enter := fun memory slots => (⟨nodes, none⟩, slots, memory)
      exit := fun _ _ => .ofInsns [] }
  detection := detection
  access := Access.staticFlag
  descriptor := "()V"

/--
The labels of the handler around a body may be those of a handler that has no place, and
a snippet may place a label of the body once more.  Then a range of the body gets longer.
-/
theorem stretches_of_unplaced :
    (placing .guarded []).Stretches ()
        { Body.empty with
          nodes := [.label 0, .insn (.plain 0x00), .insn (.plain Opcode.voidReturn)]
          handlers := [⟨1, 2, 3, none⟩] } ∧
      (placing .explicit [.label 0]).Stretches ()
        { Body.empty with
          nodes := [.insn (.plain 0x00), .label 0, .insn (.plain Opcode.voidReturn), .label 1]
          handlers := [⟨0, 1, 0, none⟩] } := by
  constructor
  · refine
      ⟨⟨1, 2, 3, none⟩, by decide, [.label 0], .plain 0x00, [.insn (.plain Opcode.voidReturn)],
        [(.guard, .label 1), (.original, .label 0)],
        [(.original, .insn (.plain Opcode.voidReturn)), (.guard, .label 2), (.guard, .label 3),
          (.guard, .insn (.plain Opcode.throwReference))], rfl, by decide, ?_, ?_, rfl,
        ⟨by decide, by decide⟩⟩
    all_goals decide +kernel
  · refine
      ⟨⟨0, 1, 0, none⟩, by decide, [], .plain 0x00,
        [.label 0, .insn (.plain Opcode.voidReturn), .label 1], [(.entry, .label 0)],
        [(.original, .label 0), (.original, .insn (.plain Opcode.voidReturn)),
          (.original, .label 1)], rfl, by decide, ?_, ?_, rfl, ⟨by decide, by decide⟩⟩
    all_goals decide +kernel

/-- Advice that tells each exit its number. -/
def numbering : Weaver Nat where
  advice :=
    { enter := fun number slots => (.ofInsns [], slots, number)
      exit := fun number _ => .ofInsns [.immediate 0x11 (Int32.ofNat number), .plain Opcode.pop] }
  detection := .guarded
  access := Access.staticFlag
  descriptor := "()V"

/-- The throw of the handler around the body has the last number. -/
example :
    (numbering.weaveRecalling (fun number _ => number + 1) 7
        { Body.empty with nodes := [.insn (.plain Opcode.voidReturn)] }.events).tagged =
      [(.guard, .label 0),
        (.exit, .insn (.immediate 0x11 7)), (.exit, .insn (.plain Opcode.pop)),
        (.original, .insn (.plain Opcode.voidReturn)),
        (.guard, .label 1), (.guard, .label 2),
        (.exit, .insn (.immediate 0x11 8)), (.exit, .insn (.plain Opcode.pop)),
        (.guard, .insn (.plain Opcode.throwReference))] := by
  decide +kernel

end Weaver
end JvmClass
