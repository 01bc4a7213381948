import JvmClass.Event
import JvmClass.Weave

namespace JvmClass

/-!
# The parts of a woven body

Weaving takes the parts of a body one by one.  What comes out of a whole body
can be said at once: the snippet for the start in front of the first node, what
each node becomes, and what is put behind the last.
-/

namespace WeaveState

variable {Memory : Type} (state : WeaveState Memory)

/-- The first of several failures counts. -/
@[simp] theorem fail_fail
    (first second : Option RunError) :
    (state.fail first).fail second = state.fail (first.or second) := by
  simp [fail, Option.or_assoc]

@[simp] theorem fail_none : state.fail none = state := by
  simp [fail]

@[simp] theorem memory_fail (failure : Option RunError) : (state.fail failure).memory = state.memory :=
  rfl

@[simp] theorem slots_fail (failure : Option RunError) : (state.fail failure).slots = state.slots :=
  rfl

@[simp] theorem freeLabel_fail
    (failure : Option RunError) :
    (state.fail failure).freeLabel = state.freeLabel :=
  rfl

@[simp] theorem maxLocals_fail
    (failure : Option RunError) :
    (state.fail failure).maxLocals = state.maxLocals :=
  rfl

@[simp] theorem frames_fail (failure : Option RunError) : (state.fail failure).frames = state.frames :=
  rfl

@[simp] theorem entered_fail
    (failure : Option RunError) :
    (state.fail failure).entered = state.entered :=
  rfl

@[simp] theorem guard_fail (failure : Option RunError) : (state.fail failure).guard = state.guard :=
  rfl

@[simp] theorem failure_fail
    (failure : Option RunError) :
    (state.fail failure).failure = state.failure.or failure :=
  rfl

end WeaveState

/-- The parts of a body in front of its nodes, its nodes, and the parts behind them. -/
theorem Body.events_eq_append
    (body : Body) :
    body.events =
      ([.code body.maxStack body.maxLocals body.nextLabel] ++ body.handlers.map .handler ++
          body.frames.map .frame) ++
        (body.nodes.map .node ++
          ((body.locals.map .localVariable ++ body.attributes.map .codeAttribute ++
              body.hints.toList.map .hints) ++
            [.maxima body.maxStack body.maxLocals])) := by
  simp [events]

namespace Weaver

variable {Memory : Type} (weaver : Weaver Memory)

/-! ## Steps in a row -/

/-- Takes parts of a body one by one. -/
def steps (state : WeaveState Memory) : List BodyEvent → WeaveState Memory × List WovenPart
  | [] => (state, [])
  | event :: rest =>
      let (next, parts) := weaver.step state event
      let (last, others) := steps next rest
      (last, parts ++ others)

theorem weaveFrom_eq_steps
    (done : List WovenPart)
    (state : WeaveState Memory)
    (events : List BodyEvent) :
    weaver.weaveFrom done state events =
      ⟨done.reverse ++ (weaver.steps state events).2, (weaver.steps state events).1.failure⟩ := by
  induction events generalizing done state with
  | nil => simp [weaveFrom, steps]
  | cons event events inductionHypothesis =>
      simp [weaveFrom, steps, inductionHypothesis]

theorem steps_append
    (state : WeaveState Memory)
    (first second : List BodyEvent) :
    weaver.steps state (first ++ second) =
      ((weaver.steps (weaver.steps state first).1 second).1,
        (weaver.steps state first).2 ++ (weaver.steps (weaver.steps state first).1 second).2) := by
  induction first generalizing state with
  | nil => simp [steps]
  | cons event first inductionHypothesis =>
      simp [steps, inductionHypothesis]

/-- Parts that are passed on as they are. -/
theorem steps_of_passed
    {state : WeaveState Memory}
    {events : List BodyEvent}
    (passed : ∀ event ∈ events, weaver.step state event = (state, [.kept event])) :
    weaver.steps state events = (state, events.map .kept) := by
  induction events with
  | nil => rfl
  | cons event events inductionHypothesis =>
      rw [List.forall_mem_cons] at passed
      simp [steps, passed.1, inductionHypothesis passed.2]

/-- Parts that are left out. -/
theorem steps_of_dropped
    {state : WeaveState Memory}
    {events : List BodyEvent}
    (dropped : ∀ event ∈ events, weaver.step state event = (state, [])) :
    weaver.steps state events = (state, []) := by
  induction events with
  | nil => rfl
  | cons event events inductionHypothesis =>
      rw [List.forall_mem_cons] at dropped
      simp [steps, dropped.1, inductionHypothesis dropped.2]

/-- Frames are kept back. -/
theorem steps_frames
    (state : WeaveState Memory)
    (frames : List PlacedFrame) :
    weaver.steps state (frames.map .frame) =
      ({ state with frames := frames.reverse ++ state.frames }, []) := by
  induction frames generalizing state with
  | nil => simp [steps]
  | cons frame frames inductionHypothesis =>
      simp [steps, step, inductionHypothesis]

/-! ## Nodes -/

/-- What a node becomes once the snippet for the start has been inserted. -/
def wovenNode (memory : Memory) (node : Node) : List WovenPart :=
  match node with
  | .insn insn =>
      if weaver.detection.isExit insn.opcode then
        [.exit insn.opcode (weaver.advice.exit memory insn.opcode).nodes, .kept (.node node)]
      else
        [.kept (.node node)]
  | _ => [.kept (.node node)]

/-- The failure of a node once the snippet for the start has been inserted. -/
def nodeFailure (state : WeaveState Memory) : Node → Option RunError
  | .insn insn =>
      (slotFailure state insn).or
        (if weaver.detection.isExit insn.opcode then
          (weaver.advice.exit state.memory insn.opcode).failure
        else
          none)
  | _ => none

@[simp] theorem slotFailure_fail
    (state : WeaveState Memory)
    (failure : Option RunError)
    (insn : Insn) :
    slotFailure (state.fail failure) insn = slotFailure state insn :=
  rfl

@[simp] theorem nodeFailure_fail
    (state : WeaveState Memory)
    (failure : Option RunError) :
    weaver.nodeFailure (state.fail failure) = weaver.nodeFailure state := by
  funext node
  cases node <;> rfl

theorem passNode_of_entered
    {state : WeaveState Memory}
    (entered : state.entered = true)
    (node : Node) :
    weaver.passNode state node =
      (state.fail (weaver.nodeFailure state node), weaver.wovenNode state.memory node) := by
  cases node with
  | insn insn =>
      simp only [passNode, ensureEntered, entered, if_true, nodeFailure, wovenNode, exit]
      split <;> simp
  | _ => simp [passNode, ensureEntered, entered, nodeFailure, wovenNode]

theorem steps_nodes
    {state : WeaveState Memory}
    (entered : state.entered = true)
    (nodes : List Node) :
    weaver.steps state (nodes.map .node) =
      (state.fail (nodes.findSome? (weaver.nodeFailure state)),
        nodes.flatMap (weaver.wovenNode state.memory)) := by
  induction nodes generalizing state with
  | nil => simp [steps]
  | cons node nodes inductionHypothesis =>
      simp only [List.map_cons, steps, step, weaver.passNode_of_entered entered]
      rw [inductionHypothesis (by simpa using entered)]
      simp only [WeaveState.fail_fail, nodeFailure_fail, WeaveState.memory_fail, List.flatMap_cons,
        List.findSome?_cons]
      cases weaver.nodeFailure state node <;> simp

/-- The first node is passed on behind the snippet for the start. -/
theorem passNode_of_not_entered
    {state : WeaveState Memory}
    (waiting : state.entered = false)
    (node : Node) :
    weaver.passNode state node =
      ((weaver.passNode (weaver.enter state).1 node).1,
        (weaver.enter state).2 ++ (weaver.passNode (weaver.enter state).1 node).2) := by
  have entered : (weaver.enter state).1.entered = true := by
    unfold enter
    cases weaver.detection <;> rfl
  cases node with
  | insn insn =>
      simp only [passNode, ensureEntered, waiting, entered, if_true, Bool.false_eq_true, if_false]
      split <;> simp
  | _ => simp [passNode, ensureEntered, waiting, entered]

/-- Local variables are passed on, and the rest is left out. -/
theorem steps_back
    (state : WeaveState Memory)
    (locals : List LocalVariable)
    (attributes : List Attribute)
    (hints : Option FrameHints) :
    weaver.steps state
        (locals.map .localVariable ++ attributes.map .codeAttribute ++ hints.toList.map .hints) =
      (state, locals.map (.kept ∘ .localVariable)) := by
  have localsPassed :
      weaver.steps state (locals.map .localVariable) =
        (state, (locals.map .localVariable).map .kept) :=
    weaver.steps_of_passed (by simp [step])
  have attributesDropped : weaver.steps state (attributes.map .codeAttribute) = (state, []) :=
    weaver.steps_of_dropped (by simp [step])
  have hintsDropped : weaver.steps state (hints.toList.map .hints) = (state, []) :=
    weaver.steps_of_dropped (by simp [step])
  simp [steps_append, localsPassed, attributesDropped, hintsDropped]

/-! ## Whole bodies -/

/-- What is known of a body when its first node comes. -/
def begun (memory : Memory) (body : Body) : WeaveState Memory :=
  { weaver.begin (.start memory) body.maxLocals body.nextLabel with frames := body.frames.reverse }

/-- What is known once the snippet for the start has been inserted. -/
def enteredState (memory : Memory) (body : Body) : WeaveState Memory :=
  (weaver.enter (weaver.begun memory body)).1

/-- The snippet for the start of a body, and where the handler around the body begins. -/
def entering (memory : Memory) (body : Body) : List WovenPart :=
  (weaver.enter (weaver.begun memory body)).2

/-- The end of the handler around a body. -/
def closing (state : WeaveState Memory) : List WovenPart :=
  match state.guard with
  | none => []
  | some guard =>
      [.closing guard,
        .exit Opcode.throwReference (weaver.advice.exit state.memory Opcode.throwReference).nodes,
        .rethrow]

/-- The failure of the snippet in the handler around a body. -/
def closingFailure (state : WeaveState Memory) : Option RunError :=
  state.guard.bind fun _ => (weaver.advice.exit state.memory Opcode.throwReference).failure

/-- The frames that a body declares, as hints. -/
def declaredParts (body : Body) : List WovenPart :=
  if body.frames.isEmpty then [] else [.declared ⟨body.maxLocals, body.frames⟩]

section Whole

variable (memory : Memory) (body : Body)

@[simp] theorem frames_begun : (weaver.begun memory body).frames = body.frames.reverse :=
  rfl

@[simp] theorem memory_begun : (weaver.begun memory body).memory = memory := by
  unfold begun begin
  cases SlotAllocator.forMethod weaver.access weaver.descriptor body.maxLocals <;> rfl

@[simp] theorem freeLabel_begun : (weaver.begun memory body).freeLabel = body.nextLabel := by
  unfold begun begin
  cases SlotAllocator.forMethod weaver.access weaver.descriptor body.maxLocals <;> rfl

@[simp] theorem maxLocals_begun : (weaver.begun memory body).maxLocals = body.maxLocals := by
  unfold begun begin
  cases SlotAllocator.forMethod weaver.access weaver.descriptor body.maxLocals <;> rfl

@[simp] theorem entered_begun : (weaver.begun memory body).entered = false := by
  unfold begun begin
  cases SlotAllocator.forMethod weaver.access weaver.descriptor body.maxLocals <;> rfl

@[simp] theorem guard_begun : (weaver.begun memory body).guard = none := by
  unfold begun begin
  cases SlotAllocator.forMethod weaver.access weaver.descriptor body.maxLocals <;> rfl

@[simp] theorem entered_enteredState : (weaver.enteredState memory body).entered = true := by
  unfold enteredState enter
  cases weaver.detection <;> rfl

@[simp] theorem frames_enteredState :
    (weaver.enteredState memory body).frames = body.frames.reverse := by
  unfold enteredState enter
  cases weaver.detection <;> rfl

@[simp] theorem maxLocals_enteredState :
    (weaver.enteredState memory body).maxLocals = body.maxLocals := by
  unfold enteredState enter
  cases weaver.detection <;> exact maxLocals_begun ..

@[simp] theorem guard_enteredState :
    (weaver.enteredState memory body).guard =
      match weaver.detection with
      | .explicit => none
      | .guarded => some (guardAt body.nextLabel) := by
  unfold enteredState enter
  cases weaver.detection <;> simp

/-- The frames and sizes end a body that was entered. -/
theorem finish_of_entered
    (failure : Option RunError)
    (maxStack maxLocals : UInt16) :
    ((weaver.finish ((weaver.enteredState memory body).fail failure) maxStack maxLocals).1.failure =
        ((weaver.enteredState memory body).failure.or failure).or
          (weaver.closingFailure (weaver.enteredState memory body))) ∧
      (weaver.finish ((weaver.enteredState memory body).fail failure) maxStack maxLocals).2 =
        weaver.closing (weaver.enteredState memory body) ++ declaredParts body ++
          [raisedSizes (weaver.enteredState memory body) maxStack maxLocals] := by
  have frames := weaver.frames_enteredState memory body
  have maxLocalsKept := weaver.maxLocals_enteredState memory body
  have entered := weaver.entered_enteredState memory body
  generalize weaver.enteredState memory body = state at *
  simp only [finish, ensureEntered, WeaveState.entered_fail, entered, if_true, List.nil_append,
    closeGuard, WeaveState.guard_fail, closing, closingFailure, declaredParts]
  cases guarded : state.guard with
  | none =>
      simp only [passFrames, WeaveState.frames_fail, frames, List.isEmpty_reverse,
        WeaveState.maxLocals_fail, maxLocalsKept, List.reverse_reverse]
      split <;> simp [raisedSizes]
  | some guard =>
      simp only [passFrames, exit, WeaveState.frames_fail, frames, List.isEmpty_reverse,
        WeaveState.maxLocals_fail, maxLocalsKept, List.reverse_reverse]
      split <;> simp [raisedSizes, Option.or_assoc]

/-- A body without a node is entered at its end. -/
theorem finish_of_not_entered
    {state : WeaveState Memory}
    (waiting : state.entered = false)
    (maxStack maxLocals : UInt16) :
    weaver.finish state maxStack maxLocals =
      ((weaver.finish (weaver.enter state).1 maxStack maxLocals).1,
        (weaver.enter state).2 ++ (weaver.finish (weaver.enter state).1 maxStack maxLocals).2) := by
  have entered : (weaver.enter state).1.entered = true := by
    unfold enter
    cases weaver.detection <;> rfl
  simp [finish, ensureEntered, waiting, entered]

/-- The snippet for the start comes with the first node. -/
theorem steps_nodes_begun
    (nonempty : body.nodes.isEmpty = false) :
    weaver.steps (weaver.begun memory body) (body.nodes.map .node) =
      ((weaver.enteredState memory body).fail
          (body.nodes.findSome? (weaver.nodeFailure (weaver.enteredState memory body))),
        weaver.entering memory body ++
          body.nodes.flatMap (weaver.wovenNode (weaver.enteredState memory body).memory)) := by
  have passed := weaver.steps_nodes (weaver.entered_enteredState memory body) body.nodes
  obtain ⟨state, parts⟩ := Prod.mk.inj passed
  rw [← state, ← parts]
  cases nodes : body.nodes with
  | nil => simp [nodes] at nonempty
  | cons node nodes =>
      simp only [List.map_cons, steps, step,
        weaver.passNode_of_not_entered (weaver.entered_begun memory body), List.append_assoc]
      rfl

/-- Nothing comes out of the frames of a body before its end. -/
theorem steps_front :
    weaver.steps (.start memory)
        ([.code body.maxStack body.maxLocals body.nextLabel] ++ body.handlers.map .handler ++
          body.frames.map .frame) =
      (weaver.begun memory body,
        [.kept (.code body.maxStack body.maxLocals (weaver.labelAfter body.nextLabel))] ++
          body.handlers.map (.kept ∘ .handler)) := by
  have none : (weaver.begin (.start memory) body.maxLocals body.nextLabel).frames = [] := by
    unfold begin
    cases SlotAllocator.forMethod weaver.access weaver.descriptor body.maxLocals <;> rfl
  have handlers (state : WeaveState Memory) :
      weaver.steps state (body.handlers.map .handler) =
        (state, (body.handlers.map .handler).map .kept) :=
    weaver.steps_of_passed (by simp [step])
  simp [steps_append, steps, step, handlers, steps_frames, begun, none]

/-- What weaving makes of a body, and what goes wrong on the way. -/
theorem weave_events :
    weaver.weave memory body.events =
      { parts :=
          [.kept (.code body.maxStack body.maxLocals (weaver.labelAfter body.nextLabel))] ++
            body.handlers.map (.kept ∘ .handler) ++
            (if body.nodes.isEmpty then [] else weaver.entering memory body) ++
            body.nodes.flatMap (weaver.wovenNode (weaver.enteredState memory body).memory) ++
            body.locals.map (.kept ∘ .localVariable) ++
            (if body.nodes.isEmpty then weaver.entering memory body else []) ++
            weaver.closing (weaver.enteredState memory body) ++
            declaredParts body ++
            [raisedSizes (weaver.enteredState memory body) body.maxStack body.maxLocals]
        failure :=
          ((weaver.enteredState memory body).failure.or
            (body.nodes.findSome? (weaver.nodeFailure (weaver.enteredState memory body)))).or
              (weaver.closingFailure (weaver.enteredState memory body)) } := by
  rw [weave, weaveFrom_eq_steps, body.events_eq_append, steps_append, steps_front, steps_append]
  cases empty : body.nodes.isEmpty with
  | true =>
      obtain ⟨failure, parts⟩ := weaver.finish_of_entered memory body none body.maxStack body.maxLocals
      rw [WeaveState.fail_none] at failure parts
      rw [List.isEmpty_iff.mp empty, List.map_nil, steps, steps_append, steps_back]
      simp only [steps, step, weaver.finish_of_not_entered (weaver.entered_begun memory body)]
      rw [← enteredState, ← entering, failure, parts]
      simp
  | false =>
      obtain ⟨failure, parts⟩ :=
        weaver.finish_of_entered memory body
          (body.nodes.findSome? (weaver.nodeFailure (weaver.enteredState memory body)))
          body.maxStack body.maxLocals
      rw [weaver.steps_nodes_begun memory body empty, steps_append, steps_back]
      simp [steps, step, failure, parts]

end Whole

end Weaver
end JvmClass
