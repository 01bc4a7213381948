import JvmClass.Proofs.Weave.Stages
import JvmClass.Timer
import JvmClass.Trace

namespace JvmClass

/-!
# The order of parts

A stage that is handed a class in its order hands it on in its order, but for what
it adds at the end: timing sends a field that the class lacks behind everything else.
Weaving sends the parts of a body on in their order where each exit is told by its
instruction.  Where a handler goes around the body, all of the body but that handler
and the nodes behind its range is in order.
-/

namespace BodyEvent

/-- The parts of a body before its nodes, in their order. -/
def front
    (maxStack maxLocals : UInt16)
    (freeLabel : Label)
    (handlers : List Handler)
    (frames : List PlacedFrame) : List BodyEvent :=
  [.code maxStack maxLocals freeLabel] ++ handlers.map .handler ++ frames.map .frame

/-- The parts of a body from its nodes on, in their order. -/
def back
    (nodes : List Node)
    (locals : List LocalVariable)
    (attributes : List Attribute)
    (hints : Option FrameHints)
    (maxStack maxLocals : UInt16) : List BodyEvent :=
  nodes.map .node ++
    ((locals.map .localVariable ++ attributes.map .codeAttribute ++ hints.toList.map .hints) ++
      [.maxima maxStack maxLocals])

/-- The parts of a body in their order; a method without a body has none. -/
inductive InOrder : List BodyEvent → Prop
  | none : InOrder []
  | parts
      (maxStack maxLocals : UInt16)
      (freeLabel : Label)
      (handlers : List Handler)
      (frames : List PlacedFrame)
      (nodes : List Node)
      (locals : List LocalVariable)
      (attributes : List Attribute)
      (hints : Option FrameHints)
      (lastStack lastLocals : UInt16) :
      InOrder
        (front maxStack maxLocals freeLabel handlers frames ++
          back nodes locals attributes hints lastStack lastLocals)

/-- The nodes from the end of the range of a handler on to the throw behind a snippet. -/
def unwinding (guard : Handler) (snippet : List Node) : List Node :=
  [.label guard.stop, .label guard.handler] ++ snippet ++
    [.insn (.plain Opcode.throwReference)]

/-- Parts in order but for a handler, and for the nodes from the end of its range on. -/
inductive InOrderBut (snippet : List Node) : List BodyEvent → Prop
  | none : InOrderBut snippet []
  | guarded
      (guard : Handler)
      (before between behind : List BodyEvent)
      (ordered : InOrder (before ++ between ++ behind)) :
      InOrderBut snippet
        (before ++ [.handler guard] ++ between ++ (unwinding guard snippet).map .node ++ behind)

/-- Where a part of a body stands among the others. -/
def rank : BodyEvent → Nat
  | .code .. => 0
  | .handler _ => 1
  | .frame _ => 2
  | .node _ => 3
  | .localVariable _ => 4
  | .codeAttribute _ => 5
  | .hints _ => 6
  | .maxima .. => 7

theorem InOrder.pairwise_rank
    {events : List BodyEvent}
    (ordered : InOrder events) :
    (events.map rank).Pairwise (· ≤ ·) := by
  cases ordered with
  | none => exact .nil
  | parts =>
      -- Each kind of part is a row of one rank.
      simp [front, back, rank, Function.comp_def, List.pairwise_append, List.pairwise_replicate]
      grind

/-- A body has a node, unless it has no local variables to list either. -/
def Noded (events : List BodyEvent) : Prop :=
  (∃ node, .node node ∈ events) ∨ ∀ entry, .localVariable entry ∉ events

theorem noded_front_append_back
    {maxStack maxLocals lastStack lastLocals : UInt16}
    {freeLabel : Label}
    {handlers : List Handler}
    {frames : List PlacedFrame}
    {nodes : List Node}
    {locals : List LocalVariable}
    {attributes : List Attribute}
    {hints : Option FrameHints} :
    Noded
        (front maxStack maxLocals freeLabel handlers frames ++
          back nodes locals attributes hints lastStack lastLocals) ↔
      (nodes = [] → locals = []) := by
  cases nodes with
  | nil => simp [Noded, front, back, List.eq_nil_iff_forall_not_mem]
  | cons node nodes => simp [Noded, front, back]

end BodyEvent

namespace ClassEvent

/-- The parts of a class in their order. -/
def row
    (front : ClassHeader)
    (fields : List Field)
    (methods : List (MethodHeader × Option (List BodyEvent)))
    (attributes : List Attribute) : List ClassEvent :=
  [.header front] ++ fields.map .field ++
    methods.map (fun method => .method method.1 method.2) ++ attributes.map .classAttribute

/-- Parts of a class that come in their order, with bodies of a kind. -/
inductive InOrder
    (bodies : MethodHeader → List BodyEvent → Prop) : List ClassEvent → Prop
  | parts
      (front : ClassHeader)
      (fields : List Field)
      (methods : List (MethodHeader × Option (List BodyEvent)))
      (attributes : List Attribute)
      (ordered : ∀ method ∈ methods, ∀ body ∈ method.2, bodies method.1 body) :
      InOrder bodies (row front fields methods attributes)

/-- Where a part of a class stands among the others. -/
def rank : ClassEvent → Nat
  | .header _ => 0
  | .field _ => 1
  | .method _ _ => 2
  | .classAttribute _ => 3

theorem InOrder.pairwise_rank
    {bodies : MethodHeader → List BodyEvent → Prop}
    {events : List ClassEvent}
    (ordered : InOrder bodies events) :
    (events.map rank).Pairwise (· ≤ ·) := by
  cases ordered with
  | parts front fields methods attributes ordered =>
      simp [row, rank, Function.comp_def, List.pairwise_append, List.pairwise_replicate]
      grind

end ClassEvent

/-! ## Bodies and classes in memory -/

/-- A body comes in order. -/
theorem Body.inOrder_events (body : Body) : BodyEvent.InOrder body.events := by
  have row :=
    BodyEvent.InOrder.parts body.maxStack body.maxLocals body.nextLabel body.handlers body.frames
      body.nodes body.locals body.attributes body.hints body.maxStack body.maxLocals
  simpa [BodyEvent.front, BodyEvent.back, Body.events] using row

/-- A class comes in order. -/
theorem ClassModel.inOrder_events
    (model : ClassModel) :
    ClassEvent.InOrder (fun _ => BodyEvent.InOrder) model.events := by
  have row :
      model.events =
        ClassEvent.row model.header model.fields
          (model.methods.map fun method =>
            (method.header, some ((method.body.map Body.events).getD [])))
          model.attributes := by
    simp [events, ClassEvent.row, Function.comp_def, Method.event]
  rw [row]
  refine .parts _ _ _ _ fun part among body known => ?_
  obtain ⟨method, -, rfl⟩ := List.mem_map.mp among
  obtain rfl := Option.some.inj known
  cases method.body with
  | none => exact .none
  | some body => exact body.inOrder_events

/-! ## Bodies -/

namespace Weaver

open BodyEvent

variable {Memory : Type} {state : WeaveState Memory}

/-- A node comes behind nodes that were inserted. -/
theorem exists_events_wovenNode
    (weaver : Weaver Memory)
    (memory : Memory)
    (node : Node) :
    ∃ inserted : List Node,
      (weaver.wovenNode memory node).flatMap WovenPart.events =
        (inserted ++ [node]).map .node := by
  cases node with
  | insn insn =>
      simp only [wovenNode]
      split
      · exact ⟨(weaver.advice.exit memory insn.opcode).nodes, by simp [WovenPart.events]⟩
      · exact ⟨[], rfl⟩
  | _ => exact ⟨[], rfl⟩

/-- Nodes stay in a row of nodes. -/
theorem exists_events_wovenNodes
    (weaver : Weaver Memory)
    (memory : Memory)
    (nodes : List Node) :
    ∃ woven : List Node,
      (nodes.flatMap (weaver.wovenNode memory)).flatMap WovenPart.events = woven.map .node ∧
        nodes.Sublist woven := by
  induction nodes with
  | nil => exact ⟨[], rfl, .slnil⟩
  | cons node nodes inductionHypothesis =>
      obtain ⟨inserted, events⟩ := weaver.exists_events_wovenNode memory node
      obtain ⟨woven, wovenEvents, kept⟩ := inductionHypothesis
      refine ⟨inserted ++ [node] ++ woven, by simp [events, wovenEvents], ?_⟩
      rw [← List.singleton_append]
      exact (List.sublist_append_right inserted [node]).append kept

/-- Parts that are kept come out as they are. -/
theorem flatMap_events_kept
    {Item : Type}
    (event : Item → BodyEvent)
    (items : List Item) :
    (items.map (.kept ∘ event)).flatMap WovenPart.events = items.map event := by
  rw [List.flatMap_map, List.map_eq_flatMap]
  rfl

/-- What comes out of the sizes: what ends the handler around the body, hints and sizes. -/
theorem exists_events_finish
    (weaver : Weaver Memory)
    (entered : state.entered = true)
    (maxStack maxLocals : UInt16) :
    ∃ (hints : Option FrameHints) (raisedStack raisedLocals : UInt16),
      (weaver.finish state maxStack maxLocals).2.flatMap WovenPart.events =
        (weaver.closing state).flatMap WovenPart.events ++ hints.toList.map .hints ++
          [.maxima raisedStack raisedLocals] := by
  have declared (state : WeaveState Memory) :
      ∃ hints : Option FrameHints,
        (passFrames state).2.flatMap WovenPart.events = hints.toList.map .hints := by
    unfold passFrames
    split
    · exact ⟨none, rfl⟩
    · exact ⟨some ⟨state.maxLocals, state.frames.reverse⟩, rfl⟩
  have sized (state : WeaveState Memory) :
      ∃ raisedStack raisedLocals : UInt16,
        raisedSizes state maxStack maxLocals = .sizes raisedStack raisedLocals :=
    ⟨_, _, rfl⟩
  obtain ⟨hints, hintEvents⟩ := declared (weaver.closeGuard state).1
  obtain ⟨raisedStack, raisedLocals, sizes⟩ := sized (passFrames (weaver.closeGuard state).1).1
  have closed : (weaver.closeGuard state).2 = weaver.closing state := by
    unfold closeGuard closing
    cases state.guard <;> rfl
  refine ⟨hints, raisedStack, raisedLocals, ?_⟩
  simp only [finish, ensureEntered, entered, if_true, List.nil_append, closed, List.flatMap_append,
    hintEvents, sizes]
  rfl

/-- What comes out of a body from its nodes on once the snippet for the start was inserted. -/
theorem exists_events_of_entered
    (weaver : Weaver Memory)
    (entered : state.entered = true)
    (nodes : List Node)
    (locals : List LocalVariable)
    (attributes : List Attribute)
    (hints : Option FrameHints)
    (maxStack maxLocals : UInt16) :
    ∃ (woven : List Node) (declared : Option FrameHints) (raisedStack raisedLocals : UInt16),
      nodes.Sublist woven ∧
        (weaver.steps state (back nodes locals attributes hints maxStack maxLocals)).2.flatMap
            WovenPart.events =
          woven.map .node ++ locals.map .localVariable ++
            (weaver.closing state).flatMap WovenPart.events ++ declared.toList.map .hints ++
            [.maxima raisedStack raisedLocals] := by
  obtain ⟨woven, wovenEvents, kept⟩ := weaver.exists_events_wovenNodes state.memory nodes
  have stillEntered :
      (state.fail (nodes.findSome? (weaver.nodeFailure state))).entered = true :=
    entered
  obtain ⟨declared, raisedStack, raisedLocals, ended⟩ :=
    weaver.exists_events_finish stillEntered maxStack maxLocals
  refine ⟨woven, declared, raisedStack, raisedLocals, kept, ?_⟩
  rw [back, steps_append, weaver.steps_nodes entered, steps_append, steps_back]
  simp only [steps, step, List.append_nil, List.flatMap_append, wovenEvents, flatMap_events_kept,
    ended, List.append_assoc]
  rfl

/-- The snippet for the start stands in front of the first node, or of the sizes. -/
theorem steps_of_not_entered
    (weaver : Weaver Memory)
    (waiting : state.entered = false)
    (nodes : List Node)
    (locals : List LocalVariable)
    (attributes : List Attribute)
    (hints : Option FrameHints)
    (maxStack maxLocals : UInt16)
    (noded : nodes = [] → locals = []) :
    (weaver.steps state (back nodes locals attributes hints maxStack maxLocals)).2 =
      (weaver.enter state).2 ++
        (weaver.steps (weaver.enter state).1
          (back nodes locals attributes hints maxStack maxLocals)).2 := by
  cases nodes with
  | nil =>
      obtain rfl := noded rfl
      rw [back, List.map_nil, List.nil_append, steps_append, steps_back, steps_append, steps_back]
      simp [steps, step, weaver.finish_of_not_entered waiting]
  | cons node nodes =>
      simp [back, steps, step, weaver.passNode_of_not_entered waiting]

/-- What comes out of the front of a body, and what is known behind it. -/
theorem exists_steps_front
    (weaver : Weaver Memory)
    (memory : Memory)
    (maxStack maxLocals : UInt16)
    (freeLabel : Label)
    (handlers : List Handler)
    (frames : List PlacedFrame) :
    ∃ state : WeaveState Memory,
      state.entered = false ∧ state.guard = none ∧
        weaver.steps (.start memory) (front maxStack maxLocals freeLabel handlers frames) =
          (state,
            [.kept (.code maxStack maxLocals (weaver.labelAfter freeLabel))] ++
              handlers.map (.kept ∘ .handler)) := by
  have handlersPassed (state : WeaveState Memory) :
      weaver.steps state (handlers.map .handler) =
        (state, (handlers.map .handler).map .kept) :=
    weaver.steps_of_passed (by simp [step])
  have begun :
      (weaver.begin (.start memory) maxLocals freeLabel).entered = false ∧
        (weaver.begin (.start memory) maxLocals freeLabel).guard = none := by
    unfold begin
    cases SlotAllocator.forMethod weaver.access weaver.descriptor maxLocals <;> exact ⟨rfl, rfl⟩
  refine ⟨_, ?_, ?_, by simp [front, steps_append, steps, step, handlersPassed, steps_frames]; rfl⟩
  · exact begun.1
  · exact begun.2

/-- What comes out of a body in order: all but the snippet for the start and the handler is told. -/
theorem exists_events_weave
    (weaver : Weaver Memory)
    (memory : Memory)
    (maxStack maxLocals : UInt16)
    (freeLabel : Label)
    (handlers : List Handler)
    (frames : List PlacedFrame)
    (nodes : List Node)
    (locals : List LocalVariable)
    (attributes : List Attribute)
    (hints : Option FrameHints)
    (lastStack lastLocals : UInt16)
    (noded : nodes = [] → locals = []) :
    ∃ (state : WeaveState Memory) (woven : List Node) (declared : Option FrameHints)
        (raisedStack raisedLocals : UInt16),
      state.guard = none ∧ nodes.Sublist woven ∧
        (weaver.weave memory
            (front maxStack maxLocals freeLabel handlers frames ++
              back nodes locals attributes hints lastStack lastLocals)).events =
          [.code maxStack maxLocals (weaver.labelAfter freeLabel)] ++ handlers.map .handler ++
            (weaver.enter state).2.flatMap WovenPart.events ++ woven.map .node ++
            locals.map .localVariable ++
            (weaver.closing (weaver.enter state).1).flatMap WovenPart.events ++
            declared.toList.map .hints ++ [.maxima raisedStack raisedLocals] := by
  obtain ⟨state, waiting, unguarded, front⟩ :=
    weaver.exists_steps_front memory maxStack maxLocals freeLabel handlers frames
  have entered : (weaver.enter state).1.entered = true := by
    unfold enter
    cases weaver.detection <;> rfl
  obtain ⟨woven, declared, raisedStack, raisedLocals, kept, events⟩ :=
    weaver.exists_events_of_entered entered nodes locals attributes hints lastStack lastLocals
  have passed :=
    weaver.steps_of_not_entered waiting nodes locals attributes hints lastStack lastLocals noded
  refine ⟨state, woven, declared, raisedStack, raisedLocals, unguarded, kept, ?_⟩
  rw [weave, weaveFrom_eq_steps, WovenBody.events, steps_append, front, passed]
  simp only [List.reverse_nil, List.nil_append, List.flatMap_append, events, flatMap_events_kept,
    List.append_assoc]
  rfl

/-- Where each exit is told by its instruction, nodes are inserted at the start. -/
theorem exists_events_enter_of_explicit
    (weaver : Weaver Memory)
    (explicit : weaver.detection = .explicit)
    (unguarded : state.guard = none) :
    ∃ entry : List Node,
      (weaver.enter state).2.flatMap WovenPart.events = entry.map .node ∧
        weaver.closing (weaver.enter state).1 = [] := by
  refine ⟨(weaver.advice.enter state.memory state.slots).1.nodes, ?_, ?_⟩
  · simp [enter, explicit, WovenPart.events]
  · simp [enter, explicit, closing, unguarded]

/-- A handler around the body begins behind the nodes inserted at the start. -/
theorem exists_events_enter_of_guarded
    (weaver : Weaver Memory)
    (guarded : weaver.detection = .guarded)
    (state : WeaveState Memory) :
    ∃ (entry : List Node) (guard : Handler),
      (weaver.enter state).2.flatMap WovenPart.events =
          entry.map .node ++ [.handler guard, .node (.label guard.start)] ∧
        (weaver.closing (weaver.enter state).1).flatMap WovenPart.events =
          (unwinding guard
              (weaver.advice.exit (weaver.enter state).1.memory Opcode.throwReference).nodes).map
            .node := by
  refine
    ⟨(weaver.advice.enter state.memory state.slots).1.nodes, guardAt state.freeLabel, ?_, ?_⟩
  · simp [enter, guarded, WovenPart.events]
  · simp [enter, guarded, closing, WovenPart.events, unwinding]

/-- Where each exit is told by its instruction, a body in order stays in order. -/
theorem inOrder_weave
    (weaver : Weaver Memory)
    (memory : Memory)
    {events : List BodyEvent}
    (explicit : weaver.detection = .explicit)
    (ordered : InOrder events)
    (noded : Noded events) :
    InOrder (weaver.weave memory events).events ∧ Noded (weaver.weave memory events).events := by
  cases ordered with
  | none => exact ⟨.none, .inr nofun⟩
  | parts maxStack maxLocals freeLabel handlers frames nodes locals attributes hints lastStack
      lastLocals =>
      rw [noded_front_append_back] at noded
      obtain ⟨state, woven, declared, raisedStack, raisedLocals, unguarded, kept, events⟩ :=
        weaver.exists_events_weave memory maxStack maxLocals freeLabel handlers frames nodes locals
          attributes hints lastStack lastLocals noded
      obtain ⟨entry, entryEvents, unclosed⟩ := weaver.exists_events_enter_of_explicit explicit unguarded
      have row :
          (weaver.weave memory
              (front maxStack maxLocals freeLabel handlers frames ++
                back nodes locals attributes hints lastStack lastLocals)).events =
            front maxStack maxLocals (weaver.labelAfter freeLabel) handlers [] ++
              back (entry ++ woven) locals [] declared raisedStack raisedLocals := by
        rw [events, entryEvents, unclosed]
        simp [front, back]
      rw [row, noded_front_append_back]
      refine ⟨.parts .., fun empty => noded ?_⟩
      rw [List.append_eq_nil_iff] at empty
      exact List.sublist_nil.mp (empty.2 ▸ kept)

/-- Where a handler goes around a body in order, the rest of it stays in order. -/
theorem inOrderBut_weave
    (weaver : Weaver Memory)
    (memory : Memory)
    {events : List BodyEvent}
    (guarded : weaver.detection = .guarded)
    (ordered : InOrder events)
    (noded : Noded events) :
    ∃ last : Memory,
      InOrderBut (weaver.advice.exit last Opcode.throwReference).nodes
        (weaver.weave memory events).events := by
  cases ordered with
  | none => exact ⟨memory, .none⟩
  | parts maxStack maxLocals freeLabel handlers frames nodes locals attributes hints lastStack
      lastLocals =>
      rw [noded_front_append_back] at noded
      obtain ⟨state, woven, declared, raisedStack, raisedLocals, unguarded, kept, events⟩ :=
        weaver.exists_events_weave memory maxStack maxLocals freeLabel handlers frames nodes locals
          attributes hints lastStack lastLocals noded
      obtain ⟨entry, guard, entryEvents, closed⟩ :=
        weaver.exists_events_enter_of_guarded guarded state
      refine ⟨(weaver.enter state).1.memory, ?_⟩
      rw [events, entryEvents, closed]
      have ordered :
          front maxStack maxLocals (weaver.labelAfter freeLabel) handlers [] ++
              back (entry ++ [.label guard.start] ++ woven) locals [] declared raisedStack
                raisedLocals =
            ([.code maxStack maxLocals (weaver.labelAfter freeLabel)] ++ handlers.map .handler ++
                entry.map .node) ++
              ([.node (.label guard.start)] ++ woven.map .node ++ locals.map .localVariable) ++
              (declared.toList.map .hints ++ [.maxima raisedStack raisedLocals]) := by
        simp [front, back]
      have row :=
        @InOrderBut.guarded
          (weaver.advice.exit (weaver.enter state).1.memory Opcode.throwReference).nodes guard _ _ _
          (ordered ▸ InOrder.parts ..)
      simpa using row

end Weaver

/-! ## Chains of stages -/

namespace Stage

open BodyEvent

/-- Stages that tell each exit by its instruction deliver a body in order. -/
theorem inOrder_delivered
    {header : MethodHeader}
    {stages : List Stage}
    {events : List BodyEvent}
    (explicit : ∀ stage ∈ stages, stage.detection = .explicit)
    (ordered : InOrder events)
    (noded : Noded events) :
    InOrder (delivered header stages events) ∧ Noded (delivered header stages events) := by
  induction stages generalizing events with
  | nil => exact ⟨ordered, noded⟩
  | cons stage stages inductionHypothesis =>
      rw [List.forall_mem_cons] at explicit
      have woven := (stage.weaver header).inOrder_weave stage.memory explicit.1 ordered noded
      exact inductionHypothesis explicit.2 woven.1 woven.2

end Stage

/-! ## Classes -/

namespace ClassEvent

open BodyEvent

/-- A stage that changes nothing but the header of a class, and bodies, keeps the order. -/
theorem InOrder.map
    {bodies others : MethodHeader → List BodyEvent → Prop}
    {events : List ClassEvent}
    {stage : ClassEvent → ClassEvent}
    {rename : ClassHeader → ClassHeader}
    {rewrite : MethodHeader → Option (List BodyEvent) → Option (List BodyEvent)}
    (ordered : InOrder bodies events)
    (header : ∀ front, stage (.header front) = .header (rename front))
    (field : ∀ field, stage (.field field) = .field field)
    (method : ∀ front body, stage (.method front body) = .method front (rewrite front body))
    (item : ∀ item, stage (.classAttribute item) = .classAttribute item)
    (rewritten : ∀ front body, (∀ events ∈ body, bodies front events) →
      ∀ events ∈ rewrite front body, others front events) :
    InOrder others (events.map stage) := by
  cases ordered with
  | parts front fields methods attributes kept =>
      have mapped :
          (row front fields methods attributes).map stage =
            row (rename front) fields
              (methods.map fun method => (method.1, rewrite method.1 method.2)) attributes := by
        simp [row, Function.comp_def, header, field, method, item]
      rw [mapped]
      refine .parts _ _ _ _ fun part among => ?_
      obtain ⟨method, methodAmong, rfl⟩ := List.mem_map.mp among
      exact rewritten method.1 method.2 (kept method methodAmong)

end ClassEvent

/-- Tracing keeps the order. -/
theorem Trace.inOrder_trace
    {bodies : MethodHeader → List BodyEvent → Prop}
    {events : List ClassEvent}
    (pool : Option Pool)
    (accepts : MethodHeader → Bool)
    (ordered : ClassEvent.InOrder bodies events) :
    ClassEvent.InOrder bodies (trace pool accepts events).events := by
  let offered (front : MethodHeader) (body : Option (List BodyEvent)) :=
    if accepts front then body else none
  refine
    @ClassEvent.InOrder.map _ _ _ (ClassEvent.offer accepts) id offered ordered (fun _ => rfl)
      (fun _ => rfl) (fun _ _ => rfl) (fun _ => rfl) fun front body kept events among => ?_
  dsimp only [offered] at among
  split at among
  · exact kept events among
  · cases among

namespace Timer

open BodyEvent

variable {config : TimerConfig}

/-- A body that is timed has a node if it has local variables. -/
def Accepted (config : TimerConfig) (front : MethodHeader) (body : List BodyEvent) : Prop :=
  InOrder body ∧ (config.isTarget front.name front.descriptor → Noded body)

/-- A body is in order, but for the handler around one that is timed, if there is to be one. -/
def Handed
    (config : TimerConfig)
    (className : String)
    (front : MethodHeader)
    (body : List BodyEvent) : Prop :=
  match config.isTarget front.name front.descriptor, config.strategy with
  | true, .structuredAdvice =>
      InOrderBut
        (changeField (counterField config className) config.clock Opcode.ladd).nodes body
  | _, _ => InOrder body

/-- The strategy tells what is in order of a body that is timed. -/
theorem handed_weaveBody
    {front : MethodHeader}
    {body : List BodyEvent}
    (className : String)
    (target : config.isTarget front.name front.descriptor = true)
    (ordered : InOrder body)
    (noded : Noded body) :
    Handed config className front (weaveBody config className front body).events := by
  unfold Handed weaveBody
  rw [target]
  cases config.strategy with
  | fieldCounter => exact (Weaver.inOrder_weave _ _ rfl ordered noded).1
  | localScoped => exact (Weaver.inOrder_weave _ _ rfl ordered noded).1
  | structuredAdvice =>
      let weaver : Weaver Unit :=
        ⟨fieldCounter (counterField config className) config.clock, .guarded, front.access,
          front.descriptor⟩
      obtain ⟨last, inOrder⟩ := weaver.inOrderBut_weave () rfl ordered noded
      exact inOrder

/-- Timing keeps the order, but the field that a class lacks comes behind everything else. -/
theorem inOrder_time
    {events : List ClassEvent}
    (ordered : ClassEvent.InOrder (Accepted config) events) :
    ∃ handed : List ClassEvent,
      (time config events).events =
          handed ++
            (if events.any (isCounter config) then [] else [.field (counterDeclaration config)]) ∧
        ClassEvent.InOrder (Handed config (className config events)) handed := by
  let timed (front : MethodHeader) (body : Option (List BodyEvent)) : Option (List BodyEvent) :=
    body.map fun body =>
      if config.isTarget front.name front.descriptor then
        (weaveBody config (className config events) front body).events
      else
        body
  have method (front : MethodHeader) (body : Option (List BodyEvent)) :
      (timePart config (className config events) (.method front body)).1 =
        .method front (timed front body) := by
    cases body with
    | none => rfl
    | some body =>
        simp only [timePart, timed, Option.map_some]
        split <;> rfl
  refine ⟨events.map (Prod.fst ∘ timePart config (className config events)), ?_, ?_⟩
  · simp only [time, List.map_map]
    cases events.any (isCounter config) <;> rfl
  · refine
      @ClassEvent.InOrder.map _ _ _ _ (fun front => { front with name := className config events })
        timed ordered (fun _ => rfl) (fun _ => rfl) method (fun _ => rfl)
        fun front body accepted events among => ?_
    obtain ⟨body, rfl, rfl⟩ := Option.map_eq_some_iff.mp among
    obtain ⟨inOrder, noded⟩ := accepted body rfl
    split
    case isTrue target => exact handed_weaveBody _ target inOrder (noded target)
    case isFalse spared => simpa [Handed, spared] using inOrder

end Timer

namespace ClassEvent

/--
Every stage that is handed a class or a body in order hands it on in order.  The field that a
class lacks comes behind everything else, and nothing is said of where the handler around a
body stands, nor of the nodes behind its range.
-/
theorem inOrder_of_stages
    {config : TimerConfig}
    {events : List ClassEvent}
    {body : List BodyEvent}
    {stages : List Stage}
    (pool : Option Pool)
    (accepts : MethodHeader → Bool)
    (header : MethodHeader)
    (ordered : InOrder (Timer.Accepted config) events)
    (bodyOrdered : BodyEvent.InOrder body)
    (noded : BodyEvent.Noded body)
    (explicit : ∀ stage ∈ stages, stage.detection = .explicit) :
    (∀ bodies, InOrder bodies events → InOrder bodies (Trace.trace pool accepts events).events) ∧
      (∃ handed : List ClassEvent,
        (Timer.time config events).events =
            handed ++
              (if events.any (Timer.isCounter config) then []
              else [.field (Timer.counterDeclaration config)]) ∧
          InOrder (Timer.Handed config (Timer.className config events)) handed) ∧
      BodyEvent.InOrder (Stage.delivered header stages body) ∧
      (∀ last : Stage, last.detection = .guarded →
        ∃ memory : last.Memory,
          BodyEvent.InOrderBut (last.advice.exit memory Opcode.throwReference).nodes
            (Stage.delivered header (stages ++ [last]) body)) := by
  obtain ⟨delivered, deliveredNoded⟩ :=
    @Stage.inOrder_delivered header _ _ explicit bodyOrdered noded
  refine
    ⟨fun bodies => Trace.inOrder_trace pool accepts, Timer.inOrder_time ordered, delivered,
      fun last guarded => ?_⟩
  rw [Stage.delivered, List.foldl_append]
  exact (last.weaver header).inOrderBut_weave last.memory guarded delivered deliveredNoded

/-- A class with one method, which jumps to its start for ever. -/
def spinning (fields : List Field) : List ClassEvent :=
  row ⟨0, 52, 0x21, "A", some "java/lang/Object", []⟩ fields
    [(.spinning, some Body.spinning.events)] []

theorem noded_spinning : BodyEvent.Noded Body.spinning.events :=
  .inl ⟨.label 0, by simp [Body.events, Body.spinning]⟩

theorem inOrder_spinning
    (config : TimerConfig)
    (fields : List Field) :
    InOrder (Timer.Accepted config) (spinning fields) := by
  refine .parts _ _ _ _ fun method among body known => ?_
  obtain rfl := List.mem_singleton.mp among
  obtain rfl := Option.some.inj known
  exact ⟨Body.spinning.inOrder_events, fun _ => noded_spinning⟩

/-- A class that has the field is handed on in order at every stage. -/
theorem inOrder_of_spinning :
    InOrder (Timer.Accepted {}) (spinning [Timer.counterDeclaration {}]) ∧
      InOrder (Timer.Handed {} "A")
        (Timer.time {} (spinning [Timer.counterDeclaration {}])).events ∧
      BodyEvent.InOrder
        (Stage.delivered .spinning [Stage.counting .explicit, Stage.counting .explicit]
          Body.spinning.events) := by
  have ordered := inOrder_spinning {} [Timer.counterDeclaration {}]
  obtain ⟨-, ⟨handed, events, timed⟩, delivered, -⟩ :=
    @inOrder_of_stages {} (spinning [Timer.counterDeclaration {}]) Body.spinning.events
      [Stage.counting .explicit, Stage.counting .explicit] none (fun _ => true) .spinning ordered
      Body.spinning.inOrder_events noded_spinning (by simp [Stage.counting])
  refine ⟨ordered, ?_, delivered⟩
  have counted : (spinning [Timer.counterDeclaration {}]).any (Timer.isCounter {}) = true := by
    decide
  rw [events, if_pos counted, List.append_nil]
  exact timed

/-- A body without instructions that lists a local variable. -/
def listing : Body :=
  { Body.empty with locals := [⟨"i", "I", 0, 0, 0⟩] }

/--
The field that a class lacks is sent behind its methods, the handler around a body behind
its first nodes, and the snippet for a body without instructions behind its local variables.
-/
theorem not_inOrder_of_spinning :
    InOrder (Timer.Accepted {}) (spinning []) ∧
      ¬ InOrder (fun _ _ => True) (Timer.time {} (spinning [])).events ∧
      BodyEvent.InOrder Body.spinning.events ∧
      ¬ BodyEvent.InOrder
        (Stage.delivered .spinning [Stage.counting .guarded] Body.spinning.events) ∧
      BodyEvent.InOrder listing.events ∧
      ¬ BodyEvent.InOrder
        (Stage.delivered .spinning [Stage.counting .explicit] listing.events) := by
  refine
    ⟨inOrder_spinning {} [], fun timed => ?_, Body.spinning.inOrder_events, fun delivered => ?_,
      listing.inOrder_events, fun delivered => ?_⟩
  · have ranks := timed.pairwise_rank
    revert ranks
    decide +kernel
  · have ranks := delivered.pairwise_rank
    revert ranks
    decide +kernel
  · have ranks := delivered.pairwise_rank
    revert ranks
    decide +kernel

end ClassEvent

end JvmClass
