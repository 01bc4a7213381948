import JvmClass.Event.Collect
import Mathlib.Data.List.Basic

namespace JvmClass

/-!
# Collecting what was sent

The events of a body, of a method or of a class are collected as what they were
sent for.  Receivers take a class part by part: at any time the collector has
collected, and the recorder recorded, what has been sent so far, and a stage that
drops methods sends a class without them.
-/

namespace Body

variable (body : Body)

@[simp] theorem filterMap_handler?_events :
    body.events.filterMap BodyEvent.handler? = body.handlers := by
  simp [events, List.filterMap_map, List.filterMap_cons, Function.comp_def, BodyEvent.handler?]

@[simp] theorem filterMap_frame?_events :
    body.events.filterMap BodyEvent.frame? = body.frames := by
  simp [events, List.filterMap_map, List.filterMap_cons, Function.comp_def, BodyEvent.frame?]

@[simp] theorem filterMap_node?_events :
    body.events.filterMap BodyEvent.node? = body.nodes := by
  simp [events, List.filterMap_map, List.filterMap_cons, Function.comp_def, BodyEvent.node?]

@[simp] theorem filterMap_localVariable?_events :
    body.events.filterMap BodyEvent.localVariable? = body.locals := by
  simp [events, List.filterMap_map, List.filterMap_cons, Function.comp_def,
    BodyEvent.localVariable?]

@[simp] theorem filterMap_codeAttribute?_events :
    body.events.filterMap BodyEvent.codeAttribute? = body.attributes := by
  simp [events, List.filterMap_map, List.filterMap_cons, Function.comp_def,
    BodyEvent.codeAttribute?]

@[simp] theorem filterMap_hints?_events :
    body.events.filterMap BodyEvent.hints? = body.hints.toList := by
  simp [events, List.filterMap_map, List.filterMap_cons, Function.comp_def, BodyEvent.hints?]

/-- The sizes come at both ends of a body. -/
@[simp] theorem filterMap_sizes?_events :
    body.events.filterMap BodyEvent.sizes? =
      [(body.maxStack, body.maxLocals), (body.maxStack, body.maxLocals)] := by
  simp [events, List.filterMap_map, Function.comp_def, BodyEvent.sizes?]

/-- The events of a body are collected as the body. -/
theorem ofEvents?_events : ofEvents? body.events = some body := by
  have some : body.events.isEmpty = false := rfl
  obtain ⟨maxStack, maxLocals, nodes, handlers, locals, frames, hints, attributes⟩ := body
  simp only [ofEvents?, some, Bool.false_eq_true, if_false, filterMap_handler?_events,
    filterMap_frame?_events, filterMap_node?_events, filterMap_localVariable?_events,
    filterMap_codeAttribute?_events, filterMap_hints?_events, filterMap_sizes?_events]
  cases hints <;> rfl

end Body

/-- The event of a method is collected as the method. -/
theorem Method.method?_event
    (method : Method) :
    method.event.method? = some method := by
  obtain ⟨access, name, descriptor, body, attributes⟩ := method
  cases body with
  | none => rfl
  | some body =>
      simp only [event, header, Option.map_some, Option.getD_some, ClassEvent.method?,
        Body.ofEvents?_events]

/-- The events of a class are collected as the class, over any pool. -/
theorem ClassModel.ofEvents_events
    (pool : Pool)
    (model : ClassModel) :
    ofEvents pool model.events = { model with pool } := by
  have front (front : ClassHeader) :
      (ClassEvent.header front).header? = some front ∧ (ClassEvent.header front).field? = none ∧
        (ClassEvent.header front).method? = none ∧
          (ClassEvent.header front).classAttribute? = none :=
    ⟨rfl, rfl, rfl, rfl⟩
  have field (field : Field) :
      (ClassEvent.field field).header? = none ∧ (ClassEvent.field field).field? = some field ∧
        (ClassEvent.field field).method? = none ∧
          (ClassEvent.field field).classAttribute? = none :=
    ⟨rfl, rfl, rfl, rfl⟩
  have method (method : Method) :
      method.event.header? = none ∧ method.event.field? = none ∧
        method.event.method? = some method ∧ method.event.classAttribute? = none :=
    ⟨rfl, rfl, method.method?_event, rfl⟩
  have item (item : Attribute) :
      (ClassEvent.classAttribute item).header? = none ∧
        (ClassEvent.classAttribute item).field? = none ∧
          (ClassEvent.classAttribute item).method? = none ∧
            (ClassEvent.classAttribute item).classAttribute? = some item :=
    ⟨rfl, rfl, rfl, rfl⟩
  simp [ofEvents, events, header, List.filterMap_map, front, field, method, item]

/-! ## Collected part by part -/

/-- A body with one more part. -/
def Body.add (body : Body) : BodyEvent → Body
  | .code maxStack maxLocals _ | .maxima maxStack maxLocals => { body with maxStack, maxLocals }
  | .handler handler => { body with handlers := body.handlers ++ [handler] }
  | .frame frame => { body with frames := body.frames ++ [frame] }
  | .node node => { body with nodes := body.nodes ++ [node] }
  | .localVariable entry => { body with locals := body.locals ++ [entry] }
  | .codeAttribute item => { body with attributes := body.attributes ++ [item] }
  | .hints hints => { body with hints := some hints }

/-- What some parts are collected to, if there are any. -/
def Body.ofParts (parts : List BodyEvent) : Body :=
  let sizes := (parts.filterMap BodyEvent.sizes?).getLastD (0, 0)
  {
    maxStack := sizes.1
    maxLocals := sizes.2
    nodes := parts.filterMap BodyEvent.node?
    handlers := parts.filterMap BodyEvent.handler?
    locals := parts.filterMap BodyEvent.localVariable?
    frames := parts.filterMap BodyEvent.frame?
    hints := (parts.filterMap BodyEvent.hints?).getLast?
    attributes := parts.filterMap BodyEvent.codeAttribute?
  }

theorem Body.getD_ofEvents?
    (parts : List BodyEvent) :
    (ofEvents? parts).getD .empty = ofParts parts := by
  cases parts <;> rfl

theorem Body.ofParts_concat
    (parts : List BodyEvent)
    (part : BodyEvent) :
    ofParts (parts ++ [part]) = (ofParts parts).add part := by
  cases part <;>
    simp [ofParts, add, List.filterMap_append, List.filterMap_cons, BodyEvent.sizes?,
      BodyEvent.node?, BodyEvent.handler?, BodyEvent.localVariable?, BodyEvent.frame?,
      BodyEvent.hints?, BodyEvent.codeAttribute?]

/-- One more part is one more part of what was collected, or of a new body. -/
theorem Body.ofEvents?_concat
    (parts : List BodyEvent)
    (part : BodyEvent) :
    ofEvents? (parts ++ [part]) = some (((ofEvents? parts).getD .empty).add part) := by
  have sent : (parts ++ [part]).isEmpty = false := by simp
  rw [getD_ofEvents?, ← ofParts_concat]
  simp only [ofEvents?, sent, Bool.false_eq_true, if_false]
  rfl

/-- A class with one more part. -/
def ClassModel.add (model : ClassModel) : ClassEvent → ClassModel
  | .header front =>
      { model with
        minor := front.minor
        major := front.major
        access := front.access
        name := front.name
        superName := front.superName
        interfaces := front.interfaces }
  | .field item => { model with fields := model.fields ++ [item] }
  | .method front body =>
      { model with methods := model.methods ++ (ClassEvent.method front body).method?.toList }
  | .classAttribute item => { model with attributes := model.attributes ++ [item] }

theorem ClassModel.ofEvents_concat
    (pool : Pool)
    (events : List ClassEvent)
    (event : ClassEvent) :
    ofEvents pool (events ++ [event]) = (ofEvents pool events).add event := by
  cases event with
  | method front body =>
      cases collected : (ClassEvent.method front body).method? <;>
        simp [ofEvents, add, List.filterMap_append, List.filterMap_cons, ClassEvent.header?,
          ClassEvent.field?, ClassEvent.classAttribute?, collected]
  | _ =>
      simp [ofEvents, add, List.filterMap_append, List.filterMap_cons, ClassEvent.header?,
        ClassEvent.field?, ClassEvent.method?, ClassEvent.classAttribute?]

/-- The class of some events is collected of them one by one. -/
theorem ClassModel.foldl_add
    (pool : Pool)
    (sent events : List ClassEvent) :
    events.foldl add (ofEvents pool sent) = ofEvents pool (sent ++ events) := by
  induction events generalizing sent with
  | nil => rw [List.append_nil, List.foldl_nil]
  | cons event events inductionHypothesis =>
      rw [List.foldl_cons, ← ofEvents_concat, inductionHypothesis, List.append_assoc,
        List.singleton_append]

namespace Collecting

variable (model : ClassModel) (method : Method)

theorem takePart_collector
    (collecting : Collecting)
    (part : BodyEvent) :
    collector.takePart collecting part = collecting.inBody fun body => body.add part := by
  cases part <;> rfl

/-- The method that is kept aside has the parts of its body that have been sent. -/
theorem foldl_takePart_collector
    (sent parts : List BodyEvent) :
    parts.foldl collector.takePart
        ⟨model, some { method with body := Body.ofEvents? sent }⟩ =
      ⟨model, some { method with body := Body.ofEvents? (sent ++ parts) }⟩ := by
  induction parts generalizing sent with
  | nil => rw [List.append_nil, List.foldl_nil]
  | cons part parts inductionHypothesis =>
      have step :
          collector.takePart ⟨model, some { method with body := Body.ofEvents? sent }⟩ part =
            ⟨model, some { method with body := Body.ofEvents? (sent ++ [part]) }⟩ := by
        rw [takePart_collector, Body.ofEvents?_concat]
        rfl
      rw [List.foldl_cons, step, inductionHypothesis, List.append_assoc, List.singleton_append]

/-- What has been collected takes one more part. -/
theorem model_take_collector
    (collecting : Collecting)
    (event : ClassEvent) :
    (collector.take collecting event).model = collecting.model.add event := by
  cases event with
  | header front => rfl
  | field item => rfl
  | classAttribute item => rfl
  | method front body =>
      cases body with
      | none =>
          show collecting.model =
            { collecting.model with methods := collecting.model.methods ++ [] }
          rw [List.append_nil]
      | some parts =>
          have collected :=
            foldl_takePart_collector collecting.model
              ⟨front.access, front.name, front.descriptor, none, front.attributes⟩ [] parts
          exact congrArg (fun collecting => (collector.methodEnd collecting).model) collected

/-- What has been collected is the class of the parts that have been sent. -/
theorem model_foldl_collector
    (collecting : Collecting)
    (events : List ClassEvent) :
    (events.foldl collector.take collecting).model = events.foldl ClassModel.add collecting.model := by
  induction events generalizing collecting with
  | nil => rfl
  | cons event events inductionHypothesis =>
      rw [List.foldl_cons, List.foldl_cons, inductionHypothesis, model_take_collector]

end Collecting

/-- The collector gives the class that collecting all events at once gives. -/
theorem model_replay_collector
    (pool : Pool)
    (events : List ClassEvent) :
    (collector.replay (.start pool) events).model = .ofEvents pool events :=
  (Collecting.model_foldl_collector (.start pool) events).trans
    (ClassModel.foldl_add pool [] events)

/-! ## Bodies that are sent -/

/-- A body is sent if there is one and the method is taken. -/
theorem Receiver.take_method
    {State : Type}
    (receiver : Receiver State)
    (state : State)
    (front : MethodHeader)
    (body : Option (List BodyEvent)) :
    receiver.take state (.method front body) =
      match body, receiver.method state front with
      | some parts, (next, true) => receiver.takeBody next parts
      | _, (next, _) => next := by
  rcases offered : receiver.method state front with ⟨next, taken⟩
  cases body <;> cases taken <;> simp only [take, offered]

/-! ## Recorded part by part -/

namespace Recording

variable (accepts : MethodHeader → Bool)

theorem foldl_takePart_recorder
    (recording : Recording)
    (parts : List BodyEvent) :
    parts.foldl (recorder accepts).takePart recording =
      { recording with parts := parts.reverse ++ recording.parts } := by
  induction parts generalizing recording with
  | nil => rfl
  | cons part parts inductionHypothesis =>
      have step : (recorder accepts).takePart recording part = recording.addPart part := by
        cases part <;> rfl
      rw [List.foldl_cons, step, inductionHypothesis, List.reverse_cons, List.append_assoc]
      rfl

/-- A part is recorded, a method whose body is not accepted as one that was declined. -/
theorem events_take_recorder
    (recording : Recording)
    (event : ClassEvent) :
    ((recorder accepts).take recording event).events =
      event.offer accepts :: recording.events := by
  cases event with
  | header front => rfl
  | field item => rfl
  | classAttribute item => rfl
  | method front body =>
      rw [Receiver.take_method]
      have offered :
          (recorder accepts).method recording front =
            (⟨.method front none :: recording.events, []⟩, accepts front) :=
        rfl
      rw [offered, ClassEvent.offer]
      cases accepts front with
      | false => cases body <;> rfl
      | true =>
          cases body with
          | none => rfl
          | some parts =>
              simp only [Receiver.takeBody, foldl_takePart_recorder, List.append_nil]
              show ClassEvent.method front (some parts.reverse.reverse) :: recording.events = _
              rw [List.reverse_reverse]
              rfl

/-- What was recorded of a class is what was accepted of it. -/
theorem events_replay_recorder
    (recording : Recording)
    (events : List ClassEvent) :
    ((recorder accepts).replay recording events).events =
      (events.map (ClassEvent.offer accepts)).reverse ++ recording.events := by
  show (events.foldl (recorder accepts).take recording).events = _
  induction events generalizing recording with
  | nil => rfl
  | cons event events inductionHypothesis =>
      rw [List.foldl_cons, inductionHypothesis, events_take_recorder]
      simp

end Recording

/-! ## Dropped methods -/

/-- The methods that are left, the first of which comes behind some others. -/
def keptMethods
    (drops : Nat → MethodHeader → Bool)
    (passed : Nat)
    (methods : List Method) : List Method :=
  ((methods.zipIdx passed).filter fun listed => !drops listed.2 listed.1.header).map Prod.fst

theorem keptMethods_cons
    (drops : Nat → MethodHeader → Bool)
    (passed : Nat)
    (method : Method)
    (methods : List Method) :
    keptMethods drops passed (method :: methods) =
      if drops passed method.header then keptMethods drops (passed + 1) methods
      else method :: keptMethods drops (passed + 1) methods := by
  cases dropped : drops passed method.header <;> simp [keptMethods, List.zipIdx_cons, dropped]

namespace Dropping

section Passed

variable
  {State : Type} (drops : Nat → MethodHeader → Bool) (receiver : Receiver State)
  (state : Dropping State)

theorem foldl_takePart_dropping
    (parts : List BodyEvent) :
    parts.foldl (dropping drops receiver).takePart state =
      state.forward fun next => parts.foldl receiver.takePart next := by
  induction parts generalizing state with
  | nil => rfl
  | cons part parts inductionHypothesis =>
      have step :
          (dropping drops receiver).takePart state part =
            state.forward fun next => receiver.takePart next part := by
        cases part <;> rfl
      rw [List.foldl_cons, step, inductionHypothesis]
      rfl

/-- A method is dropped or passed on with its body. -/
theorem take_dropping_method
    (front : MethodHeader)
    (body : Option (List BodyEvent)) :
    (dropping drops receiver).take state (.method front body) =
      ⟨state.passed + 1,
        if drops state.passed front then state.next
        else receiver.take state.next (.method front body)⟩ := by
  rw [Receiver.take_method, Receiver.take_method]
  rcases offered : receiver.method state.next front with ⟨next, taken⟩
  cases dropped : drops state.passed front with
  | true =>
      have declined :
          (dropping drops receiver).method state front =
            (⟨state.passed + 1, state.next⟩, false) := by
        simp only [dropping, dropped, if_true]
      rw [declined]
      cases body <;> rfl
  | false =>
      have passed :
          (dropping drops receiver).method state front =
            (⟨state.passed + 1, next⟩, taken) := by
        simp only [dropping, dropped, offered, Bool.false_eq_true, if_false]
      rw [passed]
      cases body with
      | none => rfl
      | some parts =>
          cases taken with
          | false => rfl
          | true =>
              simp only [Receiver.takeBody, foldl_takePart_dropping]
              rfl

/-- The methods that are dropped are as good as missing. -/
theorem foldl_take_dropping_methods
    (methods : List Method) :
    (methods.map Method.event).foldl (dropping drops receiver).take state =
      ⟨state.passed + methods.length,
        ((keptMethods drops state.passed methods).map Method.event).foldl receiver.take
          state.next⟩ := by
  induction methods generalizing state with
  | nil => rfl
  | cons method methods inductionHypothesis =>
      rw [List.map_cons, List.foldl_cons, Method.event, take_dropping_method, inductionHypothesis,
        ← Method.event, keptMethods_cons, List.length_cons]
      cases drops state.passed method.header <;> simp [Nat.add_assoc, Nat.add_comm 1]

/-- What is no method is passed on. -/
theorem foldl_take_dropping
    {events : List ClassEvent}
    (others :
      ∀ event ∈ events, ∀ state,
        (dropping drops receiver).take state event =
          state.forward fun next => receiver.take next event) :
    events.foldl (dropping drops receiver).take state =
      state.forward fun next => events.foldl receiver.take next := by
  induction events generalizing state with
  | nil => rfl
  | cons event events inductionHypothesis =>
      rw [List.forall_mem_cons] at others
      rw [List.foldl_cons, others.1, inductionHypothesis _ others.2]
      rfl

end Passed

/-- A receiver behind a stage that drops methods is sent the class without them. -/
theorem next_replay_dropping
    {State : Type}
    (drops : Nat → MethodHeader → Bool)
    (receiver : Receiver State)
    (state : State)
    (model : ClassModel) :
    ((dropping drops receiver).replay ⟨0, state⟩ model.events).next =
      receiver.replay state
        { model with methods := keptMethods drops 0 model.methods }.events := by
  have front (front : ClassHeader) (state : Dropping State) :
      (dropping drops receiver).take state (.header front) =
        state.forward fun next => receiver.take next (.header front) := rfl
  have fields (state : Dropping State) :
      (model.fields.map ClassEvent.field).foldl (dropping drops receiver).take state =
        state.forward fun next => (model.fields.map ClassEvent.field).foldl receiver.take next := by
    refine foldl_take_dropping drops receiver state fun event member state => ?_
    obtain ⟨field, -, rfl⟩ := List.mem_map.mp member
    rfl
  have items (state : Dropping State) :
      (model.attributes.map ClassEvent.classAttribute).foldl (dropping drops receiver).take state =
        state.forward fun next =>
          (model.attributes.map ClassEvent.classAttribute).foldl receiver.take next := by
    refine foldl_take_dropping drops receiver state fun event member state => ?_
    obtain ⟨item, -, rfl⟩ := List.mem_map.mp member
    rfl
  rw [Receiver.replay, Receiver.replay, ClassModel.events, ClassModel.events]
  simp only [List.foldl_append, List.foldl_cons, front, fields, foldl_take_dropping_methods, items]
  rfl

end Dropping
end JvmClass
