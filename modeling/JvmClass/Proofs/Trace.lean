import JvmClass.Proofs.Event
import JvmClass.Trace

namespace JvmClass

/-!
# Tracing changes nothing

A tracer takes every method and sends on what it is sent, part by part, so the
receiver behind any number of tracers comes to know what it would know without them.
What is not passed on is the body of a method that the receiver declines, and that
body is traced all the same.
-/

/-! ## One tracer -/

namespace Trace

section Tracer

variable {State : Type} (pool : Option Pool) (receiver : Receiver State) (tracing : Tracing State)

/-- A part of a body is traced, and passed on if the method was taken. -/
theorem takePart_tracer
    (part : BodyEvent) :
    (tracer pool receiver).takePart tracing part =
      { tracing with
        text := tracing.text ++ bodyEvent pool part
        next :=
          if tracing.taken then receiver.takePart tracing.next part else tracing.next } := by
  cases part with
  | code maxStack maxLocals freeLabel =>
      rw [bodyEvent, String.append_empty]
      rfl
  | hints hints =>
      rw [bodyEvent, String.append_empty]
      rfl
  | _ => rfl

/-- The parts of a body are traced in a row, and passed on if the method was taken. -/
theorem foldl_takePart_tracer
    (parts : List BodyEvent) :
    parts.foldl (tracer pool receiver).takePart tracing =
      { tracing with
        text := tracing.text ++ String.join (parts.map (bodyEvent pool))
        next :=
          if tracing.taken then parts.foldl receiver.takePart tracing.next else tracing.next } := by
  induction parts generalizing tracing with
  | nil => simp
  | cons part parts inductionHypothesis =>
      rw [List.foldl_cons, inductionHypothesis, takePart_tracer]
      cases tracing.taken <;> simp [String.append_assoc]

/-- The trace of a method with a body is that of its header, with the body and an empty line. -/
theorem method_some
    (front : MethodHeader)
    (parts : List BodyEvent) :
    method pool front (some parts) =
      method pool front none ++ String.join (parts.map (bodyEvent pool)) ++ "\n" := by
  simp [method, String.append_assoc]

/-- A part of a class is traced, and passed on. -/
theorem take_tracer
    (event : ClassEvent) :
    ((tracer pool receiver).take tracing event).text = tracing.text ++ classEvent pool event ∧
      ((tracer pool receiver).take tracing event).next = receiver.take tracing.next event := by
  cases event with
  | header front => exact ⟨rfl, rfl⟩
  | field item => exact ⟨rfl, rfl⟩
  | classAttribute item => exact ⟨rfl, rfl⟩
  | method front body =>
      rcases offered : receiver.method tracing.next front with ⟨next, taken⟩
      have taking :
          (tracer pool receiver).method tracing front =
            (⟨tracing.text ++ method pool front none, next, taken⟩, true) := by
        simp only [tracer, offered, Tracing.write]
      rw [Receiver.take_method, Receiver.take_method, taking, offered]
      cases body with
      | none => exact ⟨rfl, rfl⟩
      | some parts =>
          simp only [Receiver.takeBody, foldl_takePart_tracer]
          refine ⟨?_, ?_⟩
          · show _ ++ "\n" = _ ++ method pool front (some parts)
            rw [method_some]
            simp only [String.append_assoc]
          · cases taken <;> rfl

/-- The parts of a class are traced in a row, and passed on. -/
theorem foldl_take_tracer
    (events : List ClassEvent) :
    (events.foldl (tracer pool receiver).take tracing).text =
        tracing.text ++ String.join (events.map (classEvent pool)) ∧
      (events.foldl (tracer pool receiver).take tracing).next =
        events.foldl receiver.take tracing.next := by
  induction events generalizing tracing with
  | nil => simp
  | cons event events inductionHypothesis =>
      obtain ⟨text, next⟩ := take_tracer pool receiver tracing event
      obtain ⟨texts, nexts⟩ := inductionHypothesis ((tracer pool receiver).take tracing event)
      rw [List.foldl_cons, texts, nexts, text, next]
      simp [String.append_assoc]

/-- A class is traced, and passed on. -/
theorem replay_tracer
    (events : List ClassEvent) :
    ((tracer pool receiver).replay tracing events).text = tracing.text ++ text pool events ∧
      ((tracer pool receiver).replay tracing events).next =
        receiver.replay tracing.next events := by
  obtain ⟨texts, nexts⟩ := foldl_take_tracer pool receiver tracing events
  constructor
  · show _ ++ "\x7d\n" = _
    rw [texts, text, String.append_assoc]
  · exact congrArg receiver.classEnd nexts

end Tracer

/-! ## Tracers in a row -/

/-- What tracers in a row know, the outermost first, and what the receiver behind them knows. -/
def Layers (State : Type) : List (Option Pool) → Type
  | [] => State
  | _ :: pools => Tracing (Layers State pools)

section Row

variable {State : Type} (receiver : Receiver State) (state : State)

/-- Tracers in a row in front of a receiver, each with the pool that it looks numbers up in. -/
def tracers : (pools : List (Option Pool)) → Receiver (Layers State pools)
  | [] => receiver
  | pool :: pools => tracer pool (tracers pools)

/-- Before the first part of a class. -/
def Layers.start : (pools : List (Option Pool)) → Layers State pools
  | [] => state
  | _ :: pools => (⟨"", start pools, false⟩ : Tracing (Layers State pools))

/-- What the receiver behind all tracers knows. -/
def Layers.innermost : (pools : List (Option Pool)) → Layers State pools → State
  | [] => fun known => known
  | _ :: pools => fun (known : Tracing (Layers State pools)) => innermost pools known.next

/-- The traces, the outermost first. -/
def Layers.texts : (pools : List (Option Pool)) → Layers State pools → List String
  | [] => fun _ => []
  | _ :: pools => fun (known : Tracing (Layers State pools)) => known.text :: texts pools known.next

theorem Layers.innermost_start
    (pools : List (Option Pool)) :
    innermost pools (start state pools) = state := by
  induction pools with
  | nil => rfl
  | cons pool pools inductionHypothesis => exact inductionHypothesis

/-- Behind any number of tracers a receiver comes to know what it would know without them. -/
theorem innermost_replay
    (pools : List (Option Pool))
    (known : Layers State pools)
    (events : List ClassEvent) :
    Layers.innermost pools ((tracers receiver pools).replay known events) =
      receiver.replay (Layers.innermost pools known) events := by
  induction pools with
  | nil => rfl
  | cons pool pools inductionHypothesis =>
      have next := (replay_tracer pool (tracers receiver pools) known events).2
      exact (congrArg (Layers.innermost pools) next).trans (inductionHypothesis _)

/-- Each of several tracers traces the whole class. -/
theorem texts_replay
    (pools : List (Option Pool))
    (events : List ClassEvent) :
    Layers.texts pools ((tracers receiver pools).replay (Layers.start state pools) events) =
      pools.map fun pool => text pool events := by
  induction pools with
  | nil => rfl
  | cons pool pools inductionHypothesis =>
      obtain ⟨written, next⟩ :=
        replay_tracer pool (tracers receiver pools) (Layers.start state (pool :: pools)) events
      rw [List.map_cons, ← inductionHypothesis]
      refine congr (congrArg List.cons ?_) (congrArg (Layers.texts pools) next)
      exact written.trans (String.empty_append ..)

end Row

/-! ## Classes behind tracers -/

/-- A trace is what a tracer writes, and what it sends on is recorded behind it. -/
theorem trace_eq_replay
    (pool : Option Pool)
    (accepts : MethodHeader → Bool)
    (events : List ClassEvent) :
    trace pool accepts events =
      ⟨((tracer pool (recorder accepts)).replay ⟨"", ⟨[], []⟩, false⟩ events).text,
        ((tracer pool (recorder accepts)).replay ⟨"", ⟨[], []⟩, false⟩
          events).next.events.reverse⟩ := by
  obtain ⟨written, sent⟩ := replay_tracer pool (recorder accepts) ⟨"", ⟨[], []⟩, false⟩ events
  simp [written, sent, Recording.events_replay_recorder, trace]

/--
Any number of tracers in front of a receiver, which may drop methods, are as good as
none, and each of them traces the whole class.  So the collector behind them collects
the class, over its own pool, and behind a stage that drops methods the class without
these methods.
-/
theorem transparent_tracers
    (pools : List (Option Pool))
    (own : Pool)
    (model : ClassModel) :
    (∀ {State : Type} (receiver : Receiver State) (state : State),
        Layers.innermost pools
            ((tracers receiver pools).replay (Layers.start state pools) model.events) =
          receiver.replay state model.events ∧
        Layers.texts pools
            ((tracers receiver pools).replay (Layers.start state pools) model.events) =
          pools.map fun pool => text pool model.events) ∧
      (Layers.innermost pools
          ((tracers collector pools).replay (Layers.start (.start own) pools)
            model.events)).model =
        { model with pool := own } ∧
      ∀ drops : Nat → MethodHeader → Bool,
        (Layers.innermost pools
            ((tracers (dropping drops collector) pools).replay
              (Layers.start ⟨0, .start own⟩ pools) model.events)).next.model =
          { model with pool := own, methods := keptMethods drops 0 model.methods } := by
  have behind {State : Type} (receiver : Receiver State) (state : State) :
      Layers.innermost pools
          ((tracers receiver pools).replay (Layers.start state pools) model.events) =
        receiver.replay state model.events := by
    rw [innermost_replay, Layers.innermost_start]
  refine ⟨fun receiver state => ⟨behind receiver state, texts_replay receiver state ..⟩, ?_,
    fun drops => ?_⟩
  · rw [behind, model_replay_collector, ClassModel.ofEvents_events]
  · rw [behind, Dropping.next_replay_dropping, model_replay_collector,
      ClassModel.ofEvents_events]

end Trace
end JvmClass
