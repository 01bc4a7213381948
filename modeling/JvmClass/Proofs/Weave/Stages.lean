import JvmClass.Proofs.Event
import JvmClass.Proofs.Weave.Parts
import JvmClass.Timer
import JvmClass.Weave.Stages

namespace JvmClass

/-!
# Frames and hints through several stages

The first stage turns the frames of a body into hints and leaves out the hints
that came with it.  Every later stage sees no frames and leaves out the hints of
the stage before it, so behind two stages nothing is left of what was declared.
-/

namespace WovenPart

/-- Whether a part tells neither the sizes of the body nor what it declared. -/
def isInner : WovenPart → Bool
  | .kept (.handler _) | .kept (.node _) | .kept (.localVariable _) => true
  | .kept _ | .declared _ | .sizes _ _ => false
  | _ => true

/-- Parts that tell neither the sizes of the body nor what it declared. -/
def Inner (parts : List WovenPart) : Prop :=
  parts.all isInner = true

/-- Parts whose events carry nothing of what the body declared. -/
def Silent (parts : List WovenPart) : Prop :=
  (parts.flatMap events).filterMap BodyEvent.frame? = [] ∧
    (parts.flatMap events).filterMap BodyEvent.hints? = []

/-- Parts whose events carry no sizes. -/
def Unsized (parts : List WovenPart) : Prop :=
  (parts.flatMap events).filterMap BodyEvent.sizes? = []

section Append

variable {first second : List WovenPart}

theorem Inner.append
    (firstInner : Inner first)
    (secondInner : Inner second) :
    Inner (first ++ second) := by
  rw [Inner, List.all_append, firstInner, secondInner, Bool.and_self]

theorem Silent.append
    (firstSilent : Silent first)
    (secondSilent : Silent second) :
    Silent (first ++ second) := by
  simp only [Silent, List.flatMap_append, List.filterMap_append, List.append_eq_nil_iff]
  exact ⟨⟨firstSilent.1, secondSilent.1⟩, ⟨firstSilent.2, secondSilent.2⟩⟩

theorem Unsized.append
    (firstUnsized : Unsized first)
    (secondUnsized : Unsized second) :
    Unsized (first ++ second) := by
  simp only [Unsized, List.flatMap_append, List.filterMap_append, List.append_eq_nil_iff]
  exact ⟨firstUnsized, secondUnsized⟩

end Append

/-- What a part of its own kind does not carry is not among the events of inner parts. -/
theorem Inner.filterMap_events
    {α : Type}
    {carried : BodyEvent → Option α}
    {parts : List WovenPart}
    (inner : Inner parts)
    (noHandler : ∀ handler, carried (.handler handler) = none)
    (noNode : ∀ node, carried (.node node) = none)
    (noLocal : ∀ entry, carried (.localVariable entry) = none) :
    (parts.flatMap events).filterMap carried = [] := by
  have snippet (nodes : List Node) : (nodes.map .node).filterMap carried = [] := by
    rw [List.filterMap_map, List.filterMap_eq_nil_iff]
    exact fun node _ => noNode node
  rw [List.filterMap_flatMap, List.flatMap_eq_nil_iff]
  intro part member
  have isInner := List.all_eq_true.mp inner part member
  cases part with
  | kept event =>
      cases event with
      | handler _ | node _ | localVariable _ => simp [events, noHandler, noNode, noLocal]
      | _ => cases isInner
  | declared _ | sizes _ _ => cases isInner
  | entry _ nodes | exit _ nodes => exact snippet nodes
  | opening _ | closing _ | rethrow => simp [events, noHandler, noNode]

theorem Inner.silent
    {parts : List WovenPart}
    (inner : Inner parts) :
    Silent parts :=
  ⟨inner.filterMap_events (fun _ => rfl) (fun _ => rfl) fun _ => rfl,
    inner.filterMap_events (fun _ => rfl) (fun _ => rfl) fun _ => rfl⟩

theorem Inner.unsized
    {parts : List WovenPart}
    (inner : Inner parts) :
    Unsized parts :=
  inner.filterMap_events (fun _ => rfl) (fun _ => rfl) fun _ => rfl

end WovenPart

namespace Weaver

variable {Memory : Type} (weaver : Weaver Memory)

/-! ## What a stage puts out -/

theorem inner_enter (state : WeaveState Memory) : WovenPart.Inner (weaver.enter state).2 := by
  unfold enter
  cases weaver.detection <;> exact rfl

theorem inner_ensureEntered
    (state : WeaveState Memory) :
    WovenPart.Inner (weaver.ensureEntered state).2 := by
  unfold ensureEntered
  split
  · exact rfl
  · exact weaver.inner_enter state

theorem inner_closeGuard
    (state : WeaveState Memory) :
    WovenPart.Inner (weaver.closeGuard state).2 := by
  unfold closeGuard
  split <;> exact rfl

theorem inner_passNode
    (state : WeaveState Memory)
    (node : Node) :
    WovenPart.Inner (weaver.passNode state node).2 := by
  have entering := weaver.inner_ensureEntered state
  cases node with
  | insn insn =>
      simp only [passNode]
      refine (entering.append ?_).append rfl
      split <;> exact rfl
  | label _ | line _ _ => exact entering.append rfl

@[simp] theorem frames_ensureEntered
    (state : WeaveState Memory) :
    (weaver.ensureEntered state).1.frames = state.frames := by
  unfold ensureEntered enter
  split
  · rfl
  · cases weaver.detection <;> rfl

@[simp] theorem frames_closeGuard
    (state : WeaveState Memory) :
    (weaver.closeGuard state).1.frames = state.frames := by
  unfold closeGuard
  split <;> rfl

@[simp] theorem frames_passNode
    (state : WeaveState Memory)
    (node : Node) :
    (weaver.passNode state node).1.frames = state.frames := by
  rw [← weaver.frames_ensureEntered state]
  cases node with
  | insn insn =>
      simp only [passNode]
      split <;> rfl
  | label _ | line _ _ => rfl

/-- Without frames, the end of a body comes without hints. -/
theorem silent_finish
    {state : WeaveState Memory}
    (noFrames : state.frames = [])
    (maxStack maxLocals : UInt16) :
    WovenPart.Silent (weaver.finish state maxStack maxLocals).2 := by
  simp only [finish, passFrames, frames_closeGuard, frames_ensureEntered, noFrames,
    List.isEmpty_nil, if_true, List.append_nil]
  exact ((weaver.inner_ensureEntered state).append (weaver.inner_closeGuard _)).silent.append
    ⟨rfl, rfl⟩

/-- A part of a body that is no frame brings no frame and no hints about. -/
theorem silent_step
    {state : WeaveState Memory}
    {event : BodyEvent}
    (noFrames : state.frames = [])
    (noFrame : event.frame? = none) :
    WovenPart.Silent (weaver.step state event).2 ∧ (weaver.step state event).1.frames = [] := by
  cases event with
  | code maxStack maxLocals freeLabel =>
      refine ⟨⟨rfl, rfl⟩, ?_⟩
      simp only [step, begin]
      split <;> exact noFrames
  | frame frame => cases noFrame
  | node node =>
      exact ⟨(weaver.inner_passNode state node).silent, by simp [step, noFrames]⟩
  | maxima maxStack maxLocals =>
      refine ⟨weaver.silent_finish noFrames maxStack maxLocals, ?_⟩
      simp [step, finish, passFrames, noFrames]
  | _ => exact ⟨⟨rfl, rfl⟩, noFrames⟩

theorem silent_steps
    {state : WeaveState Memory}
    {events : List BodyEvent}
    (noFrames : state.frames = [])
    (noFrame : events.filterMap BodyEvent.frame? = []) :
    WovenPart.Silent (weaver.steps state events).2 := by
  induction events generalizing state with
  | nil => exact ⟨rfl, rfl⟩
  | cons event events inductionHypothesis =>
      rw [List.filterMap_eq_nil_iff, List.forall_mem_cons, ← List.filterMap_eq_nil_iff] at noFrame
      obtain ⟨silent, stillNone⟩ := weaver.silent_step noFrames noFrame.1
      exact silent.append (inductionHypothesis stillNone noFrame.2)

end Weaver

/-! ## Through all stages -/

/-- The hints that a body is woven with. -/
def Body.declaredHints? (body : Body) : Option FrameHints :=
  if body.frames.isEmpty then none else some ⟨body.maxLocals, body.frames⟩

namespace Weaver

variable {Memory : Type} (weaver : Weaver Memory)

theorem inner_wovenNodes
    (memory : Memory)
    (nodes : List Node) :
    WovenPart.Inner (nodes.flatMap (weaver.wovenNode memory)) := by
  induction nodes with
  | nil => exact rfl
  | cons node nodes inductionHypothesis =>
      rw [List.flatMap_cons]
      refine WovenPart.Inner.append ?_ inductionHypothesis
      cases node with
      | insn insn =>
          simp only [wovenNode]
          split <;> exact rfl
      | label _ | line _ _ => exact rfl

/-- Of what a body declares, weaving keeps its frames, as hints. -/
theorem filterMap_events_weave
    (memory : Memory)
    (body : Body) :
    (weaver.weave memory body.events).events.filterMap BodyEvent.frame? = [] ∧
      (weaver.weave memory body.events).events.filterMap BodyEvent.hints? =
        body.declaredHints?.toList := by
  obtain ⟨before, after, parts, beforeSilent, afterSilent⟩ :
      ∃ before after : List WovenPart,
        (weaver.weave memory body.events).parts = before ++ declaredParts body ++ after ∧
          WovenPart.Silent before ∧ WovenPart.Silent after := by
    have entering (condition : Prop) [Decidable condition] :
        WovenPart.Inner (if condition then weaver.entering memory body else []) := by
      split
      · exact weaver.inner_enter _
      · exact rfl
    have passed {α : Type} (event : α → BodyEvent) (items : List α)
        (isInner : ∀ item, (WovenPart.kept (event item)).isInner = true) :
        WovenPart.Inner (items.map (.kept ∘ event)) := by
      simp [WovenPart.Inner, isInner]
    rw [weave_events, ← ite_not]
    refine ⟨_, _, rfl, ?_, ⟨rfl, rfl⟩⟩
    refine .append (.append (.append (.append (.append (.append ?_ ?_) ?_) ?_) ?_) ?_) ?_
    · exact ⟨rfl, rfl⟩
    · exact (passed .handler body.handlers fun _ => rfl).silent
    · exact (entering _).silent
    · exact (weaver.inner_wovenNodes _ body.nodes).silent
    · exact (passed .localVariable body.locals fun _ => rfl).silent
    · exact (entering _).silent
    · refine WovenPart.Inner.silent ?_
      unfold closing
      split <;> exact rfl
  obtain ⟨noFrames, noHints⟩ := beforeSilent.append afterSilent
  simp only [List.flatMap_append, List.filterMap_append, List.append_eq_nil_iff]
    at noFrames noHints
  simp only [WovenBody.events, parts, List.flatMap_append, List.filterMap_append,
    noFrames, noHints, List.nil_append, List.append_nil]
  unfold declaredParts Body.declaredHints?
  split <;> exact ⟨rfl, rfl⟩

end Weaver

namespace Stage

variable (header : MethodHeader)

@[simp] theorem delivered_nil (events : List BodyEvent) : delivered header [] events = events :=
  rfl

@[simp] theorem delivered_cons
    (stage : Stage)
    (stages : List Stage)
    (events : List BodyEvent) :
    delivered header (stage :: stages) events =
      delivered header stages (stage.weave header events).events :=
  rfl

/-- A body begins with its sizes, and so it does behind every stage. -/
theorem exists_delivered_eq_cons
    (stages : List Stage)
    {maxStack maxLocals : UInt16}
    {freeLabel : Label}
    {events : List BodyEvent} :
    ∃ (label : Label) (others : List BodyEvent),
      delivered header stages (.code maxStack maxLocals freeLabel :: events) =
        .code maxStack maxLocals label :: others := by
  induction stages generalizing freeLabel events with
  | nil => exact ⟨_, _, rfl⟩
  | cons stage stages inductionHypothesis =>
      rw [delivered_cons, weave, Weaver.weave, Weaver.weaveFrom_eq_steps]
      exact inductionHypothesis

/-- What comes without frames comes out of every stage without frames and hints. -/
theorem filterMap_delivered
    (stage : Stage)
    (stages : List Stage)
    {events : List BodyEvent}
    (noFrames : events.filterMap BodyEvent.frame? = []) :
    (delivered header (stage :: stages) events).filterMap BodyEvent.frame? = [] ∧
      (delivered header (stage :: stages) events).filterMap BodyEvent.hints? = [] := by
  have silent : WovenPart.Silent (stage.weave header events).parts := by
    rw [weave, Weaver.weave, Weaver.weaveFrom_eq_steps]
    exact Weaver.silent_steps _ rfl noFrames
  induction stages generalizing stage events with
  | nil => exact silent
  | cons next stages inductionHypothesis =>
      rw [delivered_cons]
      refine inductionHypothesis next silent.1 ?_
      rw [weave, Weaver.weave, Weaver.weaveFrom_eq_steps]
      exact Weaver.silent_steps _ rfl silent.1

/--
What is left of the frames and hints of a body: all of it without a stage, the
frames as hints behind one, and nothing behind more than one.
-/
theorem declared_of_collected
    (stages : List Stage)
    (body : Body) :
    ∃ collected : Body,
      collected? header stages body = some collected ∧
        collected.frames = (if stages.isEmpty then body.frames else []) ∧
        collected.hints =
          match stages with
          | [] => body.hints
          | [_] => body.declaredHints?
          | _ :: _ :: _ => none := by
  obtain ⟨label, others, events⟩ :
      ∃ (label : Label) (others : List BodyEvent),
        delivered header stages body.events = .code body.maxStack body.maxLocals label :: others :=
    exists_delivered_eq_cons header stages
  refine ⟨_, by rw [collected?, Body.ofEvents?, events]; rfl, ?_⟩
  rw [← events]
  dsimp only
  rcases stages with _ | ⟨stage, _ | ⟨next, later⟩⟩
  · rw [delivered_nil, Body.filterMap_frame?_events, Body.filterMap_hints?_events]
    exact ⟨rfl, by cases body.hints <;> rfl⟩
  · obtain ⟨frames, hints⟩ :=
      (stage.weaver header).filterMap_events_weave stage.memory body
    rw [delivered_cons, delivered_nil, weave, frames, hints]
    exact ⟨rfl, by cases body.declaredHints? <;> rfl⟩
  · have frames := ((stage.weaver header).filterMap_events_weave stage.memory body).1
    obtain ⟨noFrames, noHints⟩ := filterMap_delivered header next later frames
    rw [delivered_cons, weave, noFrames, noHints]
    exact ⟨rfl, rfl⟩

end Stage

/-- A body that jumps to its start for ever, and declares that it finds nothing there. -/
def Body.spinning : Body where
  maxStack := 0
  maxLocals := 0
  nodes := [.label 0, .insn (.jump 0xa7 0)]
  handlers := []
  locals := []
  frames := [⟨0, .same 0⟩]
  hints := none
  attributes := []

/-- The same body after it was rewritten in memory. -/
def Body.respun : Body :=
  { Body.spinning with frames := [], hints := some ⟨0, [⟨0, .same 0⟩]⟩ }

/-- The header of a method with that body. -/
def MethodHeader.spinning : MethodHeader :=
  ⟨Access.staticFlag, "m", "()V", []⟩

namespace Stage

/-- A stage that counts in a field. -/
def counting (detection : ExitDetection) : Stage where
  Memory := Unit
  memory := ()
  advice := Timer.fieldCounter ⟨"A", "timer", "J"⟩ .milliseconds
  detection := detection

/-- Hints that come with a body are lost at one stage, and frames at two. -/
theorem lost_hints_of_spinning :
    (collected? .spinning [counting .explicit] .respun).map Body.hints ≠
        some Body.respun.hints ∧
      (collected? .spinning [counting .explicit, counting .guarded] .spinning).map Body.hints ≠
        some (some ⟨Body.spinning.maxLocals, Body.spinning.frames⟩) := by
  decide +kernel

end Stage
end JvmClass
