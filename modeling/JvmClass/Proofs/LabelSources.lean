import JvmClass.Event
import JvmClass.LabelSources
import JvmClass.Weave
import Mathlib.Data.List.Nodup

namespace JvmClass.LabelSources

/-!
# Labels of a source are new

A counter goes up by one with each label that it gives and never down, and a
holder keeps its counter.  The labels of a source are therefore the numbers from
its first one on, whoever draws them.
-/

variable {sources : LabelSources} {request : LabelRequest} {holder counter : Nat} {next : Label}

/-! ## One request -/

@[simp] theorem holders_fresh (sources : LabelSources) (holder : Nat) :
    (sources.fresh holder).1.holders = sources.holders := by
  unfold fresh
  split <;> rfl

/-- Nobody loses a source or gets another one. -/
theorem holders_prefix_answer (sources : LabelSources) (request : LabelRequest) :
    sources.holders <+: (sources.answer request).1.holders := by
  cases request with
  | start first => exact List.prefix_append _ _
  | copy other => exact List.prefix_append _ _
  | draw other => simp [answer]

/-- Labels go to those who hold a source. -/
theorem holder_lt_of_answer
    {draw : Draw}
    (drawn : draw ∈ (sources.answer request).2) :
    draw.holder < sources.holders.length := by
  cases request with
  | start first => cases drawn
  | copy other => cases drawn
  | draw other =>
      cases found : sources.holders[other]? with
      | none => simp [answer, fresh, found] at drawn
      | some counter =>
          simp only [answer, fresh, found, List.mem_map] at drawn
          obtain ⟨_, _, rfl⟩ := drawn
          exact (List.getElem?_eq_some_iff.mp found).1

/-- What one request draws from a counter is the next label, if anything, and moves the counter on. -/
theorem drawn_answer
    (request : LabelRequest)
    (held : sources.holders[holder]? = some counter)
    (here : sources.counters[counter]? = some next) :
    ∃ count,
      (sources.answer request).1.drawn holder (sources.answer request).2 =
          List.range' next count ∧
        (sources.answer request).1.counters[counter]? = some (next + count) := by
  cases request with
  | start first =>
      refine ⟨0, rfl, ?_⟩
      have inside := (List.getElem?_eq_some_iff.mp here).1
      exact (List.getElem?_append_left inside).trans here
  | copy other => exact ⟨0, rfl, here⟩
  | draw other =>
      cases found : sources.holders[other]? with
      | none => exact ⟨0, by simp [answer, fresh, found, drawn], by simp [answer, fresh, found, here]⟩
      | some drawnFrom =>
          by_cases same : drawnFrom = counter
          · subst same
            refine ⟨1, ?_, ?_⟩
            · simp [answer, fresh, found, drawn, advance, held, here]
            · simp [answer, fresh, found, advance, here]
          · refine ⟨0, ?_, ?_⟩
            · have apart : ¬ (some drawnFrom == some counter) = true := by simpa using same
              simp only [answer, fresh, found, drawn, advance, List.range'_zero,
                List.map_eq_nil_iff, List.filter_eq_nil_iff, List.mem_map]
              rintro _ ⟨label, _, rfl⟩
              rwa [found, held]
            · simp [answer, fresh, found, advance, same, here]

/-! ## Any number of requests -/

theorem holders_prefix_run (sources : LabelSources) (requests : List LabelRequest) :
    sources.holders <+: (sources.run requests).1.holders := by
  induction requests generalizing sources with
  | nil => exact List.prefix_refl _
  | cons request rest inductionHypothesis =>
      exact (holders_prefix_answer sources request).trans (inductionHypothesis _)

/-- A holder keeps its counter. -/
theorem getElem?_holders_run
    (sources : LabelSources)
    (requests : List LabelRequest)
    (holds : holder < sources.holders.length) :
    (sources.run requests).1.holders[holder]? = sources.holders[holder]? := by
  obtain ⟨later, same⟩ := holders_prefix_run sources requests
  rw [← same, List.getElem?_append_left holds]

/-- Draws are told apart by holder the same way later on. -/
theorem drawn_run
    {draws : List Draw}
    (requests : List LabelRequest)
    (holds : holder < sources.holders.length)
    (hold : ∀ draw ∈ draws, draw.holder < sources.holders.length) :
    (sources.run requests).1.drawn holder draws = sources.drawn holder draws := by
  unfold drawn
  rw [getElem?_holders_run sources requests holds]
  refine congrArg _ (List.filter_congr fun draw member => ?_)
  rw [getElem?_holders_run sources requests (hold draw member)]

theorem drawn_append
    (sources : LabelSources)
    (holder : Nat)
    (first second : List Draw) :
    sources.drawn holder (first ++ second) =
      sources.drawn holder first ++ sources.drawn holder second := by
  simp [drawn]

/-- The labels drawn from a counter are the numbers from its next one on. -/
theorem drawn_run_eq_range'
    {sources : LabelSources}
    (requests : List LabelRequest)
    (held : sources.holders[holder]? = some counter)
    (here : sources.counters[counter]? = some next) :
    ∃ count,
      (sources.run requests).1.drawn holder (sources.run requests).2 = List.range' next count ∧
        (sources.run requests).1.counters[counter]? = some (next + count) := by
  induction requests generalizing sources next with
  | nil => exact ⟨0, rfl, here⟩
  | cons request rest inductionHypothesis =>
      obtain ⟨count, drawnNow, hereNow⟩ := drawn_answer request held here
      have holds := (List.getElem?_eq_some_iff.mp held).1
      have grown := (holders_prefix_answer sources request).length_le
      have heldNow : (sources.answer request).1.holders[holder]? = some counter := by
        obtain ⟨later, same⟩ := holders_prefix_answer sources request
        rw [← same, List.getElem?_append_left holds, held]
      obtain ⟨more, drawnLater, hereLater⟩ := inductionHypothesis heldNow hereNow
      refine ⟨count + more, ?_, hereLater.trans (by rw [Nat.add_assoc])⟩
      have now :
          ((sources.answer request).1.run rest).1.drawn holder (sources.answer request).2 =
            List.range' next count := by
        rw [drawn_run rest (Nat.lt_of_lt_of_le holds grown), drawnNow]
        intro draw member
        exact Nat.lt_of_lt_of_le (holder_lt_of_answer member) grown
      calc (sources.run (request :: rest)).1.drawn holder (sources.run (request :: rest)).2
        _ = ((sources.answer request).1.run rest).1.drawn holder (sources.answer request).2 ++
              ((sources.answer request).1.run rest).1.drawn holder
                ((sources.answer request).1.run rest).2 := drawn_append _ _ _ _
        _ = List.range' next count ++ List.range' (next + count) more := by rw [now, drawnLater]
        _ = List.range' next (count + more) := by rw [List.range'_append_1]

/-! ## New sources -/

/-- A new source shares its counter with nobody who held one before. -/
theorem getElem?_holders_startingAt
    (sources : LabelSources)
    (first : Label) :
    (sources.startingAt first).holders[sources.holders.length]? = some sources.counters.length ∧
      ∀ holder < sources.holders.length,
        (sources.startingAt first).holders[holder]? ≠ some sources.counters.length := by
  refine ⟨by simp [startingAt], fun holder holds same => ?_⟩
  rw [startingAt, List.getElem?_append_left holds] at same
  exact Nat.lt_irrefl _ (sources.counted _ (List.mem_of_getElem? same))

/--
What is drawn from a new source, through any copies and whatever happens to other
sources, are the numbers from its first label on.
-/
theorem drawn_startingAt
    (sources : LabelSources)
    (first : Label)
    (requests : List LabelRequest) :
    ∃ count,
      ((sources.startingAt first).run requests).1.drawn sources.holders.length
          ((sources.startingAt first).run requests).2 =
        List.range' first count := by
  have held := (getElem?_holders_startingAt sources first).1
  have here : (sources.startingAt first).counters[sources.counters.length]? = some first := by
    simp [startingAt]
  obtain ⟨count, drawn, _⟩ := drawn_run_eq_range' requests held here
  exact ⟨count, drawn⟩

/--
The handler around a body has the first three labels of the source of the body;
the stages behind see the label that the source gives next.
-/
theorem drawn_guardAt
    {Memory : Type}
    (weaver : Weaver Memory)
    (sources : LabelSources)
    (first : Label)
    (guarded : weaver.detection = .guarded) :
    let holder := sources.holders.length
    let asked := (sources.startingAt first).run [.draw holder, .draw holder, .draw holder]
    asked.1.drawn holder asked.2 =
        [(Weaver.guardAt first).start, (Weaver.guardAt first).stop,
          (Weaver.guardAt first).handler] ∧
      asked.1.counters[sources.counters.length]? = some (weaver.labelAfter first) := by
  simp [run, answer, fresh, startingAt, advance, drawn, Weaver.guardAt, Weaver.labelAfter,
    guardLabels, guarded]

end JvmClass.LabelSources
