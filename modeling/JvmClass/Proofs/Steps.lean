import Mathlib.Data.List.Forall2

namespace JvmClass

/-!
# Steps that can fail

A chain of steps gives a result exactly if every step does.  These facts open
such chains one step at a time, so that nothing else unfolds them.
-/

section Steps

variable {ε α β σ : Type}

/-- A chain gives what its second step makes of what its first step gives. -/
theorem bind_eq_ok_iff
    {first : Except ε α}
    {second : α → Except ε β}
    {result : β} :
    first >>= second = .ok result ↔
      ∃ value, first = .ok value ∧ second value = .ok result := by
  cases first with
  | error => simp [bind, Except.bind]
  | ok value => simp [bind, Except.bind]

/-- A chain fails with its first step or with its second. -/
theorem bind_eq_error_iff
    {first : Except ε α}
    {second : α → Except ε β}
    {error : ε} :
    first >>= second = .error error ↔
      first = .error error ∨ ∃ value, first = .ok value ∧ second value = .error error := by
  cases first with
  | error => simp [bind, Except.bind]
  | ok value => simp [bind, Except.bind]

/-- A chain behind a check passes the check. -/
theorem check_bind_eq_ok_iff
    {check : Except ε PUnit}
    {second : PUnit → Except ε β}
    {result : β} :
    check >>= second = .ok result ↔ check = .ok ⟨⟩ ∧ second ⟨⟩ = .ok result := by
  rw [bind_eq_ok_iff]
  constructor
  · rintro ⟨⟨⟩, passed, later⟩
    exact ⟨passed, later⟩
  · rintro ⟨passed, later⟩
    exact ⟨⟨⟩, passed, later⟩

/-- A choice between two first steps is made before the second step. -/
theorem ite_bind_eq_ok_iff
    {condition : Prop}
    [Decidable condition]
    {first other : Except ε α}
    {second : α → Except ε β}
    {result : β} :
    (if condition then first >>= second else other >>= second) = .ok result ↔
      ∃ value, (if condition then first else other) = .ok value ∧ second value = .ok result := by
  split <;> exact bind_eq_ok_iff

/-- A step that gives something has a result. -/
theorem toOption_eq_some_iff
    {step : Except ε α}
    {result : α} :
    step.toOption = some result ↔ step = .ok result := by
  cases step <;> simp [Except.toOption]

/-- A renamed failure is still a failure. -/
theorem mapError_eq_ok_iff
    {ε' : Type}
    {rename : ε → ε'}
    {step : Except ε α}
    {result : α} :
    step.mapError rename = .ok result ↔ step = .ok result := by
  cases step <;> simp [Except.mapError]

/-- What a renamed failure was before. -/
theorem mapError_eq_error_iff
    {ε' : Type}
    {rename : ε → ε'}
    {step : Except ε α}
    {error : ε'} :
    step.mapError rename = .error error ↔ ∃ cause, step = .error cause ∧ rename cause = error := by
  cases step <;> simp [Except.mapError]

/-- A mapped result comes from a result. -/
theorem map_eq_ok_iff
    {change : α → β}
    {step : Except ε α}
    {result : β} :
    change <$> step = .ok result ↔
      ∃ value, step = .ok value ∧ change value = result := by
  cases step <;> simp [Functor.map, Except.map]

/-- A step over a state that only gives a value leaves the state as it is. -/
theorem pure_apply (value : α) (state : σ) : (pure value : StateM σ α) state = (value, state) :=
  rfl

/-- A row of steps gives a row of results, one for each step. -/
theorem mapM_eq_ok_iff
    {step : α → Except ε β}
    {items : List α}
    {results : List β} :
    items.mapM step = .ok results ↔
      List.Forall₂ (fun item result => step item = .ok result) items results := by
  induction items generalizing results with
  | nil =>
      simp [pure, Except.pure, eq_comm]
  | cons item rest inductionHypothesis =>
      simp only [List.mapM_cons, bind_eq_ok_iff, inductionHypothesis, pure, Except.pure,
        Except.ok.injEq]
      constructor
      · rintro ⟨value, stepped, values, others, rfl⟩
        exact .cons stepped others
      · intro all
        cases all with
        | cons stepped others => exact ⟨_, stepped, _, others, rfl⟩

theorem exists_of_forall₂
    {Related : α → β → Prop}
    {items : List α}
    {results : List β}
    {result : β}
    (all : List.Forall₂ Related items results)
    (member : result ∈ results) :
    ∃ item ∈ items, Related item result := by
  obtain ⟨place, inside, rfl⟩ := List.getElem_of_mem member
  have length := all.length_eq
  exact ⟨items[place], List.getElem_mem _, all.get (by omega) inside⟩

theorem forall₂_flip_of_mem
    {Related : α → β → Prop}
    {Other : β → α → Prop}
    {items : List α}
    {results : List β}
    (all : List.Forall₂ Related items results)
    (each : ∀ item result, item ∈ items → Related item result → Other result item) :
    List.Forall₂ Other results items := by
  induction all with
  | nil => exact .nil
  | cons first _ inductionHypothesis =>
      refine .cons (each _ _ (by simp) first) (inductionHypothesis ?_)
      exact fun item result member => each item result (by simp [member])

/-- Rows that are related to the same row are related, item by item through what lies between. -/
theorem forall₂_trans_of_mem
    {γ : Type}
    {First : α → β → Prop}
    {Second : β → γ → Prop}
    {Other : α → γ → Prop}
    {items : List α}
    {middles : List β}
    {results : List γ}
    (firsts : List.Forall₂ First items middles)
    (seconds : List.Forall₂ Second middles results)
    (each :
      ∀ item middle result, item ∈ items → middle ∈ middles →
        First item middle → Second middle result → Other item result) :
    List.Forall₂ Other items results := by
  induction firsts generalizing results with
  | nil =>
      obtain rfl := List.forall₂_nil_left_iff.mp seconds
      exact .nil
  | cons first _ inductionHypothesis =>
      obtain ⟨result, others, second, rest, rfl⟩ := List.forall₂_cons_left_iff.mp seconds
      refine .cons (each _ _ _ (by simp) (by simp) first second) (inductionHypothesis rest ?_)
      exact fun item middle result member among =>
        each item middle result (by simp [member]) (by simp [among])

/-- A row of checks passes exactly if each check does. -/
theorem forM_eq_ok_iff
    {check : α → Except ε Unit}
    {items : List α} :
    items.forM check = .ok () ↔ ∀ item ∈ items, check item = .ok () := by
  induction items with
  | nil =>
      simp [pure, Except.pure]
  | cons item rest inductionHypothesis =>
      have unfolded :
          (item :: rest).forM check = check item >>= fun _ => rest.forM check := rfl
      simp only [unfolded, bind_eq_ok_iff, inductionHypothesis, List.mem_cons,
        forall_eq_or_imp]
      constructor
      · rintro ⟨⟨⟩, passed, others⟩
        exact ⟨passed, others⟩
      · rintro ⟨passed, others⟩
        exact ⟨(), passed, others⟩

/-- What every step keeps about the items so far, a row of steps keeps. -/
theorem foldlM_keeps_row
    {step : σ → α → Except ε σ}
    {items : List α}
    {first last : σ}
    (Kept : List α → σ → Prop)
    (folded : items.foldlM step first = .ok last)
    (kept :
      ∀ done before item after,
        step before item = .ok after → Kept done before → Kept (done ++ [item]) after)
    (holds : Kept [] first) :
    Kept items last := by
  suffices behind :
      ∀ done before, items.foldlM step before = .ok last → Kept done before →
        Kept (done ++ items) last by
    exact behind [] first folded holds
  clear folded holds
  induction items with
  | nil =>
      intro done before folded holds
      cases folded
      simpa using holds
  | cons item rest inductionHypothesis =>
      intro done before folded holds
      simp only [List.foldlM_cons, bind_eq_ok_iff] at folded
      obtain ⟨middle, stepped, others⟩ := folded
      have whole :=
        inductionHypothesis (done ++ [item]) middle others (kept done before item middle stepped holds)
      simpa using whole

/-! ## Failures for allowed reasons -/

/-- A step that fails does so for an allowed reason. -/
def FailsOnly
    (allowed : ε → Prop)
    (step : Except ε α) : Prop :=
  ∀ error, step = .error error → allowed error

variable {allowed : ε → Prop}

theorem failsOnly_ok (value : α) : FailsOnly allowed (.ok value : Except ε α) :=
  fun _ failed => nomatch failed

theorem failsOnly_error
    {error : ε}
    (isAllowed : allowed error) :
    FailsOnly allowed (.error error : Except ε α) := by
  rintro _ ⟨⟩
  exact isAllowed

theorem FailsOnly.imp
    {others : ε → Prop}
    {step : Except ε α}
    (failsOnly : FailsOnly allowed step)
    (implies : ∀ error, allowed error → others error) :
    FailsOnly others step :=
  fun error failed => implies error (failsOnly error failed)

theorem failsOnly_mapError
    {ε' : Type}
    {rename : ε' → ε}
    {step : Except ε' α}
    (allows : ∀ error, allowed (rename error)) :
    FailsOnly allowed (step.mapError rename) := by
  intro error failed
  obtain ⟨cause, _, rfl⟩ := mapError_eq_error_iff.mp failed
  exact allows cause

theorem FailsOnly.bind
    {first : Except ε α}
    {second : α → Except ε β}
    (failsOnly : FailsOnly allowed first)
    (later : ∀ value, FailsOnly allowed (second value)) :
    FailsOnly allowed (first >>= second) := by
  intro error failed
  rcases bind_eq_error_iff.mp failed with here | ⟨value, _, behind⟩
  · exact failsOnly error here
  · exact later value error behind

theorem failsOnly_mapM
    {step : α → Except ε β}
    {items : List α}
    (each : ∀ item ∈ items, FailsOnly allowed (step item)) :
    FailsOnly allowed (items.mapM step) := by
  induction items with
  | nil => exact failsOnly_ok []
  | cons item rest inductionHypothesis =>
      rw [List.forall_mem_cons] at each
      rw [List.mapM_cons]
      exact each.1.bind fun _ => (inductionHypothesis each.2).bind fun _ => failsOnly_ok _

theorem failsOnly_foldlM
    {step : σ → α → Except ε σ}
    {items : List α}
    {first : σ}
    (each : ∀ before, ∀ item ∈ items, FailsOnly allowed (step before item)) :
    FailsOnly allowed (items.foldlM step first) := by
  induction items generalizing first with
  | nil => exact failsOnly_ok first
  | cons item rest inductionHypothesis =>
      rw [List.foldlM_cons]
      refine (each first item (by simp)).bind fun middle => ?_
      exact inductionHypothesis fun before other member =>
        each before other (List.mem_cons_of_mem _ member)

end Steps
end JvmClass
