import JvmClass.Proofs.Writing

namespace JvmClass

/-!
# When a step fails

A step is decided by reasons if it fails for one of them, and gives a result
exactly if there is none.  A chain is decided by the reasons of its steps, a row
by those of its items, so what can go wrong is said where it is checked and
collected from there.  A step of writing that gives a result is also wanted to
leave the pool as it was.
-/

/-- The outcome is a failure for one of the reasons, or, where there is none, a wanted result. -/
inductive Decided
    {ε α : Type}
    (reason : ε → Prop)
    (wanted : α → Prop) : Except ε α → Prop
  | result
      {value : α}
      (free : ∀ error, ¬ reason error)
      (isWanted : wanted value) :
      Decided reason wanted (.ok value)
  | failure
      {error : ε}
      (isReason : reason error) :
      Decided reason wanted (.error error)

namespace Decided

variable
  {ε α β : Type} {reason other : ε → Prop} {wanted : α → Prop} {later : β → Prop}
  {outcome : Except ε α}

/-- A step that cannot fail is decided by no reason. -/
theorem of_ok
    {value : α}
    (same : outcome = .ok value)
    (isWanted : wanted value) :
    Decided (fun _ => False) wanted outcome := by
  rw [same]
  exact .result (fun _ => id) isWanted

theorem exists_ok
    (decided : Decided (fun _ => False) wanted outcome) :
    ∃ value, outcome = .ok value ∧ wanted value := by
  cases decided with
  | result _ isWanted => exact ⟨_, rfl, isWanted⟩
  | failure isReason => exact isReason.elim

theorem exists_ok_iff
    (decided : Decided reason wanted outcome) :
    (∃ value, outcome = .ok value) ↔ ∀ error, ¬ reason error := by
  cases decided with
  | result free _ => exact ⟨fun _ => free, fun _ => ⟨_, rfl⟩⟩
  | failure isReason => exact ⟨nofun, fun free => absurd isReason (free _)⟩

theorem reason_of_error
    {error : ε}
    (decided : Decided reason wanted outcome)
    (failed : outcome = .error error) :
    reason error := by
  cases decided with
  | result _ _ => cases failed
  | failure isReason => exact Except.error.inj failed ▸ isReason

/-- The same reasons may be told in other words. -/
theorem congr
    (decided : Decided reason wanted outcome)
    (same : ∀ error, reason error ↔ other error) :
    Decided other wanted outcome := by
  cases decided with
  | result free isWanted =>
      exact .result (fun error isReason => free error ((same error).mpr isReason)) isWanted
  | failure isReason => exact .failure ((same _).mp isReason)

/-- A chain is decided by the reasons of its steps. -/
theorem bind
    {next : α → Except ε β}
    (first : Decided reason wanted outcome)
    (second : ∀ value, wanted value → Decided other later (next value)) :
    Decided (fun error => reason error ∨ other error) later (outcome >>= next) := by
  cases first with
  | @result value free isWanted =>
      exact (second value isWanted).congr fun error => (or_iff_right (free error)).symm
  | failure isReason => exact .failure (.inl isReason)

/-- In front of steps that cannot fail, a step decides the chain. -/
theorem before
    {next : α → Except ε β}
    (first : Decided reason wanted outcome)
    (second : ∀ value, wanted value → Decided (fun _ => False) later (next value)) :
    Decided reason later (outcome >>= next) :=
  (first.bind second).congr (by simp)

/-- A row of steps is decided by the reasons of its items. -/
theorem mapM
    {reasonOf : β → ε → Prop}
    {step : β → Except ε α}
    {items : List β}
    (each : ∀ item ∈ items, Decided (reasonOf item) wanted (step item)) :
    Decided (fun error => ∃ item ∈ items, reasonOf item error) (fun _ => True)
      (items.mapM step) := by
  induction items with
  | nil => exact .result (by simp) trivial
  | cons item items inductionHypothesis =>
      rw [List.forall_mem_cons] at each
      rw [List.mapM_cons]
      have others := inductionHypothesis each.2
      refine (each.1.bind fun value _ => others.before fun values _ => of_ok rfl trivial).congr ?_
      simp

end Decided

namespace Writing

variable {α β : Type} {pool : Pool} {reason other : WriteError → Prop}

/-- A step of writing is decided by reasons, and leaves the pool alone if there is none. -/
def Decided
    (pool : Pool)
    (reason : WriteError → Prop)
    (step : Writing α) : Prop :=
  JvmClass.Decided reason (fun result => result.2 = pool) (step pool)

namespace Decided

theorem of_ok
    {step : Writing α}
    {value : α}
    (same : step pool = .ok (value, pool)) :
    Decided pool (fun _ => False) step :=
  JvmClass.Decided.of_ok same rfl

theorem exists_ok
    {step : Writing α}
    (decided : Decided pool (fun _ => False) step) :
    ∃ value, step pool = .ok (value, pool) := by
  obtain ⟨⟨value, _⟩, same, rfl⟩ := JvmClass.Decided.exists_ok decided
  exact ⟨value, same⟩

/-- The same reasons may be told in other words. -/
theorem congr
    {step : Writing α}
    (decided : Decided pool reason step)
    (same : ∀ error, reason error ↔ other error) :
    Decided pool other step :=
  JvmClass.Decided.congr decided same

/-- A step that needs no pool is decided as it is. -/
theorem lift
    {outcome : Except WriteError α}
    {wanted : α → Prop}
    (decided : JvmClass.Decided reason wanted outcome) :
    Decided pool reason (liftM outcome : Writing α) := by
  cases decided with
  | result free _ => exact .result free rfl
  | failure isReason => exact .failure isReason

/-- Behind a step that cannot fail, a chain is decided by what is left of it. -/
theorem behind
    {first : Writing α}
    {next : α → Writing β}
    {value : α}
    (same : first pool = .ok (value, pool))
    (second : Decided pool reason (next value)) :
    Decided pool reason (first >>= next) := by
  have unfolded :
      (first >>= next) pool = first pool >>= fun (value, middle) => next value middle := rfl
  rw [Decided, unfolded, same]
  exact second

theorem behind_lift
    {outcome : Except WriteError α}
    {next : α → Writing β}
    {value : α}
    (same : outcome = .ok value)
    (second : Decided pool reason (next value)) :
    Decided pool reason ((liftM outcome : Writing α) >>= next) :=
  behind (by rw [same]; rfl) second

/-- A chain is decided by the reasons of its steps. -/
theorem bind
    {first : Writing α}
    {next : α → Writing β}
    (decided : Decided pool reason first)
    (second : ∀ value, first pool = .ok (value, pool) → Decided pool other (next value)) :
    Decided pool (fun error => reason error ∨ other error) (first >>= next) := by
  have unfolded :
      (first >>= next) pool = first pool >>= fun (value, middle) => next value middle := rfl
  rw [Decided, unfolded]
  rcases outcome : first pool with error | ⟨value, after⟩
  · exact .failure (.inl (decided.reason_of_error outcome))
  · rw [Decided, outcome] at decided
    cases decided with
    | result free same =>
        obtain rfl : after = pool := same
        exact (second value outcome).congr fun error => (or_iff_right (free error)).symm

/-- In front of steps that cannot fail, a step decides the chain. -/
theorem before
    {first : Writing α}
    {next : α → Writing β}
    (decided : Decided pool reason first)
    (second :
      ∀ value, first pool = .ok (value, pool) → Decided pool (fun _ => False) (next value)) :
    Decided pool reason (first >>= next) :=
  (decided.bind second).congr (by simp)

/-- A row of steps is decided by the reasons of its items. -/
theorem mapM
    {reasonOf : β → WriteError → Prop}
    {step : β → Writing α}
    {items : List β}
    (each : ∀ item ∈ items, Decided pool (reasonOf item) (step item)) :
    Decided pool (fun error => ∃ item ∈ items, reasonOf item error) (items.mapM step) := by
  induction items with
  | nil => exact .result (by simp) rfl
  | cons item items inductionHypothesis =>
      rw [List.forall_mem_cons] at each
      rw [List.mapM_cons]
      have others := inductionHypothesis each.2
      refine (each.1.bind fun value _ => others.before fun values _ => of_ok rfl).congr ?_
      simp

/-- A row of steps that cannot fail gives a row of results. -/
theorem exists_mapM
    {step : β → Writing α}
    {items : List β}
    (each : ∀ item ∈ items, ∃ value, step item pool = .ok (value, pool)) :
    ∃ values, items.mapM step pool = .ok (values, pool) := by
  have decided (item : β) (member : item ∈ items) :
      Decided pool (fun _ => False) (step item) := by
    obtain ⟨value, same⟩ := each item member
    exact of_ok same
  exact exists_ok ((mapM decided).congr fun error => by simp)

end Decided

end Writing

end JvmClass
