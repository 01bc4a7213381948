import JvmClass.Proofs.Frame.Flow
import JvmClass.Proofs.Verify.DepthState
import JvmClass.Verify

namespace JvmClass

/-!
# The depth check ends

The loop of the depth check has no limit of its own: it goes on while a position
waits.  Whatever is reported on the way, a position is queued only when it gets its
first state or when its state loses a mark, so it is queued at most once more than
there are local variables, and the limit of `DepthProgress.run` is never what ends
a check.
-/

namespace DepthState

/-- A state that changes where paths meet loses a mark. -/
theorem exists_lost_of_meet_ne
    {existing incoming : DepthState}
    (length : existing.assigned.length = incoming.assigned.length)
    (changed : existing.meet incoming ≠ existing) :
    ∃ slot : Nat,
      existing.assigned[slot]? = some true ∧
        (existing.meet incoming).assigned[slot]? = some false := by
  by_contra kept
  simp only [not_exists, not_and] at kept
  refine changed ?_
  have same : (existing.meet incoming).assigned = existing.assigned := by
    refine List.ext_getElem (by simp [meet, length]) fun slot inside insideExisting => ?_
    have marked := kept slot
    rw [List.getElem?_eq_getElem insideExisting, List.getElem?_eq_getElem inside] at marked
    simp only [meet, List.getElem_zipWith, Option.some.injEq] at marked ⊢
    cases mark : existing.assigned[slot] with
    | false => rfl
    | true => simpa [mark] using marked
  simp only [meet] at same ⊢
  rw [same]

/-- Marks of which none is new are no more than before. -/
theorem count_true_le_of_kept
    {marks others : List Bool}
    (length : others.length = marks.length)
    (kept : ∀ slot : Nat, others[slot]? = some true → marks[slot]? = some true) :
    others.count true ≤ marks.count true := by
  induction marks generalizing others with
  | nil => simp [List.length_eq_zero_iff.mp length]
  | cons mark marks inductionHypothesis =>
      cases others with
      | nil => cases length
      | cons other others =>
          have rest : others.count true ≤ marks.count true :=
            inductionHypothesis (Nat.succ.inj length) fun slot => kept (slot + 1)
          have here : other = true → mark = true := by simpa using kept 0
          cases other with
          | false => exact Nat.le_trans (by simpa using rest) (List.count_le_count_cons ..)
          | true => simpa [here rfl] using rest

/-- Marks of which none is new and one is lost are fewer than before. -/
theorem count_true_lt_of_lost
    {marks others : List Bool}
    {slot : Nat}
    (length : others.length = marks.length)
    (kept : ∀ slot : Nat, others[slot]? = some true → marks[slot]? = some true)
    (marked : marks[slot]? = some true)
    (lost : others[slot]? = some false) :
    others.count true < marks.count true := by
  induction marks generalizing others slot with
  | nil => cases marked
  | cons mark marks inductionHypothesis =>
      cases others with
      | nil => cases length
      | cons other others =>
          have keptBehind (slot : Nat) : others[slot]? = some true → marks[slot]? = some true :=
            kept (slot + 1)
          cases slot with
          | zero =>
              cases marked
              cases lost
              have rest := count_true_le_of_kept (Nat.succ.inj length) keptBehind
              simpa using Nat.lt_succ_of_le rest
          | succ slot =>
              have rest := inductionHypothesis (Nat.succ.inj length) keptBehind marked lost
              have here : other = true → mark = true := by simpa using kept 0
              cases other with
              | false => exact Nat.lt_of_lt_of_le (by simpa using rest) (List.count_le_count_cons ..)
              | true => simpa [here rfl] using rest

end DepthState

namespace DepthProgress

/-! ## Why a position is queued -/

/-- Why a position that has a state, or none, is queued with a new one. -/
inductive Cause (state : DepthState) : Option DepthState → Prop where
  /-- There was no state. -/
  | first : Cause state none
  /-- The mark of a local variable is lost, and no local variable gets one. -/
  | lost
      {old : DepthState}
      {slot : Nat}
      (weakens : old.Weakens state)
      (marked : old.assigned[slot]? = some true)
      (unmarked : state.assigned[slot]? = some false) :
      Cause state (some old)

/--
How a check gets from one point to a later one: the positions that leave the queue,
and those that are queued, each for a cause.
-/
inductive Queueing
    (places count : Nat) :
    List Nat → List Nat → DepthProgress → DepthProgress → Prop where
  | noted
      {before after : DepthProgress}
      (states : after.states = before.states)
      (queue : after.queue = before.queue) :
      Queueing places count [] [] before after
  | taken
      {progress : DepthProgress}
      {position : Nat}
      {queue : Queue Nat}
      (popped : progress.queue.pop? = some (position, queue)) :
      Queueing places count [position] [] progress { progress with queue }
  | queued
      {progress : DepthProgress}
      {position : Nat}
      {state : DepthState}
      (inside : position < places)
      (length : state.assigned.length = count)
      (cause : Cause state (progress.states.getD position none)) :
      Queueing places count [] [position] progress (progress.revise position state)
  | trans
      {first second third : DepthProgress}
      {taken laterTaken queued laterQueued : List Nat}
      (earlier : Queueing places count taken queued first second)
      (later : Queueing places count laterTaken laterQueued second third) :
      Queueing places count (taken ++ laterTaken) (queued ++ laterQueued) first third

/-- There is room for a state at each place, and all states speak of as many local variables. -/
structure Sized
    (places count : Nat)
    (progress : DepthProgress) : Prop where
  size : progress.states.size = places
  length :
    ∀ position state,
      progress.states.getD position none = some state → state.assigned.length = count

/-- How often a position with a state, or without one, can still be queued. -/
def capacity (count : Nat) : Option DepthState → Nat
  | none => count + 1
  | some state => state.assigned.count true

/-- The positions that wait, and those that can still be queued. -/
def remaining (count : Nat) (progress : DepthProgress) : Nat :=
  progress.queue.toList.length + (progress.states.toList.map (capacity count)).sum

/-- A position that is queued can be queued less often from then on. -/
theorem capacity_lt_of_cause
    {count : Nat}
    {state : DepthState}
    {held : Option DepthState}
    (length : state.assigned.length = count)
    (cause : Cause state held) :
    capacity count (some state) < capacity count held := by
  cases cause with
  | first =>
      have := List.count_le_length (a := true) (l := state.assigned)
      simp only [capacity]
      omega
  | lost weakens marked unmarked =>
      exact DepthState.count_true_lt_of_lost weakens.count weakens.assigned marked unmarked

/-- A sum over a list drops by what one member drops by. -/
theorem sum_map_set
    {α : Type}
    {items : List α}
    {place : Nat}
    {old : α}
    (new : α)
    (weight : α → Nat)
    (found : items[place]? = some old) :
    ((items.set place new).map weight).sum + weight old =
      (items.map weight).sum + weight new := by
  induction items generalizing place with
  | nil => cases found
  | cons item items inductionHypothesis =>
      cases place with
      | zero =>
          cases found
          simp only [List.set_cons_zero, List.map_cons, List.sum_cons]
          omega
      | succ place =>
          have rest := inductionHypothesis found
          simp only [List.set_cons_succ, List.map_cons, List.sum_cons]
          omega

namespace Queueing

variable {places count : Nat} {taken queued : List Nat} {before after : DepthProgress}

theorem sized
    (queueing : Queueing places count taken queued before after)
    (sized : before.Sized places count) :
    after.Sized places count := by
  induction queueing with
  | noted states _ => exact ⟨states ▸ sized.size, states ▸ sized.length⟩
  | taken _ => exact ⟨sized.size, sized.length⟩
  | @queued progress position state inside length cause =>
      refine ⟨by simp [revise, sized.size], fun other held found => ?_⟩
      unfold revise at found
      rw [getD_setIfInBounds] at found
      split at found
      · cases found
        exact length
      · exact sized.length other held found
  | trans _ _ earlierSized laterSized => exact laterSized (earlierSized sized)

/-- Positions leave the queue in the order in which they waited and were queued. -/
theorem order
    (queueing : Queueing places count taken queued before after) :
    before.queue.toList ++ queued = taken ++ after.queue.toList := by
  induction queueing with
  | noted _ queue => simp [queue]
  | taken popped => simp [Queue.pop?_eq_some popped]
  | queued _ _ _ => simp [revise]
  | trans _ _ earlierOrder laterOrder =>
      rw [← List.append_assoc, earlierOrder, List.append_assoc, laterOrder, List.append_assoc]

/-- What a position is queued, it cannot be queued any more. -/
theorem count_add_capacity_le
    (queueing : Queueing places count taken queued before after)
    (sized : before.Sized places count)
    (position : Nat) :
    queued.count position + capacity count (after.states.getD position none) ≤
      capacity count (before.states.getD position none) := by
  induction queueing with
  | noted states _ => simp [states]
  | taken _ => simp
  | @queued progress other state inside length cause =>
      have dropped := capacity_lt_of_cause length cause
      have inBounds : other < progress.states.size := sized.size ▸ inside
      unfold revise
      rw [getD_setIfInBounds, List.count_singleton]
      by_cases same : other = position
      · subst same
        simp only [inBounds, and_self, if_true, beq_self_eq_true]
        omega
      · simp [same]
  | trans earlier _ earlierBound laterBound =>
      have first := earlierBound sized
      have second := laterBound (earlier.sized sized)
      rw [List.count_append]
      omega

/-- As many positions as leave the queue remain less. -/
theorem length_add_remaining_le
    (queueing : Queueing places count taken queued before after)
    (sized : before.Sized places count) :
    taken.length + after.remaining count ≤ before.remaining count := by
  induction queueing with
  | noted states queue => simp [remaining, states, queue]
  | taken popped =>
      have shorter := congrArg List.length (Queue.pop?_eq_some popped)
      simp only [remaining, List.length_cons, List.length_nil] at shorter ⊢
      omega
  | @queued progress position state inside length cause =>
      have dropped := capacity_lt_of_cause length cause
      have old : progress.states.toList[position]? = some (progress.states.getD position none) := by
        have := sized.size
        simp [Array.getD_eq_getD_getElem?, show position < progress.states.size by omega]
      have total := sum_map_set (some state) (capacity count) old
      simp only [remaining, revise, Queue.toList_push, List.length_append, List.length_singleton,
        Array.toList_setIfInBounds, List.length_nil]
      omega
  | trans earlier _ earlierBound laterBound =>
      have first := earlierBound sized
      have second := laterBound (earlier.sized sized)
      rw [List.length_append]
      omega

end Queueing

/-! ## What a turn queues -/

@[simp] theorem states_report
    (progress : DepthProgress)
    (offset : UInt16)
    (finding : Finding) :
    (progress.report offset finding).states = progress.states := by
  unfold report
  split <;> rfl

@[simp] theorem queue_report
    (progress : DepthProgress)
    (offset : UInt16)
    (finding : Finding) :
    (progress.report offset finding).queue = progress.queue := by
  unfold report
  split <;> rfl

@[simp] theorem states_reportAll
    (progress : DepthProgress)
    (offset : UInt16)
    (findings : List Finding) :
    (progress.reportAll offset findings).states = progress.states := by
  unfold reportAll
  induction findings generalizing progress with
  | nil => rfl
  | cons finding findings inductionHypothesis =>
      simp [inductionHypothesis]

@[simp] theorem queue_reportAll
    (progress : DepthProgress)
    (offset : UInt16)
    (findings : List Finding) :
    (progress.reportAll offset findings).queue = progress.queue := by
  unfold reportAll
  induction findings generalizing progress with
  | nil => rfl
  | cons finding findings inductionHypothesis =>
      simp [inductionHypothesis]

/-- From one point of a check to a later one, no position leaves the queue. -/
def Queues
    (places count : Nat)
    (before after : DepthProgress) : Prop :=
  ∃ queued, Queueing places count [] queued before after

section Turns

variable {context : DepthContext} {insns : List (Nat × Insn)} {handlers : List HandlerEntry}
  {count : Nat}

theorem Queues.refl
    (progress : DepthProgress) :
    Queues insns.length count progress progress :=
  ⟨[], .noted rfl rfl⟩

theorem Queues.trans
    {first second third : DepthProgress}
    (earlier : Queues insns.length count first second)
    (later : Queues insns.length count second third) :
    Queues insns.length count first third := by
  obtain ⟨queued, earlier⟩ := earlier
  obtain ⟨laterQueued, later⟩ := later
  exact ⟨queued ++ laterQueued, earlier.trans later⟩

theorem Queues.sized
    {before after : DepthProgress}
    (queues : Queues insns.length count before after)
    (sized : before.Sized insns.length count) :
    after.Sized insns.length count := by
  obtain ⟨queued, queueing⟩ := queues
  exact queueing.sized sized

theorem queues_of_foldl
    {α : Type}
    {step : DepthProgress → α → DepthProgress}
    (queues :
      ∀ progress item, progress.Sized insns.length count →
        Queues insns.length count progress (step progress item))
    (items : List α)
    {progress : DepthProgress}
    (sized : progress.Sized insns.length count) :
    Queues insns.length count progress (items.foldl step progress) := by
  induction items generalizing progress with
  | nil => exact .refl _
  | cons item items inductionHypothesis =>
      have first := queues progress item sized
      exact first.trans (inductionHypothesis (first.sized sized))

/-- What reaches a target queues it if it has no state yet, or if its state loses a mark. -/
theorem queues_of_flowTo
    {incoming : DepthState}
    (length : incoming.assigned.length = count)
    (source : UInt16)
    (progress : DepthProgress)
    (target : UInt16)
    (sized : progress.Sized insns.length count) :
    Queues insns.length count progress
      (flowTo (.ofInsns insns) source incoming progress target) := by
  unfold flowTo
  split
  · exact ⟨[], .noted (by simp) (by simp)⟩
  · rename_i position means
    have inside := LocatedCode.lt_of_positions means
    split
    · rename_i missing
      refine ⟨[position], .queued inside length ?_⟩
      rw [missing]
      exact .first
    · rename_i existing held
      extract_lets noted met
      have states : noted.states = progress.states := by
        unfold noted
        split <;> simp
      have queue : noted.queue = progress.queue := by
        unfold noted
        split <;> simp
      have quiet : Queues insns.length count progress noted := ⟨[], .noted states queue⟩
      split
      · exact quiet
      · rename_i changed
        have same : existing.assigned.length = incoming.assigned.length :=
          (sized.length position existing held).trans length.symm
        obtain ⟨slot, marked, unmarked⟩ := DepthState.exists_lost_of_meet_ne same changed
        have weakens := DepthState.weakens_meet_left same
        refine quiet.trans ⟨[position], .queued inside ?_ ?_⟩
        · exact weakens.count.trans (same.trans length)
        · rw [states, held]
          exact .lost weakens marked unmarked

theorem queues_of_jumpTo
    {incoming : DepthState}
    (length : incoming.assigned.length = count)
    (source : UInt16)
    (progress : DepthProgress)
    (target : UInt16)
    (sized : progress.Sized insns.length count) :
    Queues insns.length count progress
      (jumpTo (.ofInsns insns) source incoming progress target) := by
  have noted : Queues insns.length count progress (progress.need target) := ⟨[], .noted rfl rfl⟩
  exact noted.trans (queues_of_flowTo length source _ target (noted.sized sized))

theorem queues_of_fallThrough
    {incoming : DepthState}
    (length : incoming.assigned.length = count)
    (source : UInt16)
    (position : Nat)
    (insn : Insn)
    (progress : DepthProgress)
    (sized : progress.Sized insns.length count) :
    Queues insns.length count progress
      (fallThrough (.ofInsns insns) source position insn incoming progress) := by
  unfold fallThrough
  split
  · exact ⟨[], .noted rfl rfl⟩
  · exact .refl _
  · exact queues_of_flowTo length source _ _ sized
  · exact ⟨[], .noted (by simp) (by simp)⟩

/-- Following the edges of an instruction queues positions for a cause only. -/
theorem queues_of_visit
    (position : Nat)
    (progress : DepthProgress)
    (sized : progress.Sized insns.length count) :
    Queues insns.length count progress
      (visit context (.ofInsns insns) handlers progress position) := by
  unfold visit
  split
  · rename_i offset insn before located held
    have length := sized.length position before held
    have caughtLength : (⟨1, before.assigned⟩ : DepthState).assigned.length = count := length
    have behindLength : (before.step context insn).1.assigned.length = count := by
      simpa using length
    extract_lets caught afterCaught
    have handled : Queues insns.length count progress afterCaught :=
      queues_of_foldl (queues_of_jumpTo caughtLength offset) caught sized
    have reported :
        Queues insns.length count afterCaught
          (afterCaught.reportAll offset (before.step context insn).2) :=
      ⟨[], .noted (states_reportAll _ _ _) (queue_reportAll _ _ _)⟩
    have earlier := handled.trans reported
    have followed :
        Queues insns.length count (afterCaught.reportAll offset (before.step context insn).2) _ :=
      queues_of_foldl (queues_of_jumpTo behindLength offset) (insn.targets.map UInt16.ofNat)
        (earlier.sized sized)
    have later := earlier.trans followed
    exact later.trans
      (queues_of_fallThrough behindLength offset position insn _ (later.sized sized))
  · exact .refl _

/-- One turn of the loop of a check, unless nothing waits. -/
def turn?
    (context : DepthContext)
    (code : LocatedCode)
    (handlers : List HandlerEntry)
    (progress : DepthProgress) : Option DepthProgress :=
  progress.queue.pop?.map fun (position, queue) =>
    visit context code handlers { progress with queue } position

/-- So many turns of the loop of a check lead from one point of it to another. -/
inductive Turns
    (context : DepthContext)
    (code : LocatedCode)
    (handlers : List HandlerEntry) :
    Nat → DepthProgress → DepthProgress → Prop where
  | none
      {progress : DepthProgress} :
      Turns context code handlers 0 progress progress
  | next
      {turns : Nat}
      {first second last : DepthProgress}
      (turned : turn? context code handlers first = some second)
      (others : Turns context code handlers turns second last) :
      Turns context code handlers (turns + 1) first last

/-- In a turn one position leaves the queue, and others are queued for a cause only. -/
theorem exists_queueing_of_turn
    {before after : DepthProgress}
    (sized : before.Sized insns.length count)
    (turned : turn? context (.ofInsns insns) handlers before = some after) :
    ∃ position queued, Queueing insns.length count [position] queued before after := by
  obtain ⟨⟨position, queue⟩, popped, rfl⟩ := Option.map_eq_some_iff.mp turned
  have taken : Queueing insns.length count [position] [] before { before with queue } :=
    .taken popped
  have visited :
      Queues insns.length count { before with queue }
        (visit context (.ofInsns insns) handlers { before with queue } position) :=
    queues_of_visit position _ (taken.sized sized)
  obtain ⟨queued, queueing⟩ := visited
  exact ⟨position, queued, taken.trans queueing⟩

/-- In some turns as many positions leave the queue, and others are queued for a cause only. -/
theorem exists_queueing_of_turns
    {turns : Nat}
    {before after : DepthProgress}
    (sized : before.Sized insns.length count)
    (turned : Turns context (.ofInsns insns) handlers turns before after) :
    ∃ taken queued,
      Queueing insns.length count taken queued before after ∧ taken.length = turns := by
  induction turned with
  | none => exact ⟨[], [], .noted rfl rfl, rfl⟩
  | next first _ inductionHypothesis =>
      obtain ⟨position, queued, earlier⟩ := exists_queueing_of_turn sized first
      obtain ⟨taken, laterQueued, later, length⟩ := inductionHypothesis (earlier.sized sized)
      exact ⟨[position] ++ taken, _, earlier.trans later, by simp [length]⟩

/-- A check takes all the turns that it is given unless nothing waits before. -/
theorem exists_turns_run
    (context : DepthContext)
    (code : LocatedCode)
    (handlers : List HandlerEntry)
    (steps : Nat)
    (progress : DepthProgress) :
    ∃ turns,
      Turns context code handlers turns progress (run context code handlers steps progress) ∧
        (turns = steps ∨ (run context code handlers steps progress).queue.toList = []) := by
  induction steps generalizing progress with
  | zero => exact ⟨0, .none, .inl rfl⟩
  | succ steps inductionHypothesis =>
      unfold run
      split
      · rename_i empty
        exact ⟨0, .none, .inr (Queue.pop?_eq_none_iff.mp empty)⟩
      · rename_i position queue popped
        obtain ⟨turns, others, ends⟩ :=
          inductionHypothesis (visit context code handlers { progress with queue } position)
        refine ⟨turns + 1, .next ?_ others, ends.imp_left (congrArg (· + 1))⟩
        rw [turn?, popped, Option.map_some]

/-- A check that is given as many steps as positions remain ends with an empty queue. -/
theorem queue_run
    {steps : Nat}
    {progress : DepthProgress}
    (sized : progress.Sized insns.length count)
    (enough : progress.remaining count ≤ steps) :
    (run context (.ofInsns insns) handlers steps progress).queue.toList = [] := by
  obtain ⟨turns, turned, all | empty⟩ :=
    exists_turns_run context (.ofInsns insns) handlers steps progress
  · obtain ⟨taken, queued, queueing, length⟩ := exists_queueing_of_turns sized turned
    have fewer := queueing.length_add_remaining_le sized
    unfold remaining at fewer enough
    exact List.length_eq_zero_iff.mp (by omega)
  · exact empty

end Turns

/-! ## The whole check -/

section Whole

variable {insns : List (Nat × Insn)} {count : Nat}

/-- A check that has not begun. -/
def blank (insns : List (Nat × Insn)) : DepthProgress :=
  ⟨(insns.map fun _ => (none : Option DepthState)).toArray, .ofList [], ∅, []⟩

theorem sized_blank : (blank insns).Sized insns.length count := by
  refine ⟨by simp [blank], fun position state found => ?_⟩
  rw [blank, getD_toArray_const] at found
  cases found

@[simp] theorem remaining_blank :
    (blank insns).remaining count = insns.length * (count + 1) := by
  simp [remaining, blank, capacity]

/-- A check begins with the first position, which has no state yet. -/
theorem queueing_start
    {entry : DepthState}
    (findings : List Finding)
    (nonempty : insns ≠ [])
    (length : entry.assigned.length = count) :
    Queueing insns.length count [] [0] (blank insns) (start insns entry findings) := by
  have noted :
      Queueing insns.length count [] [] (blank insns) ((blank insns).reportAll 0 findings) :=
    .noted (states_reportAll _ _ _) (queue_reportAll _ _ _)
  refine noted.trans (.queued (List.length_pos_of_ne_nil nonempty) length ?_)
  rw [states_reportAll, blank, getD_toArray_const]
  exact .first

theorem sized_start
    {entry : DepthState}
    (findings : List Finding)
    (nonempty : insns ≠ [])
    (length : entry.assigned.length = count) :
    (start insns entry findings).Sized insns.length count :=
  (queueing_start findings nonempty length).sized sized_blank

/-- How far the check of a body has come before its first turn. -/
def begun
    (isStatic : Bool)
    (type : MethodType)
    (body : CodeAttribute Attribute)
    (insns : List (Nat × Insn)) : DepthProgress :=
  start insns (DepthState.onEntry type isStatic body.maxLocals).1
    (DepthState.onEntry type isStatic body.maxLocals).2

/-- How far the check of a body has come when it ends. -/
def solved
    (pool : Pool)
    (isStatic : Bool)
    (type : MethodType)
    (body : CodeAttribute Attribute)
    (insns : List (Nat × Insn)) : DepthProgress :=
  (start insns (DepthState.onEntry type isStatic body.maxLocals).1
      (DepthState.onEntry type isStatic body.maxLocals).2).run
    ⟨pool, body.maxStack, type.result⟩ (.ofInsns insns) body.handlers
    (stepBound insns body.maxLocals)

/-- What a check reports, it has noted by its end, or it misses a frame. -/
theorem checkInsns_eq
    (pool : Pool)
    (isStatic : Bool)
    (type : MethodType)
    (body : CodeAttribute Attribute)
    (framed : Bool)
    (insns : List (Nat × Insn)) :
    Verify.checkInsns pool isStatic type body framed insns =
      (if framed then
        (solved pool isStatic type body insns).reportMissing (.ofInsns insns)
          (Verify.declaredOffsets body)
      else
        solved pool isStatic type body insns).reports :=
  rfl

/-- The limit of a check is not what ends it. -/
theorem queue_solved
    (pool : Pool)
    (isStatic : Bool)
    (type : MethodType)
    (body : CodeAttribute Attribute)
    (nonempty : insns ≠ []) :
    (solved pool isStatic type body insns).queue.toList = [] := by
  have length := DepthState.length_onEntry type isStatic body.maxLocals
  have fewer :=
    (queueing_start (DepthState.onEntry type isStatic body.maxLocals).2 nonempty
      length).length_add_remaining_le sized_blank
  refine queue_run (sized_start _ nonempty length) ?_
  rw [remaining_blank, List.length_nil, Nat.zero_add] at fewer
  exact fewer

/--
At any point that the loop of a check comes to, each position was queued for a cause and
at most once more than there are local variables, and as many have left the queue as
there were turns.  So no more turns follow one another than there are positions, each
counted so often, and after some turns nothing waits: then the check is solved.  A body
without instructions never comes to the loop.
-/
theorem ends_of_turns
    (pool : Pool)
    (isStatic : Bool)
    (type : MethodType)
    (body : CodeAttribute Attribute)
    (nonempty : insns ≠ []) :
    (∀ turns progress,
      Turns ⟨pool, body.maxStack, type.result⟩ (.ofInsns insns) body.handlers turns
          (begun isStatic type body insns) progress →
        ∃ taken queued,
          Queueing insns.length body.maxLocals.toNat taken queued (blank insns) progress ∧
            taken.length = turns ∧
              queued = taken ++ progress.queue.toList ∧
                (∀ position, queued.count position ≤ body.maxLocals.toNat + 1) ∧
                  queued.length ≤ insns.length * (body.maxLocals.toNat + 1)) ∧
      ∃ turns,
        Turns ⟨pool, body.maxStack, type.result⟩ (.ofInsns insns) body.handlers turns
            (begun isStatic type body insns) (solved pool isStatic type body insns) ∧
          (solved pool isStatic type body insns).queue.toList = [] := by
  have length := DepthState.length_onEntry type isStatic body.maxLocals
  constructor
  · intro turns progress turned
    obtain ⟨taken, queued, later, turnsTaken⟩ :=
      exists_queueing_of_turns (sized_start _ nonempty length) turned
    have whole := (queueing_start _ nonempty length).trans later
    have inOrder : [0] ++ queued = taken ++ progress.queue.toList := by
      simpa [blank] using whole.order
    refine ⟨taken, [0] ++ queued, whole, turnsTaken, inOrder, fun position => ?_, ?_⟩
    · have bound := whole.count_add_capacity_le sized_blank position
      rw [blank, getD_toArray_const] at bound
      simp only [capacity] at bound
      omega
    · have bound := whole.length_add_remaining_le sized_blank
      rw [remaining_blank, List.nil_append] at bound
      rw [inOrder, List.length_append]
      unfold remaining at bound
      omega
  · obtain ⟨turns, turned, _⟩ :=
      exists_turns_run ⟨pool, body.maxStack, type.result⟩ (.ofInsns insns) body.handlers
        (stepBound insns body.maxLocals) (begun isStatic type body insns)
    exact ⟨turns, turned, queue_solved pool isStatic type body nonempty⟩

/-- A body that leaves one value more on the stack each time it comes back to its start. -/
def piling : CodeAttribute Attribute where
  maxStack := 1
  maxLocals := 0
  code := [0x03, 0xa7, 0xff, 0xff]
  handlers := []
  attributes := []

/-- The depths at the start of the loop never agree, and after two turns nothing waits. -/
theorem ends_of_piling :
    Insn.decode piling.code = .ok [(0, .plain 0x03), (1, .jump 0xa7 0)] ∧
      Verify.checkInsns .empty true ⟨[], none⟩ piling false
          [(0, .plain 0x03), (1, .jump 0xa7 0)] =
        [(0, .stackHeightMismatch 0 1 1)] ∧
      ∃ turns ≤ 2,
        Turns ⟨.empty, 1, none⟩ (.ofInsns [(0, .plain 0x03), (1, .jump 0xa7 0)]) [] turns
            (begun true ⟨[], none⟩ piling [(0, .plain 0x03), (1, .jump 0xa7 0)])
            (solved .empty true ⟨[], none⟩ piling [(0, .plain 0x03), (1, .jump 0xa7 0)]) ∧
          (solved .empty true ⟨[], none⟩ piling
            [(0, .plain 0x03), (1, .jump 0xa7 0)]).queue.toList = [] := by
  obtain ⟨bounded, turns, turned, empty⟩ :=
    ends_of_turns .empty true ⟨[], none⟩ piling
      (List.cons_ne_nil (0, .plain 0x03) [(1, .jump 0xa7 0)])
  obtain ⟨taken, queued, _, rfl, order, _, length⟩ := bounded _ _ turned
  rw [order, List.length_append] at length
  exact
    ⟨rfl, by decide +kernel, taken.length, Nat.le_trans (Nat.le_add_right ..) length, turned, empty⟩

end Whole

end DepthProgress
end JvmClass
