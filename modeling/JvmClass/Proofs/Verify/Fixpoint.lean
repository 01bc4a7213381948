import JvmClass.Proofs.Verify.Queued

namespace JvmClass

/-!
# The depth check reaches a fixed point

A check ends with an empty queue.  If it found nothing wrong, every state was then
stepped through as it is, and everything it leads to promises no more than it gives.
-/

/-- A range covers the offsets from its start up to its stop. -/
theorem HandlerEntry.covers_ofNat_iff
    {entry : HandlerEntry}
    {offset : Nat}
    (small : offset < 2 ^ 16) :
    entry.covers (UInt16.ofNat offset) = true ↔
      entry.start.toNat ≤ offset ∧ offset < entry.stop.toNat := by
  simp only [covers, Bool.and_eq_true, decide_eq_true_eq, UInt16.le_iff_toNat_le,
    UInt16.lt_iff_toNat_lt, UInt16.toNat_ofNat_of_lt' small]

namespace DepthProgress

section Flow

variable {context : DepthContext} {insns : List (Nat × Insn)} {handlers : List HandlerEntry}
  {count : Nat}

/-! ## Reports stay -/

theorem reports_suffix_report
    (progress : DepthProgress)
    (offset : UInt16)
    (finding : Finding) :
    progress.reports <:+ (progress.report offset finding).reports := by
  unfold report
  split
  · exact List.suffix_rfl
  · exact List.suffix_cons _ _

theorem reports_report_ne_nil
    (progress : DepthProgress)
    (offset : UInt16)
    (finding : Finding) :
    (progress.report offset finding).reports ≠ [] := by
  unfold report
  split
  · rename_i known
    intro quiet
    simp [quiet] at known
  · exact List.cons_ne_nil _ _

theorem reports_suffix_foldl
    {α : Type}
    {step : DepthProgress → α → DepthProgress}
    (keeps : ∀ progress item, progress.reports <:+ (step progress item).reports)
    (items : List α)
    (progress : DepthProgress) :
    progress.reports <:+ (items.foldl step progress).reports := by
  induction items generalizing progress with
  | nil => exact List.suffix_rfl
  | cons item items inductionHypothesis =>
      exact (keeps progress item).trans (inductionHypothesis _)

theorem reports_suffix_reportAll
    (progress : DepthProgress)
    (offset : UInt16)
    (findings : List Finding) :
    progress.reports <:+ (progress.reportAll offset findings).reports :=
  reports_suffix_foldl (fun progress finding => reports_suffix_report progress offset finding) ..

/-- Where nothing is reported there was nothing to report. -/
theorem findings_eq_nil_of_reportAll
    {progress : DepthProgress}
    {offset : UInt16}
    {findings : List Finding}
    (quiet : (progress.reportAll offset findings).reports = []) :
    findings = [] := by
  cases findings with
  | nil => rfl
  | cons finding findings =>
      have kept := reports_suffix_reportAll (progress.report offset finding) offset findings
      rw [show (progress.report offset finding).reportAll offset findings =
        progress.reportAll offset (finding :: findings) from rfl, quiet] at kept
      exact absurd (List.suffix_nil.mp kept) (reports_report_ne_nil _ _ _)

theorem reports_suffix_flowTo
    (code : LocatedCode)
    (source : UInt16)
    (incoming : DepthState)
    (progress : DepthProgress)
    (target : UInt16) :
    progress.reports <:+ (flowTo code source incoming progress target).reports := by
  unfold flowTo
  split
  · exact reports_suffix_report ..
  · split
    · exact List.suffix_rfl
    · extract_lets noted met
      have kept : progress.reports <:+ noted.reports := by
        unfold noted
        split
        · exact List.suffix_rfl
        · exact reports_suffix_report ..
      split
      · exact kept
      · exact kept

theorem reports_suffix_jumps
    (code : LocatedCode)
    (source : UInt16)
    (incoming : DepthState)
    (targets : List UInt16)
    (progress : DepthProgress) :
    progress.reports <:+ (targets.foldl (jumpTo code source incoming) progress).reports :=
  reports_suffix_foldl
    (fun progress target => reports_suffix_flowTo code source incoming (progress.need target) target)
    targets progress

theorem reports_suffix_fallThrough
    (code : LocatedCode)
    (source : UInt16)
    (position : Nat)
    (insn : Insn)
    (incoming : DepthState)
    (progress : DepthProgress) :
    progress.reports <:+ (fallThrough code source position insn incoming progress).reports := by
  unfold fallThrough
  split
  · exact List.suffix_rfl
  · exact List.suffix_rfl
  · exact reports_suffix_flowTo ..
  · exact reports_suffix_report ..

theorem reports_suffix_visit
    (code : LocatedCode)
    (progress : DepthProgress)
    (position : Nat) :
    progress.reports <:+ (visit context code handlers progress position).reports := by
  unfold visit
  split
  · exact ((reports_suffix_jumps ..).trans (reports_suffix_reportAll ..)).trans
      ((reports_suffix_jumps ..).trans (reports_suffix_fallThrough ..))
  · exact List.suffix_rfl

theorem reports_suffix_run
    (code : LocatedCode)
    (steps : Nat)
    (progress : DepthProgress) :
    progress.reports <:+ (run context code handlers steps progress).reports := by
  induction steps generalizing progress with
  | zero => exact List.suffix_rfl
  | succ steps inductionHypothesis =>
      unfold run
      split
      · exact List.suffix_rfl
      · rename_i position queue _
        exact (reports_suffix_visit code { progress with queue } position).trans
          (inductionHypothesis _)

/-! ## Settled positions -/

/-- An offset leads to an instruction whose state promises no more than a state. -/
def Leads
    (code : LocatedCode)
    (states : Array (Option DepthState))
    (offset : UInt16)
    (incoming : DepthState) : Prop :=
  ∃ position held,
    code.positions[offset]? = some position ∧
      states.getD position none = some held ∧
        incoming.Weakens held

/-- Every state was kept or promises less. -/
def Weakened
    (before after : Array (Option DepthState)) : Prop :=
  ∀ position old,
    before.getD position none = some old →
      ∃ new, after.getD position none = some new ∧ old.Weakens new

/--
There is nothing wrong with the instruction at a position in a state, and
everything it leads to promises no more than it gives.
-/
def Settled
    (context : DepthContext)
    (code : LocatedCode)
    (handlers : List HandlerEntry)
    (states : Array (Option DepthState))
    (position : Nat)
    (before : DepthState) : Prop :=
  ∃ offset insn,
    code.insns[position]? = some (offset, insn) ∧
      (before.step context insn).2 = [] ∧
      (∀ entry ∈ handlers,
        entry.covers offset = true → Leads code states entry.handler ⟨1, before.assigned⟩) ∧
      (∀ target ∈ insn.targets,
        Leads code states (UInt16.ofNat target) (before.step context insn).1) ∧
      (insn.opcode.endsFlow = false →
        ∃ next,
          code.offsetAfter? position = some next ∧
            Leads code states next (before.step context insn).1)

/-- What holds all along a check, while one position may be stepped through. -/
structure Sound
    (context : DepthContext)
    (insns : List (Nat × Insn))
    (handlers : List HandlerEntry)
    (count : Nat)
    (current : Option (Nat × DepthState))
    (progress : DepthProgress) : Prop where
  sized : progress.Sized insns.length count
  pending :
    ∀ position held,
      progress.states.getD position none = some held →
        position ∈ progress.queue.toList ∨
          Settled context (.ofInsns insns) handlers progress.states position held ∨
            current = some (position, held)

theorem Weakened.refl
    (states : Array (Option DepthState)) :
    Weakened states states :=
  fun _ old held => ⟨old, held, .refl old⟩

theorem Weakened.trans
    {first second third : Array (Option DepthState)}
    (earlier : Weakened first second)
    (later : Weakened second third) :
    Weakened first third := by
  intro position old held
  obtain ⟨middle, middleHeld, middleWeaker⟩ := earlier position old held
  obtain ⟨new, newHeld, newWeaker⟩ := later position middle middleHeld
  exact ⟨new, newHeld, middleWeaker.trans newWeaker⟩

/-- What an offset led to it still leads to. -/
theorem Leads.weakened
    {code : LocatedCode}
    {before after : Array (Option DepthState)}
    {offset : UInt16}
    {incoming : DepthState}
    (leads : Leads code before offset incoming)
    (weakened : Weakened before after) :
    Leads code after offset incoming := by
  obtain ⟨position, held, means, heldAt, weaker⟩ := leads
  obtain ⟨new, newHeld, newWeaker⟩ := weakened position held heldAt
  exact ⟨position, new, means, newHeld, weaker.trans newWeaker⟩

/-- A settled position stays settled. -/
theorem Settled.weakened
    {code : LocatedCode}
    {before after : Array (Option DepthState)}
    {position : Nat}
    {state : DepthState}
    (settled : Settled context code handlers before position state)
    (weakened : Weakened before after) :
    Settled context code handlers after position state := by
  obtain ⟨offset, insn, located, clean, caught, targets, falls⟩ := settled
  refine ⟨offset, insn, located, clean, fun entry member covers => ?_, fun target member => ?_,
    fun continues => ?_⟩
  · exact (caught entry member covers).weakened weakened
  · exact (targets target member).weakened weakened
  · obtain ⟨next, behind, leads⟩ := falls continues
    exact ⟨next, behind, leads.weakened weakened⟩

/-! ## One visit -/

/-- What a part of a visit has established. -/
structure Reached
    (context : DepthContext)
    (insns : List (Nat × Insn))
    (handlers : List HandlerEntry)
    (count : Nat)
    (current : Option (Nat × DepthState))
    (before after : DepthProgress) : Prop where
  sound : after.Sound context insns handlers count current
  weakened : Weakened before.states after.states

theorem Reached.trans
    {current : Option (Nat × DepthState)}
    {first second third : DepthProgress}
    (earlier : Reached context insns handlers count current first second)
    (later : Reached context insns handlers count current second third) :
    Reached context insns handlers count current first third :=
  ⟨later.sound, earlier.weakened.trans later.weakened⟩

/-- Noting something unsettles nothing. -/
theorem reached_of_eq
    {current : Option (Nat × DepthState)}
    {before after : DepthProgress}
    (sound : before.Sound context insns handlers count current)
    (states : after.states = before.states)
    (queue : after.queue = before.queue) :
    Reached context insns handlers count current before after := by
  refine ⟨⟨(Queueing.noted states queue).sized sound.sized, ?_⟩, ?_⟩
  · rw [states, queue]
    exact sound.pending
  · rw [states]
    exact .refl _

/-- A position that gets a weaker state waits, and the others stay as they are. -/
theorem reached_of_revise
    {current : Option (Nat × DepthState)}
    {progress : DepthProgress}
    {position : Nat}
    {state : DepthState}
    (sound : progress.Sound context insns handlers count current)
    (inside : position < insns.length)
    (length : state.assigned.length = count)
    (weaker :
      ∀ old, progress.states.getD position none = some old → old.Weakens state) :
    Reached context insns handlers count current progress (progress.revise position state) := by
  have inBounds : position < progress.states.size := sound.sized.size ▸ inside
  have weakened :
      Weakened progress.states (progress.states.setIfInBounds position (some state)) := by
    intro other old held
    rw [getD_setIfInBounds]
    by_cases same : position = other
    · subst same
      exact ⟨state, by simp [inBounds], weaker old held⟩
    · exact ⟨old, by simpa [same] using held, .refl old⟩
  refine ⟨⟨⟨by simp [revise, sound.sized.size], ?_⟩, ?_⟩, weakened⟩
  · intro other held found
    simp only [revise, getD_setIfInBounds] at found
    split at found
    · cases found
      exact length
    · exact sound.sized.length other held found
  · intro other held found
    simp only [revise, getD_setIfInBounds, Queue.toList_push, List.mem_append,
      List.mem_singleton] at found ⊢
    split at found
    · rename_i same
      exact .inl (.inr same.1.symm)
    · rcases sound.pending other held found with queued | settled | isCurrent
      · exact .inl (.inl queued)
      · exact .inr (.inl (settled.weakened weakened))
      · exact .inr (.inr isCurrent)

theorem leads_of_revise
    {progress : DepthProgress}
    {target : UInt16}
    {position : Nat}
    {incoming state : DepthState}
    (means : (LocatedCode.ofInsns insns).positions[target]? = some position)
    (inBounds : position < progress.states.size)
    (weaker : incoming.Weakens state) :
    Leads (.ofInsns insns) (progress.revise position state).states target incoming :=
  ⟨position, state, means, by simp [revise, inBounds], weaker⟩

/-- Unless something is reported, a target ends up with a state that covers what reaches it. -/
theorem reached_of_flowTo
    {current : Option (Nat × DepthState)}
    {progress : DepthProgress}
    {source target : UInt16}
    {incoming : DepthState}
    (sound : progress.Sound context insns handlers count current)
    (length : incoming.assigned.length = count)
    (quiet : (flowTo (.ofInsns insns) source incoming progress target).reports = []) :
    Reached context insns handlers count current progress
        (flowTo (.ofInsns insns) source incoming progress target) ∧
      Leads (.ofInsns insns) (flowTo (.ofInsns insns) source incoming progress target).states
        target incoming := by
  unfold flowTo at quiet ⊢
  split at quiet
  · exact absurd quiet (reports_report_ne_nil _ _ _)
  · rename_i position means
    have inside := LocatedCode.lt_of_positions means
    have inBounds : position < progress.states.size := sound.sized.size ▸ inside
    split at quiet
    · rename_i missing
      exact ⟨reached_of_revise sound inside length (by simp [missing]),
        leads_of_revise means inBounds (.refl _)⟩
    · rename_i existing held
      have sameLength : existing.assigned.length = incoming.assigned.length :=
        (sound.sized.length position existing held).trans length.symm
      by_cases sameDepth : existing.depth = incoming.depth
      · simp only [sameDepth, if_true]
        have weaker := DepthState.weakens_meet_right sameDepth sameLength
        split
        · rename_i kept
          exact ⟨reached_of_eq sound rfl rfl, position, existing, means, held, kept ▸ weaker⟩
        · refine ⟨reached_of_revise sound inside ?_ ?_, leads_of_revise means inBounds weaker⟩
          · rw [← length]
            exact weaker.count
          · intro old oldHeld
            rw [held] at oldHeld
            cases oldHeld
            exact DepthState.weakens_meet_left sameLength
      · simp only [sameDepth, if_false] at quiet
        split at quiet
        · exact absurd quiet (reports_report_ne_nil _ _ _)
        · exact absurd quiet (reports_report_ne_nil _ _ _)

/-- Unless something is reported, all targets end up with states that cover what reaches them. -/
theorem reached_of_jumps
    {current : Option (Nat × DepthState)}
    {progress : DepthProgress}
    {source : UInt16}
    {incoming : DepthState}
    {targets : List UInt16}
    (sound : progress.Sound context insns handlers count current)
    (length : incoming.assigned.length = count)
    (quiet : (targets.foldl (jumpTo (.ofInsns insns) source incoming) progress).reports = []) :
    Reached context insns handlers count current progress
        (targets.foldl (jumpTo (.ofInsns insns) source incoming) progress) ∧
      ∀ target ∈ targets,
        Leads (.ofInsns insns)
          (targets.foldl (jumpTo (.ofInsns insns) source incoming) progress).states
          target incoming := by
  induction targets generalizing progress with
  | nil => exact ⟨reached_of_eq sound rfl rfl, by simp⟩
  | cons target targets inductionHypothesis =>
      have noted :
          Reached context insns handlers count current progress (progress.need target) :=
        reached_of_eq sound rfl rfl
      have firstQuiet : (jumpTo (.ofInsns insns) source incoming progress target).reports = [] := by
        have kept :=
          reports_suffix_jumps (.ofInsns insns) source incoming targets
            (jumpTo (.ofInsns insns) source incoming progress target)
        rw [List.foldl_cons] at quiet
        exact List.suffix_nil.mp (quiet ▸ kept)
      obtain ⟨first, firstLeads⟩ := reached_of_flowTo noted.sound length firstQuiet
      obtain ⟨others, othersLead⟩ := inductionHypothesis first.sound quiet
      refine ⟨(noted.trans first).trans others, fun other member => ?_⟩
      rcases List.mem_cons.mp member with rfl | member
      · exact firstLeads.weakened others.weakened
      · exact othersLead other member

/-- Unless something is reported, an instruction that continues leads to the next one. -/
theorem reached_of_fallThrough
    {current : Option (Nat × DepthState)}
    {progress : DepthProgress}
    {source : UInt16}
    {position : Nat}
    {insn : Insn}
    {incoming : DepthState}
    (sound : progress.Sound context insns handlers count current)
    (length : incoming.assigned.length = count)
    (quiet :
      (fallThrough (.ofInsns insns) source position insn incoming progress).reports = []) :
    Reached context insns handlers count current progress
        (fallThrough (.ofInsns insns) source position insn incoming progress) ∧
      (insn.opcode.endsFlow = false →
        ∃ next,
          (LocatedCode.ofInsns insns).offsetAfter? position = some next ∧
            Leads (.ofInsns insns)
              (fallThrough (.ofInsns insns) source position insn incoming progress).states
              next incoming) := by
  unfold fallThrough at quiet ⊢
  cases ends : insn.opcode.endsFlow with
  | true =>
      cases (LocatedCode.ofInsns insns).offsetAfter? position with
      | none => exact ⟨reached_of_eq sound rfl rfl, by simp⟩
      | some next => exact ⟨reached_of_eq sound rfl rfl, by simp⟩
  | false =>
      cases behind : (LocatedCode.ofInsns insns).offsetAfter? position with
      | none =>
          simp only [ends, behind] at quiet
          exact absurd quiet (reports_report_ne_nil _ _ _)
      | some next =>
          simp only [ends, behind] at quiet
          obtain ⟨reached, leads⟩ := reached_of_flowTo sound length quiet
          exact ⟨reached, fun _ => ⟨next, rfl, leads⟩⟩

/-- Unless something is reported, a position that was stepped through is settled. -/
theorem reached_of_visit
    {progress : DepthProgress}
    {position : Nat}
    {before : DepthState}
    (sound : progress.Sound context insns handlers count (some (position, before)))
    (held : progress.states.getD position none = some before)
    (quiet : (visit context (.ofInsns insns) handlers progress position).reports = []) :
    Reached context insns handlers count none progress
      (visit context (.ofInsns insns) handlers progress position) := by
  have inside : position < insns.length := by
    rw [← sound.sized.size]
    by_contra outside
    simp [outside] at held
  obtain ⟨⟨offset, insn⟩, located⟩ :
      ∃ placed, (LocatedCode.ofInsns insns).insns[position]? = some placed :=
    ⟨_, Array.getElem?_eq_getElem (by simpa using inside)⟩
  unfold visit at quiet ⊢
  simp only [located, held] at quiet ⊢
  generalize caughtEq :
    ((handlers.filter (·.covers offset)).map HandlerEntry.handler).foldl
      (jumpTo (.ofInsns insns) offset ⟨1, before.assigned⟩) progress = afterCaught at quiet ⊢
  generalize notedEq : afterCaught.reportAll offset (before.step context insn).2 = noted at quiet ⊢
  generalize jumpedEq :
    (insn.targets.map UInt16.ofNat).foldl
      (jumpTo (.ofInsns insns) offset (before.step context insn).1) noted = jumped at quiet ⊢
  -- Nothing is reported in the end, so nothing was reported on the way.
  have jumpedQuiet : jumped.reports = [] :=
    List.suffix_nil.mp (quiet ▸ reports_suffix_fallThrough ..)
  have notedQuiet : noted.reports = [] :=
    List.suffix_nil.mp (jumpedQuiet ▸ jumpedEq ▸ reports_suffix_jumps ..)
  have caughtQuiet : afterCaught.reports = [] :=
    List.suffix_nil.mp (notedQuiet ▸ notedEq ▸ reports_suffix_reportAll ..)
  have length : before.assigned.length = count := sound.sized.length position before held
  have caughtLength : (⟨1, before.assigned⟩ : DepthState).assigned.length = count := length
  obtain ⟨first, firstLeads⟩ := reached_of_jumps sound caughtLength (caughtEq ▸ caughtQuiet)
  rw [caughtEq] at first firstLeads
  have clean : (before.step context insn).2 = [] :=
    findings_eq_nil_of_reportAll (notedEq ▸ notedQuiet)
  have second : Reached context insns handlers count (some (position, before)) afterCaught noted :=
    notedEq ▸ reached_of_eq first.sound (by simp) (by simp)
  have behindLength : (before.step context insn).1.assigned.length = count := by
    simpa using length
  obtain ⟨third, thirdLeads⟩ :=
    reached_of_jumps second.sound behindLength (jumpedEq ▸ jumpedQuiet)
  rw [jumpedEq] at third thirdLeads
  obtain ⟨fourth, fourthLeads⟩ := reached_of_fallThrough third.sound behindLength quiet
  refine ⟨⟨fourth.sound.sized, fun other state found => ?_⟩,
    ((first.weakened.trans second.weakened).trans third.weakened).trans fourth.weakened⟩
  rcases fourth.sound.pending other state found with queued | settled | isCurrent
  · exact .inl queued
  · exact .inr (.inl settled)
  · cases isCurrent
    refine .inr (.inl ⟨offset, insn, located, clean, fun entry member covers => ?_,
      fun target member => ?_, fourthLeads⟩)
    · refine (firstLeads entry.handler ?_).weakened
        ((second.weakened.trans third.weakened).trans fourth.weakened)
      exact List.mem_map_of_mem (List.mem_filter.mpr ⟨member, covers⟩)
    · exact (thirdLeads _ (List.mem_map_of_mem member)).weakened fourth.weakened

/-- A position that leaves the queue is the one that is stepped through. -/
theorem sound_of_pop
    {progress : DepthProgress}
    {position : Nat}
    {queue : Queue Nat}
    (sound : progress.Sound context insns handlers count none)
    (popped : progress.queue.pop? = some (position, queue)) :
    Sound context insns handlers count
      ((progress.states.getD position none).map fun state => (position, state))
      { progress with queue } := by
  refine ⟨⟨sound.sized.size, sound.sized.length⟩, fun other held found => ?_⟩
  rcases sound.pending other held found with queued | settled | isCurrent
  · rw [Queue.pop?_eq_some popped] at queued
    rcases List.mem_cons.mp queued with rfl | queued
    · have heldAt : progress.states.getD other none = some held := found
      exact .inr (.inr (by rw [heldAt, Option.map_some]))
    · exact .inl queued
  · exact .inr (.inl settled)
  · cases isCurrent

/-- Unless something is reported, a check keeps its invariant. -/
theorem reached_of_run
    {steps : Nat}
    {progress : DepthProgress}
    (sound : progress.Sound context insns handlers count none)
    (quiet : (run context (.ofInsns insns) handlers steps progress).reports = []) :
    Reached context insns handlers count none progress
      (run context (.ofInsns insns) handlers steps progress) := by
  induction steps generalizing progress with
  | zero => exact ⟨sound, .refl _⟩
  | succ steps inductionHypothesis =>
      unfold run at quiet ⊢
      split at quiet
      · exact ⟨sound, .refl _⟩
      · rename_i position queue popped
        have visitQuiet :
            (visit context (.ofInsns insns) handlers { progress with queue } position).reports =
              [] :=
          List.suffix_nil.mp (quiet ▸ reports_suffix_run ..)
        have waiting := sound_of_pop sound popped
        have visited :
            Reached context insns handlers count none { progress with queue }
              (visit context (.ofInsns insns) handlers { progress with queue } position) := by
          cases held : progress.states.getD position none with
          | none =>
              have kept :
                  visit context (.ofInsns insns) handlers { progress with queue } position =
                    { progress with queue } := by
                simp [visit, held]
              rw [kept]
              rw [held] at waiting
              exact ⟨waiting, .refl _⟩
          | some before =>
              rw [held] at waiting
              exact reached_of_visit waiting held visitQuiet
        have rest := inductionHypothesis visited.sound quiet
        exact ⟨rest.sound, visited.weakened.trans rest.weakened⟩

end Flow

/-! ## The fixed point -/

/--
States that no path contradicts: the entry promises no less than the first of
them, and every one is settled.
-/
structure Fixpoint
    (context : DepthContext)
    (insns : List (Nat × Insn))
    (handlers : List HandlerEntry)
    (entry : DepthState)
    (states : Array (Option DepthState)) : Prop where
  first : ∃ held, states.getD 0 none = some held ∧ entry.Weakens held
  settled :
    ∀ position held,
      states.getD position none = some held →
        Settled context (.ofInsns insns) handlers states position held

/-- A check of a body that finds nothing wrong ends in a fixed point. -/
theorem fixpoint_of_checkInsns
    {pool : Pool}
    {isStatic : Bool}
    {type : MethodType}
    {body : CodeAttribute Attribute}
    {framed : Bool}
    {insns : List (Nat × Insn)}
    (nonempty : insns ≠ [])
    (clean : Verify.checkInsns pool isStatic type body framed insns = []) :
    type.argumentSize isStatic ≤ body.maxLocals.toNat ∧
      Fixpoint ⟨pool, body.maxStack, type.result⟩ insns body.handlers
        (DepthState.onEntry type isStatic body.maxLocals).1
        (solved pool isStatic type body insns).states := by
  rw [checkInsns_eq] at clean
  have quiet : (solved pool isStatic type body insns).reports = [] := by
    split at clean
    · exact List.suffix_nil.mp
        (clean ▸ reports_suffix_foldl
          (fun progress offset => reports_suffix_report progress offset .missingFrame) _ _)
    · exact clean
  have empty := queue_solved pool isStatic type body nonempty
  have length := DepthState.length_onEntry type isStatic body.maxLocals
  unfold solved at quiet empty ⊢
  generalize entered : DepthState.onEntry type isStatic body.maxLocals = entry
    at quiet empty length ⊢
  obtain ⟨entry, findings⟩ := entry
  simp only at quiet empty length ⊢
  generalize solvedEq :
    run ⟨pool, body.maxStack, type.result⟩ (.ofInsns insns) body.handlers
      (stepBound insns body.maxLocals) (start insns entry findings) = solved at quiet empty ⊢
  have startQuiet : (start insns entry findings).reports = [] :=
    List.suffix_nil.mp (quiet ▸ solvedEq ▸ reports_suffix_run ..)
  obtain rfl : findings = [] := findings_eq_nil_of_reportAll startQuiet
  have fits : type.argumentSize isStatic ≤ body.maxLocals.toNat :=
    DepthState.argumentSize_le_of_onEntry (by rw [entered])
  have sized := sized_start [] nonempty length
  have inside : 0 < insns.length := List.length_pos_of_ne_nil nonempty
  have startSound :
      Sound ⟨pool, body.maxStack, type.result⟩ insns body.handlers body.maxLocals.toNat none
        (start insns entry []) := by
    refine ⟨sized, fun position held found => .inl ?_⟩
    simp only [start, reportAll, List.foldl_nil, revise, getD_setIfInBounds] at found ⊢
    split at found
    · rename_i first
      simp [first.1]
    · rw [getD_toArray_const] at found
      cases found
  have reached := solvedEq ▸ reached_of_run startSound (solvedEq.symm ▸ quiet)
  refine ⟨fits, ?_, fun position held found => ?_⟩
  · exact reached.weakened 0 entry (by simp [start, reportAll, revise, inside])
  · rcases reached.sound.pending position held found with queued | settled | isCurrent
    · rw [empty] at queued
      cases queued
    · exact settled
    · cases isCurrent

end DepthProgress
end JvmClass
