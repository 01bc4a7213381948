import JvmClass.Proofs.Verify.Fixpoint

namespace JvmClass.DepthProgress

/-!
# Frames of checked bodies

A check notes where frames are needed while it steps through the instructions
that lead there, and it steps through every instruction that it reaches.  If it
finds nothing wrong, there is a frame wherever one is needed.
-/

/-- The instruction at a position makes an offset need a frame. -/
inductive Needs
    (insns : List (Nat × Insn))
    (handlers : List HandlerEntry)
    (position : Nat) : UInt16 → Prop
  | target
      {offset : UInt16}
      {insn : Insn}
      {target : Nat}
      (located : (LocatedCode.ofInsns insns).insns[position]? = some (offset, insn))
      (member : target ∈ insn.targets) :
      Needs insns handlers position (UInt16.ofNat target)
  | caught
      {offset : UInt16}
      {insn : Insn}
      {entry : HandlerEntry}
      (located : (LocatedCode.ofInsns insns).insns[position]? = some (offset, insn))
      (member : entry ∈ handlers)
      (covers : entry.covers offset = true) :
      Needs insns handlers position entry.handler
  | behind
      {offset next : UInt16}
      {insn : Insn}
      (located : (LocatedCode.ofInsns insns).insns[position]? = some (offset, insn))
      (ends : insn.opcode.endsFlow = true)
      (behind : (LocatedCode.ofInsns insns).offsetAfter? position = some next) :
      Needs insns handlers position next

/-- A state was found for a position. -/
def Reaches
    (progress : DepthProgress)
    (position : Nat) : Prop :=
  (progress.states.getD position none).isSome = true

/-- A part of a check queued all positions that it reached and noted some offsets. -/
structure Spreads
    (noted : UInt16 → Prop)
    (before after : DepthProgress) : Prop where
  reached : ∀ position, before.Reaches position → after.Reaches position
  queued :
    ∀ position, after.Reaches position → before.Reaches position ∨ position ∈ after.queue.toList
  waiting : ∀ position ∈ before.queue.toList, position ∈ after.queue.toList
  needed : ∀ offset, offset ∈ after.needed ↔ offset ∈ before.needed ∨ noted offset

section Spreads

variable {noted others : UInt16 → Prop} {first second third : DepthProgress}

theorem Spreads.trans
    (earlier : Spreads noted first second)
    (later : Spreads others second third) :
    Spreads (fun offset => noted offset ∨ others offset) first third := by
  refine ⟨fun position reached => later.reached position (earlier.reached position reached),
    fun position reached => ?_,
    fun position waits => later.waiting position (earlier.waiting position waits),
    fun offset => ?_⟩
  · rcases later.queued position reached with reached | waits
    · exact (earlier.queued position reached).imp id (later.waiting position)
    · exact .inr waits
  · rw [later.needed, earlier.needed, or_assoc]

theorem Spreads.congr
    (spreads : Spreads noted first second)
    (same : ∀ offset, noted offset ↔ others offset) :
    Spreads others first second :=
  ⟨spreads.reached, spreads.queued, spreads.waiting,
    fun offset => (spreads.needed offset).trans (or_congr_right (same offset))⟩

/-- Noting a finding reaches nothing. -/
theorem spreads_of_eq
    (states : second.states = first.states)
    (queue : second.queue = first.queue)
    (needed : second.needed = first.needed) :
    Spreads (fun _ => False) first second := by
  refine ⟨?_, ?_, ?_, ?_⟩
  · simp [Reaches, states]
  · exact fun position reached => .inl (by simpa [Reaches, states] using reached)
  · simp [queue]
  · simp [needed]

@[simp] theorem needed_report
    (progress : DepthProgress)
    (offset : UInt16)
    (finding : Finding) :
    (progress.report offset finding).needed = progress.needed := by
  unfold report
  split <;> rfl

@[simp] theorem needed_reportAll
    (progress : DepthProgress)
    (offset : UInt16)
    (findings : List Finding) :
    (progress.reportAll offset findings).needed = progress.needed := by
  unfold reportAll
  induction findings generalizing progress with
  | nil => rfl
  | cons finding findings inductionHypothesis => simp [inductionHypothesis]

theorem spreads_report
    (progress : DepthProgress)
    (offset : UInt16)
    (finding : Finding) :
    Spreads (fun _ => False) progress (progress.report offset finding) :=
  spreads_of_eq (states_report ..) (queue_report ..) (needed_report ..)

theorem spreads_need
    (progress : DepthProgress)
    (offset : UInt16) :
    Spreads (· = offset) progress (progress.need offset) := by
  refine ⟨fun _ => id, fun _ => .inl, fun _ => id, fun other => ?_⟩
  simp only [need, Std.TreeSet.mem_insert, Std.LawfulEqCmp.compare_eq_iff_eq]
  exact or_comm.trans (or_congr_right eq_comm)

theorem spreads_revise
    (progress : DepthProgress)
    (position : Nat)
    (state : DepthState) :
    Spreads (fun _ => False) progress (progress.revise position state) := by
  refine ⟨fun other reached => ?_, fun other reached => ?_, fun other waits => ?_, by simp [revise]⟩
  · simp only [Reaches, revise, getD_setIfInBounds]
    split
    · rfl
    · exact reached
  · simp only [Reaches, revise, getD_setIfInBounds] at reached
    split at reached
    · rename_i same
      exact .inr (by simp [revise, same.1])
    · exact .inl reached
  · simp [revise, waits]

/-- Parts that each note an offset note all of them together. -/
theorem spreads_of_foldl
    {step : DepthProgress → UInt16 → DepthProgress}
    (spreads : ∀ progress offset, Spreads (· = offset) progress (step progress offset))
    (offsets : List UInt16)
    (progress : DepthProgress) :
    Spreads (· ∈ offsets) progress (offsets.foldl step progress) := by
  induction offsets generalizing progress with
  | nil => exact (spreads_of_eq rfl rfl rfl).congr (by simp)
  | cons offset offsets inductionHypothesis =>
      exact ((spreads progress offset).trans (inductionHypothesis _)).congr (by simp)

end Spreads

section Visit

variable {context : DepthContext} {insns : List (Nat × Insn)} {handlers : List HandlerEntry}

theorem spreads_flowTo
    (source : UInt16)
    (incoming : DepthState)
    (progress : DepthProgress)
    (target : UInt16) :
    Spreads (fun _ => False) progress (flowTo (.ofInsns insns) source incoming progress target) := by
  unfold flowTo
  split
  · exact spreads_report ..
  · split
    · exact spreads_revise ..
    · extract_lets noted met
      have spreads : Spreads (fun _ => False) progress noted := by
        unfold noted
        split
        · exact spreads_of_eq rfl rfl rfl
        · exact spreads_report ..
      split
      · exact spreads
      · exact (spreads.trans (spreads_revise ..)).congr (by simp)

theorem spreads_jumpTo
    (source : UInt16)
    (incoming : DepthState)
    (progress : DepthProgress)
    (target : UInt16) :
    Spreads (· = target) progress (jumpTo (.ofInsns insns) source incoming progress target) :=
  ((spreads_need progress target).trans (spreads_flowTo ..)).congr (by simp)

theorem spreads_fallThrough
    (source : UInt16)
    (position : Nat)
    (insn : Insn)
    (incoming : DepthState)
    (progress : DepthProgress) :
    Spreads
      (fun next =>
        insn.opcode.endsFlow = true ∧
          (LocatedCode.ofInsns insns).offsetAfter? position = some next)
      progress (fallThrough (.ofInsns insns) source position insn incoming progress) := by
  unfold fallThrough
  split
  · rename_i next ends behind
    exact (spreads_need progress next).congr (by simp [ends, behind, eq_comm])
  · rename_i ends behind
    exact (spreads_of_eq rfl rfl rfl).congr (by simp [behind])
  · rename_i next continues behind
    exact (spreads_flowTo source incoming progress next).congr (by simp [continues])
  · rename_i continues behind
    exact (spreads_report ..).congr (by simp [continues])

/-- Stepping through an instruction notes every offset that it makes need a frame. -/
theorem spreads_visit
    (progress : DepthProgress)
    (position : Nat) :
    Spreads (fun offset => progress.Reaches position ∧ Needs insns handlers position offset)
      progress (visit context (.ofInsns insns) handlers progress position) := by
  unfold visit
  split
  · rename_i offset insn before located held
    extract_lets caught afterCaught
    have jumps incoming targets from_ :=
      spreads_of_foldl (@spreads_jumpTo insns offset incoming) targets from_
    have reported :
        Spreads (fun _ => False) afterCaught
          (afterCaught.reportAll offset (before.step context insn).2) :=
      spreads_of_eq (states_reportAll ..) (queue_reportAll ..) (needed_reportAll ..)
    refine (((jumps _ caught progress).trans (reported.trans (jumps _ _ _))).trans
      (spreads_fallThrough ..)).congr fun other => ?_
    have reached : progress.Reaches position := by simp [Reaches, held]
    simp only [caught, List.mem_map, List.mem_filter, false_or, reached, true_and]
    constructor
    · rintro ((⟨entry, ⟨member, covers⟩, rfl⟩ | ⟨target, member, rfl⟩) | ⟨ends, behind⟩)
      · exact .caught located member covers
      · exact .target located member
      · exact .behind located ends behind
    · intro needs
      cases needs with
      | target found member =>
          cases located.symm.trans found
          exact .inl (.inr ⟨_, member, rfl⟩)
      | caught found member covers =>
          cases located.symm.trans found
          exact .inl (.inl ⟨_, ⟨member, covers⟩, rfl⟩)
      | behind found ends behind =>
          cases located.symm.trans found
          exact .inr ⟨ends, behind⟩
  · rename_i unknown
    refine (spreads_of_eq rfl rfl rfl).congr fun other => ?_
    simp only [false_iff, not_and]
    intro reached needs
    obtain ⟨before, held⟩ := Option.isSome_iff_exists.mp reached
    cases needs with
    | target located _ | caught located _ _ | behind located _ _ =>
        exact unknown _ _ _ located held

/-- Of the positions reached, those that do not wait have had their needs noted, and no others. -/
structure Noted
    (insns : List (Nat × Insn))
    (handlers : List HandlerEntry)
    (progress : DepthProgress) : Prop where
  noted :
    ∀ position,
      progress.Reaches position →
        position ∈ progress.queue.toList ∨
          ∀ offset, Needs insns handlers position offset → offset ∈ progress.needed
  needed :
    ∀ offset ∈ progress.needed,
      ∃ position, progress.Reaches position ∧ Needs insns handlers position offset

/-- Stepping through the position that leaves the queue keeps what is noted. -/
theorem noted_of_visit
    {progress : DepthProgress}
    {position : Nat}
    {queue : Queue Nat}
    (noted : progress.Noted insns handlers)
    (popped : progress.queue.pop? = some (position, queue)) :
    (visit context (.ofInsns insns) handlers { progress with queue } position).Noted insns
      handlers := by
  have spreads :=
    @spreads_visit context insns handlers { progress with queue } position
  refine ⟨fun other reached => ?_, fun offset needed => ?_⟩
  · rcases spreads.queued other reached with before | waits
    · rcases noted.noted other before with waits | known
      · rw [Queue.pop?_eq_some popped] at waits
        rcases List.mem_cons.mp waits with rfl | waits
        · exact .inr fun offset needs => (spreads.needed offset).mpr (.inr ⟨before, needs⟩)
        · exact .inl (spreads.waiting other waits)
      · exact .inr fun offset needs => (spreads.needed offset).mpr (.inl (known offset needs))
    · exact .inl waits
  · rcases (spreads.needed offset).mp needed with old | ⟨reached, needs⟩
    · obtain ⟨other, reached, needs⟩ := noted.needed offset old
      exact ⟨other, spreads.reached other reached, needs⟩
    · exact ⟨position, spreads.reached position reached, needs⟩

theorem noted_of_run
    {steps : Nat}
    {progress : DepthProgress}
    (noted : progress.Noted insns handlers) :
    (run context (.ofInsns insns) handlers steps progress).Noted insns handlers := by
  induction steps generalizing progress with
  | zero => exact noted
  | succ steps inductionHypothesis =>
      unfold run
      split
      · exact noted
      · rename_i position queue popped
        exact inductionHypothesis (noted_of_visit noted popped)

theorem noted_start
    (entry : DepthState)
    (findings : List Finding) :
    (start insns entry findings).Noted insns handlers := by
  refine ⟨fun position reached => .inl ?_, fun offset needed => ?_⟩
  · simp only [Reaches, start, revise, getD_setIfInBounds, states_reportAll] at reached
    split at reached
    · rename_i first
      simp [start, revise, first.1]
    · rw [getD_toArray_const] at reached
      cases reached
  · simp [start, revise] at needed

end Visit

/-! ## Checked bodies -/

section Checked

variable
  {pool : Pool} {isStatic : Bool} {type : MethodType} {body : CodeAttribute Attribute}
  {insns : List (Nat × Insn)}

/-- At its end a check has noted all that the positions need that it reached, and no more. -/
theorem mem_needed_solved_iff
    (nonempty : insns ≠ [])
    (offset : UInt16) :
    offset ∈ (solved pool isStatic type body insns).needed ↔
      ∃ position,
        (solved pool isStatic type body insns).Reaches position ∧
          Needs insns body.handlers position offset := by
  have noted : (solved pool isStatic type body insns).Noted insns body.handlers :=
    noted_of_run (noted_start _ _)
  refine ⟨noted.needed offset, ?_⟩
  rintro ⟨position, reached, needs⟩
  have empty := queue_solved pool isStatic type body nonempty
  rcases noted.noted position reached with waits | known
  · rw [empty] at waits
    cases waits
  · exact known offset needs

/-- A check that demands frames finds nothing missing if the offsets reached have theirs. -/
theorem reports_reportMissing_eq_nil_iff
    {progress : DepthProgress}
    {code : LocatedCode}
    {declared : Std.TreeSet UInt16}
    (quiet : progress.reports = []) :
    (progress.reportMissing code declared).reports = [] ↔
      ∀ offset ∈ progress.needed, progress.reaches code offset = true → offset ∈ declared := by
  have missing :
      (progress.reportMissing code declared).reports = [] ↔
        progress.needed.toList.filter
          (fun offset => progress.reaches code offset && !declared.contains offset) = [] := by
    unfold reportMissing
    constructor
    · intro silent
      cases found :
          progress.needed.toList.filter
            (fun offset => progress.reaches code offset && !declared.contains offset) with
      | nil => rfl
      | cons offset offsets =>
          simp only [found, List.foldl_cons] at silent
          have kept :=
            reports_suffix_foldl
              (fun progress offset => reports_suffix_report progress offset .missingFrame) offsets
              (progress.report offset .missingFrame)
          rw [silent] at kept
          exact absurd (List.suffix_nil.mp kept) (reports_report_ne_nil _ _ _)
    · intro none
      simp only [none, List.foldl_nil, quiet]
  rw [missing, List.filter_eq_nil_iff]
  simp only [Std.TreeSet.mem_toList, Bool.and_eq_true, Bool.not_eq_true', not_and,
    Bool.not_eq_false, Std.TreeSet.contains_iff_mem]

/-- In a body that is checked for frames, every offset that needs a frame and is reached has one. -/
theorem declared_of_needs
    {position : Nat}
    {offset : UInt16}
    (nonempty : insns ≠ [])
    (clean : Verify.checkInsns pool isStatic type body true insns = [])
    (reached : (solved pool isStatic type body insns).Reaches position)
    (needs : Needs insns body.handlers position offset)
    (lands : (solved pool isStatic type body insns).reaches (.ofInsns insns) offset = true) :
    offset ∈ Verify.declaredOffsets body := by
  rw [checkInsns_eq, if_pos rfl] at clean
  have quiet : (solved pool isStatic type body insns).reports = [] :=
    List.suffix_nil.mp
      (clean ▸ reports_suffix_foldl
        (fun progress offset => reports_suffix_report progress offset .missingFrame) _ _)
  exact (reports_reportMissing_eq_nil_iff quiet).mp clean offset
    ((mem_needed_solved_iff nonempty offset).mpr ⟨position, reached, needs⟩) lands

end Checked

end JvmClass.DepthProgress
