import JvmClass.Proofs.Frame.Flow

namespace JvmClass

/-!
# Analyses that meet no unrelated classes

An analysis can fail because two classes have no known common superclass: where
it merges them on a stack, and where it loads a local variable in which it merged
them.  What every step keeps about the states found so far rules that out for the
whole analysis.
-/

/-- Two classes without a known common superclass are the cause. -/
def FrameConflict.isOfClasses : FrameConflict → Bool
  | .noCommonSuperclass _ _ | .unmergedLocal _ => true
  | _ => false

/-- Writing stops because of two classes without a known common superclass. -/
def WriteError.isOfClasses : WriteError → Bool
  | .inconsistentFrame _ conflict => conflict.isOfClasses
  | _ => false

@[simp] theorem WriteError.isOfClasses_ofRead (error : ReadError) :
    (WriteError.ofRead error).isOfClasses = false := by
  cases error <;> rfl

@[simp] theorem WriteError.isOfClasses_ofDescriptor (error : InvalidDescriptor) :
    (WriteError.ofDescriptor error).isOfClasses = false :=
  rfl

@[simp] theorem StackFault.isOfClasses_at
    (offset : UInt16)
    (fault : StackFault) :
    (fault.at offset).isOfClasses = false := by
  cases fault <;> rfl

/-! ## Steps that do not fail for want of a superclass -/

/-- A step gives a good result, or fails for another reason than unrelated classes. -/
def Spares
    {α : Type}
    (good : α → Prop) : Except WriteError α → Prop
  | .ok result => good result
  | .error error => error.isOfClasses = false

section Spares

variable {α β ε : Type} {good : α → Prop} {better : β → Prop} {step : Except WriteError α}

theorem Spares.imp
    {others : α → Prop}
    (spares : Spares good step)
    (implies : ∀ result, good result → others result) :
    Spares others step := by
  cases step with
  | error error => exact spares
  | ok result => exact implies result spares

/-- What comes next may depend on what the first step gave. -/
theorem Spares.bind_of_ok
    {next : α → Except WriteError β}
    (first : Spares good step)
    (second : ∀ result, step = .ok result → good result → Spares better (next result)) :
    Spares better (step >>= next) := by
  cases step with
  | error error => exact first
  | ok result => exact second result rfl first

theorem Spares.bind
    {next : α → Except WriteError β}
    (first : Spares good step)
    (second : ∀ result, good result → Spares better (next result)) :
    Spares better (step >>= next) :=
  first.bind_of_ok fun result _ kept => second result kept

/-- A failure for another reason is harmless. -/
theorem spares_of_error
    (harmless : ∀ error, step = .error error → error.isOfClasses = false) :
    Spares (fun result => step = .ok result) step := by
  cases step with
  | error error => exact harmless error rfl
  | ok result => rfl

theorem spares_mapError
    {rename : ε → WriteError}
    {inner : Except ε α}
    (harmless : ∀ error, (rename error).isOfClasses = false) :
    Spares (fun result => inner = .ok result) (inner.mapError rename) := by
  cases inner with
  | error error => exact harmless error
  | ok result => rfl

/-- A row of steps of which each keeps what is good. -/
theorem spares_foldlM
    {σ : Type}
    {kept : σ → Prop}
    {items : List α}
    {advance : σ → α → Except WriteError σ}
    {first : σ}
    (holds : kept first)
    (keeps : ∀ before, ∀ item ∈ items, kept before → Spares kept (advance before item)) :
    Spares kept (items.foldlM advance first) := by
  induction items generalizing first with
  | nil => exact holds
  | cons item items inductionHypothesis =>
      rw [List.foldlM_cons]
      refine (keeps first item (by simp) holds).bind fun middle kept => ?_
      exact inductionHypothesis kept fun before other member =>
        keeps before other (List.mem_cons_of_mem _ member)

theorem spares_mapM
    {items : List α}
    {each : α → Except WriteError β}
    (spares : ∀ item ∈ items, Spares (fun _ => True) (each item)) :
    Spares (fun _ => True) (items.mapM each) := by
  induction items with
  | nil => trivial
  | cons item items inductionHypothesis =>
      rw [List.mapM_cons]
      refine (spares item (by simp)).bind fun first _ => ?_
      exact (inductionHypothesis fun other member =>
        spares other (List.mem_cons_of_mem _ member)).bind fun rest _ => trivial

end Spares

/-! ## Merging that does not fail for want of a superclass -/

namespace FrameConflict

variable {α β : Type}

/-- If a step goes wrong, then for another reason than unrelated classes. -/
def Excluded (step : Except FrameConflict α) : Prop :=
  ∀ conflict, step = .error conflict → conflict.isOfClasses = false

theorem Excluded.bind
    {first : Except FrameConflict α}
    {second : α → Except FrameConflict β}
    (excluded : Excluded first)
    (later : ∀ value, Excluded (second value)) :
    Excluded (first >>= second) :=
  FailsOnly.bind excluded later

theorem excluded_mapM
    {each : α → Except FrameConflict β}
    {items : List α}
    (excluded : ∀ item ∈ items, Excluded (each item)) :
    Excluded (items.mapM each) :=
  failsOnly_mapM excluded

end FrameConflict

open FrameConflict

/-- Where frames are written, the hierarchy can tell what two types merge to. -/
def TypeRules.Resolves (rules : TypeRules) (left right : SlotType) : Prop :=
  rules.emitFrames = true → SlotType.merge? rules.hierarchy left right ≠ none

section Merging

variable {rules : TypeRules}

/-- Without frames an unknown superclass counts as the root class. -/
theorem SlotType.excluded_mergeStackValue
    {left right : SlotType}
    (resolves : rules.Resolves left right) :
    Excluded (mergeStackValue rules left right) := by
  have other (merged : SlotType) :
      Excluded
        (if merged = .top ∧ left ≠ .top ∧ right ≠ .top then
          .error (.incompatibleStack left right)
        else
          .ok merged) := by
    split
    · rintro conflict ⟨⟩
      rfl
    · exact nofun
  cases found : merge? rules.hierarchy left right with
  | none =>
      have silent : rules.emitFrames = false := by
        by_contra emits
        exact resolves (by simpa using emits) found
      simp only [mergeStackValue, found, silent]
      exact other (.object objectName)
  | some merged =>
      simp only [mergeStackValue, found]
      exact other merged

namespace FrameState

theorem excluded_merge
    {left right : FrameState}
    (declared : Option FrameState)
    (resolves :
      ∀ first ∈ left.stack, ∀ second ∈ right.stack, rules.Resolves first second) :
    Excluded (merge rules declared left right) := by
  unfold merge
  split
  · rintro conflict ⟨⟩
    rfl
  · refine Excluded.bind (Excluded.bind ?_ fun _ => nofun) fun _ => nofun
    refine excluded_mapM fun ⟨⟨first, second⟩, isFixed⟩ member => ?_
    cases isFixed with
    | true => exact nofun
    | false =>
        have both := (List.of_mem_zip (List.of_mem_zip (List.mem_reverse.mp member)).1)
        exact SlotType.excluded_mergeStackValue (resolves first both.1 second both.2)

theorem excluded_overlay (declared : Option FrameState) (state : FrameState) :
    Excluded
      (match declared with
      | none => .ok state
      | some declared => overlay state declared) := by
  cases declared with
  | none => rintro conflict ⟨⟩
  | some declared =>
      simp only [overlay]
      split
      · rintro conflict ⟨⟩
        rfl
      · rintro conflict ⟨⟩

/-- A state whose stack values the hierarchy can relate is absorbed without such a failure. -/
theorem spares_absorb
    {offset : UInt16}
    {existing : Option FrameState}
    {incoming : FrameState}
    (resolves :
      ∀ held ∈ existing,
        ∀ first ∈ held.stack, ∀ second ∈ incoming.stack, rules.Resolves first second) :
    Spares (fun _ => True) (absorb rules offset existing incoming) := by
  have wrapped {step : Except FrameConflict FrameState} (excluded : Excluded step) :
      Spares (fun _ => True) (step.mapError (WriteError.inconsistentFrame offset)) := by
    cases step with
    | error conflict => exact excluded conflict rfl
    | ok state => trivial
  cases existing with
  | none => exact wrapped (excluded_overlay _ incoming)
  | some held =>
      exact wrapped ((excluded_merge _ (resolves held rfl)).bind (excluded_overlay _))

end FrameState

end Merging

namespace FlowProgress

section Steers

variable {context : StepContext} {rules : TypeRules} {code : LocatedCode}
  {handlers : List HandlerRange}

/-- A run steps through the instruction at a position from a state. -/
inductive Takes
    (context : StepContext)
    (rules : TypeRules)
    (code : LocatedCode)
    (handlers : List HandlerRange) : FlowProgress → Nat → FrameState → Prop
  | now
      {progress : FlowProgress}
      {position : Nat}
      {queue : Queue Nat}
      {state : FrameState}
      (popped : progress.queue.pop? = some (position, queue))
      (held : progress.states.getD position none = some state) :
      Takes context rules code handlers progress position state
  | later
      {progress next : FlowProgress}
      {first position : Nat}
      {queue : Queue Nat}
      {state : FrameState}
      (popped : progress.queue.pop? = some (first, queue))
      (visited :
        visit context rules code handlers
            { progress with queue, waiting := progress.waiting.setIfInBounds first false } first =
          .ok next)
      (takes : Takes context rules code handlers next position state) :
      Takes context rules code handlers progress position state

/--
Conditions on the state at each position, and on what is absorbed there, that an
analysis keeps without meeting unrelated classes, given what is known about the
states from which it steps on.
-/
structure Steers
    (context : StepContext)
    (rules : TypeRules)
    (code : LocatedCode)
    (handlers : List HandlerRange)
    (taken accepts feeds : Nat → FrameState → Prop) : Prop where
  absorbs :
    ∀ {position : Nat} {offset : UInt16} {insn : Insn} {existing : Option FrameState}
      {incoming : FrameState},
      code.insns[position]? = some (offset, insn) →
        (∀ state ∈ existing, accepts position state) →
          feeds position incoming →
            Spares (accepts position) (FrameState.absorb rules offset existing incoming)
  steps :
    ∀ {position : Nat} {offset : UInt16} {insn : Insn} {before : FrameState},
      code.insns[position]? = some (offset, insn) →
        taken position before →
          accepts position before →
            Spares
              (fun behind =>
                (∀ next, code.Onward position insn next → feeds next behind) ∧
                  ∀ range ∈ handlers,
                    range.covers offset = true →
                      ∀ next,
                        code.positions[range.handler]? = some next →
                          feeds next ⟨before.locals, [range.caught]⟩ ∧
                            feeds next ⟨behind.locals, [range.caught]⟩)
              (insn.step context offset before)

/-- Every state that was found is as it should be. -/
def Accepted
    (accepts : Nat → FrameState → Prop)
    (progress : FlowProgress) : Prop :=
  ∀ position state, progress.states.getD position none = some state → accepts position state

variable {taken accepts feeds : Nat → FrameState → Prop} {progress : FlowProgress}

theorem accepted_of_states
    {other : FlowProgress}
    (same : other.states = progress.states)
    (accepted : Accepted accepts progress) :
    Accepted accepts other := by
  intro position state held
  rw [same] at held
  exact accepted position state held

theorem spares_reach
    {position : Nat}
    {offset : UInt16}
    {insn : Insn}
    {incoming : FrameState}
    (steers : Steers context rules code handlers taken accepts feeds)
    (accepted : Accepted accepts progress)
    (located : code.insns[position]? = some (offset, insn))
    (fed : feeds position incoming) :
    Spares (Accepted accepts) (reach rules progress position offset incoming) := by
  refine (steers.absorbs located (fun state held => accepted position state ?_) fed).bind
    fun merged good => ?_
  · exact held
  · split
    · exact accepted
    · intro other state held
      rw [states_enqueue, getD_setIfInBounds] at held
      split at held
      · rename_i here
        cases held
        exact here.1 ▸ good
      · exact accepted other state held

theorem spares_flowTo
    {insns : List (Nat × Insn)}
    {offset : UInt16}
    {incoming : FrameState}
    (steers : Steers context rules (.ofInsns insns) handlers taken accepts feeds)
    (accepted : Accepted accepts progress)
    (fed :
      ∀ next, (LocatedCode.ofInsns insns).positions[offset]? = some next → feeds next incoming) :
    Spares (Accepted accepts) (flowTo (.ofInsns insns) rules progress offset incoming) := by
  unfold flowTo
  split
  · exact rfl
  · rename_i position means
    obtain ⟨insn, located⟩ := LocatedCode.insn_of_positions means
    exact spares_reach steers accepted located (fed position means)

/-- Every successor of an instruction is one that control can go on to. -/
theorem onward_of_successors
    {position next : Nat}
    {offset successor : UInt16}
    {insn : Insn}
    {successors : List UInt16}
    (found : FlowProgress.successors code position offset insn = .ok successors)
    (member : successor ∈ successors)
    (means : code.positions[successor]? = some next) :
    code.Onward position insn next := by
  refine ⟨successor, means, ?_⟩
  unfold FlowProgress.successors at found
  simp only at found
  split at found
  · cases found
    obtain ⟨target, listed, rfl⟩ := List.mem_map.mp member
    exact .inl ⟨target, listed, rfl⟩
  · rename_i continues
    split at found
    · rename_i behind placed
      cases found
      rcases List.mem_append.mp member with among | last
      · obtain ⟨target, listed, rfl⟩ := List.mem_map.mp among
        exact .inl ⟨target, listed, rfl⟩
      · obtain rfl := List.mem_singleton.mp last
        exact .inr ⟨by simpa using continues, placed⟩
    · cases found

theorem spares_visit
    {insns : List (Nat × Insn)}
    {position : Nat}
    (steers : Steers context rules (.ofInsns insns) handlers taken accepts feeds)
    (takes : ∀ state, progress.states.getD position none = some state → taken position state)
    (accepted : Accepted accepts progress) :
    Spares (Accepted accepts)
      (visit context rules (.ofInsns insns) handlers progress position) := by
  unfold visit
  split
  · exact accepted
  · rename_i offset insn located
    split
    · exact rfl
    · rename_i before held
      refine (steers.steps located (takes before held) (accepted position before held)).bind fun behind good => ?_
      have followed :
          Spares (fun next => successors (.ofInsns insns) position offset insn = .ok next)
            (successors (.ofInsns insns) position offset insn) := by
        refine spares_of_error fun error failed => ?_
        unfold successors at failed
        simp only at failed
        split at failed
        · cases failed
        · split at failed <;> cases failed
          rfl
      refine followed.bind fun successors found => ?_
      have flowed :
          Spares (Accepted accepts)
            (successors.foldlM
              (fun progress successor => flowTo (.ofInsns insns) rules progress successor behind)
              ((progress.noteStack before).noteStack behind)) := by
        refine spares_foldlM (accepted_of_states rfl accepted) fun middle successor member kept => ?_
        exact spares_flowTo steers kept fun next means =>
          good.1 next (onward_of_successors found member means)
      refine flowed.bind fun middle kept => ?_
      refine spares_foldlM kept fun progress range member kept => ?_
      obtain ⟨member, covers⟩ := List.mem_filter.mp member
      have fed := good.2 range member covers
      unfold flowToHandler
      refine Spares.bind
        (spares_flowTo steers (accepted_of_states rfl kept) fun next means => (fed next means).1)
        fun first kept => ?_
      exact spares_flowTo steers kept fun next means => (fed next means).2

/-- What every step keeps, a run keeps. -/
theorem spares_run
    {insns : List (Nat × Insn)}
    (steps : Nat)
    (steers : Steers context rules (.ofInsns insns) handlers taken accepts feeds)
    (takes :
      ∀ position state,
        Takes context rules (.ofInsns insns) handlers progress position state →
          taken position state)
    (accepted : Accepted accepts progress) :
    Spares (Accepted accepts) (run context rules (.ofInsns insns) handlers steps progress) := by
  induction steps generalizing progress with
  | zero =>
      unfold run
      split
      · exact accepted
      · exact rfl
  | succ steps inductionHypothesis =>
      unfold run
      split
      · exact accepted
      · rename_i position queue popped
        extract_lets waiting
        have ready : Accepted accepts { progress with queue, waiting } :=
          accepted_of_states rfl accepted
        have visits :
            Spares (Accepted accepts)
              (visit context rules (.ofInsns insns) handlers { progress with queue, waiting }
                position) :=
          spares_visit steers (fun state held => takes position state (.now popped held)) ready
        refine visits.bind_of_ok fun middle visited kept => ?_
        exact inductionHypothesis
          (fun other state later => takes other state (.later popped visited later)) kept

end Steers

end FlowProgress

namespace FrameAnalysis

/-- The state on entry, with a place for every local variable of the body. -/
def entryState (method : MethodContext) (insns : List (Nat × Insn)) (initial : FrameState) :
    FrameState :=
  ⟨SlotType.padTo (localsNeeded (max method.maxLocals.toNat initial.locals.length) insns)
      initial.locals, []⟩

/-- Before it has entered a body, an analysis knows nothing. -/
def blank (insns : List (Nat × Insn)) : FlowProgress :=
  let states := insns.map fun _ => (none : Option FrameState)
  ⟨states.toArray, .ofList [], (states.map fun _ => false).toArray, 0⟩

/-- An analysis of a body steps through the instruction at a position from a state. -/
def Takes
    (method : MethodContext)
    (insns : List (Nat × Insn))
    (initial : FrameState)
    (handlers : List HandlerRange)
    (pool : Pool)
    (rules : TypeRules)
    (position : Nat)
    (state : FrameState) : Prop :=
  ∃ entered,
    FlowProgress.reach rules (blank insns) 0 0 (entryState method insns initial) = .ok entered ∧
      FlowProgress.Takes ⟨method, pool, rules.emitFrames⟩ rules (.ofInsns insns) handlers entered
        position state

/-- What is collected at a position is known there. -/
theorem getElem?_of_collectStates
    {located : List (UInt16 × Insn)}
    {states : List (Option FrameState)}
    {collected : List (UInt16 × FrameState)}
    {position : Nat}
    {placed : UInt16 × FrameState}
    (found : collectStates located states = .ok collected)
    (held : collected[position]? = some placed) :
    states[position]? = some (some placed.2) := by
  obtain ⟨inside, rfl⟩ := List.getElem?_eq_some_iff.mp held
  have both := mapM_eq_ok_iff.mp found
  have there : position < (located.zip states).length := by rw [both.length_eq]; exact inside
  have each := both.get there inside
  simp only [List.get_eq_getElem, List.getElem_zip] at each
  have stated : position < states.length := by
    rw [List.length_zip] at there
    omega
  rw [List.getElem?_eq_getElem stated]
  cases known : states[position] with
  | none => simp [known] at each
  | some state =>
      simp only [known, Except.ok.injEq] at each
      rw [← each]

/-- An analysis that keeps such conditions meets no unrelated classes, and keeps them to the end. -/
theorem spares_solve
    {method : MethodContext}
    {insns : List (Nat × Insn)}
    {initial : FrameState}
    {handlers : List HandlerRange}
    {pool : Pool}
    {rules : TypeRules}
    {taken accepts feeds : Nat → FrameState → Prop}
    (first : ∀ offset insn, insns[0]? = some (offset, insn) → UInt16.ofNat offset = 0)
    (nonempty : insns ≠ [])
    (steers :
      FlowProgress.Steers ⟨method, pool, rules.emitFrames⟩ rules (.ofInsns insns) handlers
        taken accepts feeds)
    (takes :
      ∀ position state,
        Takes method insns initial handlers pool rules position state → taken position state)
    (fed : feeds 0 (entryState method insns initial)) :
    Spares
      (fun analysis =>
        ∀ (position : Nat) placed,
          analysis.states[position]? = some placed → accepts position placed.2)
      (solve method insns initial handlers pool rules) := by
  unfold solve
  extract_lets code needed entry blanks context offsets
  split
  · exact rfl
  · have blankAccepted : FlowProgress.Accepted accepts (blank insns) := by
      intro position state held
      rw [blank, getD_toArray_const] at held
      cases held
    obtain ⟨item, located⟩ : ∃ item, code.insns[0]? = some ((0 : UInt16), item) := by
      cases insns with
      | nil => exact absurd rfl nonempty
      | cons item rest =>
          refine ⟨item.2, ?_⟩
          rw [← first item.1 item.2 rfl]
          exact LocatedCode.located_of_placed rfl
    refine (FlowProgress.spares_reach steers blankAccepted located fed).bind_of_ok
      fun entered reached accepted => ?_
    have onward : ∀ position state,
        FlowProgress.Takes context rules code handlers entered position state →
          taken position state :=
      fun position state later => takes position state ⟨entered, reached, later⟩
    refine (FlowProgress.spares_run analysisLimit steers onward accepted).bind
      fun solved accepted => ?_
    have gathered : Spares (fun _ => True) (collectStates code.insns.toList solved.states.toList) := by
      refine spares_mapM fun item _ => ?_
      obtain ⟨⟨offset, insn⟩, _ | state⟩ := item
      · exact rfl
      · exact trivial
    refine gathered.bind_of_ok fun states collected _ => ?_
    split
    · exact rfl
    · intro position placed held
      refine accepted position placed.2 ?_
      have known := getElem?_of_collectStates collected held
      rw [Array.getElem?_toList] at known
      rw [Array.getD_eq_getD_getElem?, known, Option.getD_some]

end FrameAnalysis
end JvmClass
