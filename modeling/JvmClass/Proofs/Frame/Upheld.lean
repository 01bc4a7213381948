import JvmClass.Proofs.Frame.Analysis
import JvmClass.Proofs.Frame.Conflict

namespace JvmClass

/-!
# What an analysis upholds

All that an analysis does to the states it has found is to let one after another
absorb a state that a step has led to.  Locals that every step and every merge
keep in shape are in shape in the end, and no state loses a local variable again:
wherever the analysis stepped on at some time, the instruction behind has at least
the locals that were left there.
-/

namespace FrameState

variable {rules : TypeRules} {offset : UInt16} {existing : Option FrameState}
  {incoming merged : FrameState}

theorem locals_of_merge
    {declared : Option FrameState}
    {left right : FrameState}
    (found : merge rules declared left right = .ok merged) :
    merged.locals =
      mergeLocals rules ((declared.map FrameState.locals).getD []) left.locals right.locals := by
  unfold merge at found
  split at found
  · cases found
  · obtain ⟨stack, _, found⟩ := bind_eq_ok_iff.mp found
    cases found
    rfl

/-- A state that absorbs another has as many locals as the longer of them. -/
theorem length_of_absorb
    (found : absorb rules offset existing incoming = .ok merged) :
    incoming.locals.length ≤ merged.locals.length ∧
      ∀ old ∈ existing, old.locals.length ≤ merged.locals.length := by
  obtain ⟨state, reached, overlaid⟩ := merged_overlaid_of_absorb found
  have kept : merged.locals.length = state.locals.length := by
    rcases overlaid with ⟨_, rfl⟩ | ⟨declared, _, overlaid⟩
    · rfl
    · unfold overlay at overlaid
      split at overlaid <;> cases overlaid
      exact length_overlayTypes ..
  rw [kept]
  rcases reached with ⟨rfl, rfl⟩ | ⟨old, rfl, mergedFound⟩
  · exact ⟨Nat.le_refl _, nofun⟩
  · rw [locals_of_merge mergedFound, length_mergeLocals]
    refine ⟨Nat.le_max_right .., ?_⟩
    rintro other ⟨⟩
    exact Nat.le_max_left ..

/-- Where nothing is declared, locals are taken over or merged. -/
theorem locals_of_absorb
    (undeclared : rules.declared[offset]? = none)
    (found : absorb rules offset existing incoming = .ok merged) :
    (existing = none ∧ merged.locals = incoming.locals) ∨
      ∃ old,
        existing = some old ∧ merged.locals = mergeLocals rules [] old.locals incoming.locals := by
  obtain ⟨state, reached, overlaid⟩ := merged_overlaid_of_absorb found
  rcases overlaid with ⟨_, rfl⟩ | ⟨declared, impossible, _⟩
  · rcases reached with ⟨missing, rfl⟩ | ⟨old, existed, mergedFound⟩
    · exact .inl ⟨missing, rfl⟩
    · rw [undeclared] at mergedFound
      exact .inr ⟨old, existed, locals_of_merge mergedFound⟩
  · rw [undeclared] at impossible
    cases impossible

end FrameState

namespace FlowProgress

/-- The states change in that one of them absorbs a state that is fed to it. -/
def Absorbs
    (rules : TypeRules)
    (code : LocatedCode)
    (fed : FrameState → Prop)
    (before after : Array (Option FrameState)) : Prop :=
  ∃ position offset insn incoming merged,
    code.insns[position]? = some (offset, insn) ∧
      fed incoming ∧
        FrameState.absorb rules offset (before.getD position none) incoming = .ok merged ∧
          after = before.setIfInBounds position (some merged)

/-- A step from the state at a position has left locals, or started from them. -/
def Leaves
    (context : StepContext)
    (code : LocatedCode)
    (states : Array (Option FrameState))
    (position : Nat)
    (incoming : FrameState) : Prop :=
  ∃ offset insn before behind,
    code.insns[position]? = some (offset, insn) ∧
      states.getD position none = some before ∧
        insn.step context offset before = .ok behind ∧
          (incoming.locals = before.locals ∨ incoming.locals = behind.locals)

/-- No state is lost, and none has fewer locals than it had. -/
def Grown (before after : Array (Option FrameState)) : Prop :=
  before.size = after.size ∧
    ∀ position held,
      before.getD position none = some held →
        ∃ later,
          after.getD position none = some later ∧ held.locals.length ≤ later.locals.length

section Upheld

variable {context : StepContext} {rules : TypeRules} {insns : List (Nat × Insn)}
  {handlers : List HandlerRange} {fed : FrameState → Prop}
  {before after third : Array (Option FrameState)} {progress next : FlowProgress}

/-! ## One absorption after another -/

theorem absorbs_of_reach
    (fed : FrameState → Prop)
    {position : Nat}
    {offset : UInt16}
    {insn : Insn}
    {incoming : FrameState}
    {code : LocatedCode}
    (located : code.insns[position]? = some (offset, insn))
    (feeds : fed incoming)
    (found : reach rules progress position offset incoming = .ok next) :
    Relation.ReflTransGen (Absorbs rules code fed) progress.states next.states := by
  obtain ⟨merged, absorbed, found⟩ := bind_eq_ok_iff.mp found
  split at found
  · cases found
    exact .refl
  · cases found
    rw [states_enqueue]
    exact .single ⟨position, offset, insn, incoming, merged, located, feeds, absorbed, rfl⟩

theorem absorbs_of_flowTo
    (fed : FrameState → Prop)
    {offset : UInt16}
    {incoming : FrameState}
    (feeds : fed incoming)
    (found : flowTo (.ofInsns insns) rules progress offset incoming = .ok next) :
    Relation.ReflTransGen (Absorbs rules (.ofInsns insns) fed) progress.states next.states := by
  unfold flowTo at found
  split at found
  · cases found
  · rename_i position means
    obtain ⟨insn, located⟩ := LocatedCode.insn_of_positions means
    exact absorbs_of_reach fed located feeds found

theorem absorbs_of_flowTo_all
    (fed : FrameState → Prop)
    {offsets : List UInt16}
    {incoming : FrameState}
    (feeds : fed incoming)
    (found :
      offsets.foldlM
        (fun progress offset => flowTo (.ofInsns insns) rules progress offset incoming)
        progress = .ok next) :
    Relation.ReflTransGen (Absorbs rules (.ofInsns insns) fed) progress.states next.states := by
  refine foldlM_keeps_row
    (fun _ reached =>
      Relation.ReflTransGen (Absorbs rules (.ofInsns insns) fed) progress.states reached.states)
    found (fun _ middle offset after flowed earlier => ?_) .refl
  exact earlier.trans (absorbs_of_flowTo fed feeds flowed)

theorem absorbs_of_flowToHandler_all
    (fed : FrameState → Prop)
    {ranges : List HandlerRange}
    {first second : FrameState}
    (feeds : ∀ range : HandlerRange, fed ⟨first.locals, [range.caught]⟩)
    (feedsBehind : ∀ range : HandlerRange, fed ⟨second.locals, [range.caught]⟩)
    (found :
      ranges.foldlM (flowToHandler (.ofInsns insns) rules first second) progress = .ok next) :
    Relation.ReflTransGen (Absorbs rules (.ofInsns insns) fed) progress.states next.states := by
  refine foldlM_keeps_row
    (fun _ reached =>
      Relation.ReflTransGen (Absorbs rules (.ofInsns insns) fed) progress.states reached.states)
    found (fun _ middle range after flowed earlier => ?_) .refl
  obtain ⟨caught, flowed, flowedBehind⟩ := bind_eq_ok_iff.mp flowed
  have flows := absorbs_of_flowTo fed (feeds range) flowed
  exact earlier.trans (flows.trans (absorbs_of_flowTo fed (feedsBehind range) flowedBehind))

/-- Stepping through an instruction absorbs nothing but what the step leads to. -/
theorem absorbs_of_visit
    {position : Nat}
    (found : visit context rules (.ofInsns insns) handlers progress position = .ok next) :
    Relation.ReflTransGen
      (Absorbs rules (.ofInsns insns)
        (Leaves context (.ofInsns insns) progress.states position))
      progress.states next.states := by
  unfold visit at found
  split at found
  · cases found
    exact .refl
  · rename_i offset insn located
    split at found
    · cases found
    · rename_i before held
      obtain ⟨behind, stepped, found⟩ := bind_eq_ok_iff.mp found
      obtain ⟨successors, _, found⟩ := bind_eq_ok_iff.mp found
      obtain ⟨middle, flowed, handled⟩ := bind_eq_ok_iff.mp found
      have leaves {incoming : FrameState}
          (same : incoming.locals = before.locals ∨ incoming.locals = behind.locals) :
          Leaves context (.ofInsns insns) progress.states position incoming :=
        ⟨offset, insn, before, behind, located, held, stepped, same⟩
      have flows := absorbs_of_flowTo_all _ (leaves (.inr rfl)) flowed
      have handles :=
        absorbs_of_flowToHandler_all _ (fun range => leaves (.inl rfl))
          (fun range => leaves (.inr rfl)) handled
      exact flows.trans handles

/-! ## Locals in shape -/

section Shape

variable {good : List SlotType → Prop} {taken : Nat → FrameState → Prop}

theorem accepted_of_absorbs
    (undeclared : ∀ offset : UInt16, rules.declared[offset]? = none)
    (merges :
      ∀ left right, good left → good right → good (FrameState.mergeLocals rules [] left right))
    (feeds : ∀ incoming, fed incoming → good incoming.locals)
    (absorbs : Relation.ReflTransGen (Absorbs rules (.ofInsns insns) fed) before after)
    (accepted : ∀ position state, before.getD position none = some state → good state.locals) :
    ∀ position state, after.getD position none = some state → good state.locals := by
  induction absorbs with
  | refl => exact accepted
  | tail _ absorbs inductionHypothesis =>
      obtain ⟨position, offset, insn, incoming, merged, _, fedIncoming, absorbed, rfl⟩ := absorbs
      intro other state held
      rw [getD_setIfInBounds] at held
      split at held
      · cases held
        rcases FrameState.locals_of_absorb (undeclared offset) absorbed with
          ⟨_, shape⟩ | ⟨old, existed, shape⟩
        · rw [shape]
          exact feeds incoming fedIncoming
        · rw [shape]
          exact merges _ _ (inductionHypothesis position old existed) (feeds incoming fedIncoming)
      · exact inductionHypothesis other state held

/-- Locals that every step and every merge keep in shape are in shape at the end of a run. -/
theorem accepted_of_run
    {steps : Nat}
    (undeclared : ∀ offset : UInt16, rules.declared[offset]? = none)
    (merges :
      ∀ left right, good left → good right → good (FrameState.mergeLocals rules [] left right))
    (keeps :
      ∀ position offset insn before behind,
        (LocatedCode.ofInsns insns).insns[position]? = some (offset, insn) →
          taken position before →
            good before.locals →
              insn.step context offset before = .ok behind → good behind.locals)
    (takes :
      ∀ position state,
        Takes context rules (.ofInsns insns) handlers progress position state →
          taken position state)
    (found : run context rules (.ofInsns insns) handlers steps progress = .ok next)
    (accepted : Accepted (fun _ state => good state.locals) progress) :
    Accepted (fun _ state => good state.locals) next := by
  induction steps generalizing progress with
  | zero =>
      unfold run at found
      split at found <;> cases found
      exact accepted
  | succ steps inductionHypothesis =>
      unfold run at found
      split at found
      · cases found
        exact accepted
      · rename_i position queue popped
        obtain ⟨middle, visited, others⟩ := bind_eq_ok_iff.mp found
        refine inductionHypothesis
          (fun other state later => takes other state (.later popped visited later)) others ?_
        refine accepted_of_absorbs undeclared merges ?_ (absorbs_of_visit visited) accepted
        rintro incoming ⟨offset, insn, before, behind, located, held, stepped, same | same⟩
        · rw [same]
          exact accepted position before held
        · rw [same]
          exact keeps position offset insn before behind located
            (takes position before (.now popped held)) (accepted position before held) stepped

end Shape

/-! ## Locals that are not lost -/

theorem Grown.refl (states : Array (Option FrameState)) : Grown states states :=
  ⟨rfl, fun _ held known => ⟨held, known, Nat.le_refl _⟩⟩

theorem Grown.trans
    (earlier : Grown before after)
    (later : Grown after third) :
    Grown before third := by
  refine ⟨earlier.1.trans later.1, fun position held known => ?_⟩
  obtain ⟨middle, middleKnown, grew⟩ := earlier.2 position held known
  obtain ⟨last, lastKnown, grewOn⟩ := later.2 position middle middleKnown
  exact ⟨last, lastKnown, Nat.le_trans grew grewOn⟩

theorem grown_of_absorbs
    {code : LocatedCode}
    (absorbs : Relation.ReflTransGen (Absorbs rules code fed) before after) :
    Grown before after := by
  induction absorbs with
  | refl => exact .refl _
  | @tail middle last _ absorbs earlier =>
      refine earlier.trans ?_
      obtain ⟨position, offset, insn, incoming, merged, _, _, absorbed, rfl⟩ := absorbs
      refine ⟨by simp, fun other held known => ?_⟩
      rw [getD_setIfInBounds]
      split
      · rename_i here
        obtain ⟨rfl, _⟩ := here
        exact ⟨merged, rfl, (FrameState.length_of_absorb absorbed).2 held known⟩
      · exact ⟨held, known, Nat.le_refl _⟩

theorem grown_of_run
    {steps : Nat}
    (found : run context rules (.ofInsns insns) handlers steps progress = .ok next) :
    Grown progress.states next.states := by
  induction steps generalizing progress with
  | zero =>
      unfold run at found
      split at found <;> cases found
      exact .refl _
  | succ steps inductionHypothesis =>
      unfold run at found
      split at found
      · cases found
        exact .refl _
      · obtain ⟨middle, visited, others⟩ := bind_eq_ok_iff.mp found
        exact (grown_of_absorbs (absorbs_of_visit visited)).trans (inductionHypothesis others)

/-- What an offset is led to has at least the locals that it is led there with. -/
theorem exists_held_of_flowTo
    {offset : UInt16}
    {incoming : FrameState}
    (sized : progress.states.size = insns.length)
    (found : flowTo (.ofInsns insns) rules progress offset incoming = .ok next) :
    ∃ position held,
      next.states.getD position none = some held ∧
        incoming.locals.length ≤ held.locals.length := by
  unfold flowTo at found
  split at found
  · cases found
  · rename_i position means
    obtain ⟨insn, located⟩ := LocatedCode.insn_of_positions means
    obtain ⟨merged, absorbed, found⟩ := bind_eq_ok_iff.mp found
    have enough := (FrameState.length_of_absorb absorbed).1
    split at found
    · rename_i unchanged
      cases found
      cases known : progress.states.getD position none with
      | none => simp [known] at unchanged
      | some held =>
          simp only [known, Option.any_some, FrameState.sameAs, Bool.and_eq_true, beq_iff_eq]
            at unchanged
          exact ⟨position, held, known, unchanged.2 ▸ enough⟩
    · cases found
      have inside : position < progress.states.size := by
        rw [sized, ← LocatedCode.size_insns_ofInsns]
        exact (Array.getElem?_eq_some_iff.mp located).1
      refine ⟨position, merged, ?_, enough⟩
      rw [states_enqueue, getD_setIfInBounds, if_pos ⟨rfl, inside⟩]

/-- Where control falls through, the locals that a step leaves are there behind it. -/
theorem exists_held_of_visit
    {position : Nat}
    {offset : UInt16}
    {insn : Insn}
    {state behind : FrameState}
    (found : visit context rules (.ofInsns insns) handlers progress position = .ok next)
    (sized : progress.states.size = insns.length)
    (located : (LocatedCode.ofInsns insns).insns[position]? = some (offset, insn))
    (held : progress.states.getD position none = some state)
    (stepped : insn.step context offset state = .ok behind)
    (continues : insn.opcode.endsFlow = false) :
    ∃ place later,
      next.states.getD place none = some later ∧ behind.locals.length ≤ later.locals.length := by
  simp only [visit, located, held] at found
  obtain ⟨known, knownFound, found⟩ := bind_eq_ok_iff.mp found
  obtain rfl := Except.ok.inj (stepped.symm.trans knownFound)
  obtain ⟨successors, followed, found⟩ := bind_eq_ok_iff.mp found
  obtain ⟨middle, flowed, handled⟩ := bind_eq_ok_iff.mp found
  obtain ⟨following, _, member⟩ := (mem_of_successors followed).2 continues
  obtain ⟨earlier, others, rfl⟩ := List.append_of_mem member
  rw [List.foldlM_append] at flowed
  obtain ⟨first, flowedFirst, flowed⟩ := bind_eq_ok_iff.mp flowed
  rw [List.foldlM_cons] at flowed
  obtain ⟨second, flowedThere, flowedOthers⟩ := bind_eq_ok_iff.mp flowed
  have grownFirst := grown_of_absorbs (absorbs_of_flowTo_all (fun _ => True) trivial flowedFirst)
  have grownOthers := grown_of_absorbs (absorbs_of_flowTo_all (fun _ => True) trivial flowedOthers)
  have grownHandlers :=
    grown_of_absorbs
      (absorbs_of_flowToHandler_all (fun _ => True) (fun _ => trivial) (fun _ => trivial)
        handled)
  obtain ⟨place, reached, reachedAt, enough⟩ :=
    exists_held_of_flowTo (grownFirst.1.symm.trans sized) flowedThere
  obtain ⟨later, laterAt, grew⟩ := (grownOthers.trans grownHandlers).2 place reached reachedAt
  exact ⟨place, later, laterAt, Nat.le_trans enough grew⟩

/-- The locals that a step has left at some time are there in the end. -/
theorem exists_held_of_takes
    {steps position : Nat}
    {offset : UInt16}
    {insn : Insn}
    {state behind : FrameState}
    (takes : Takes context rules (.ofInsns insns) handlers progress position state)
    (sized : progress.states.size = insns.length)
    (located : (LocatedCode.ofInsns insns).insns[position]? = some (offset, insn))
    (stepped : insn.step context offset state = .ok behind)
    (continues : insn.opcode.endsFlow = false)
    (found : run context rules (.ofInsns insns) handlers steps progress = .ok next) :
    ∃ place later,
      next.states.getD place none = some later ∧ behind.locals.length ≤ later.locals.length := by
  induction takes generalizing steps with
  | @now progress position queue state popped held =>
      cases steps with
      | zero => simp [run, popped] at found
      | succ steps =>
          simp only [run, popped] at found
          obtain ⟨middle, visited, others⟩ := bind_eq_ok_iff.mp found
          obtain ⟨place, reached, reachedAt, enough⟩ :=
            exists_held_of_visit visited sized located held stepped continues
          obtain ⟨later, laterAt, grew⟩ := (grown_of_run others).2 place reached reachedAt
          exact ⟨place, later, laterAt, Nat.le_trans enough grew⟩
  | later popped visited _ inductionHypothesis =>
      cases steps with
      | zero => simp [run, popped] at found
      | succ steps =>
          simp only [run, popped] at found
          obtain ⟨middle, visitedAgain, others⟩ := bind_eq_ok_iff.mp found
          obtain rfl := Except.ok.inj (visited.symm.trans visitedAgain)
          exact inductionHypothesis
            ((grown_of_absorbs (absorbs_of_visit visited)).1.symm.trans sized) located stepped others

end Upheld

end FlowProgress

namespace FrameAnalysis

section Upheld

variable {method : MethodContext} {code : Bytes} {insns : List (Nat × Insn)} {initial : FrameState}
  {handlers : List HandlerRange} {pool : Pool} {rules : TypeRules} {analysis : FrameAnalysis}

/-- How an analysis came to its results: it entered the body, ran, and collected the states. -/
structure Ran
    (method : MethodContext)
    (insns : List (Nat × Insn))
    (initial : FrameState)
    (handlers : List HandlerRange)
    (pool : Pool)
    (rules : TypeRules)
    (analysis : FrameAnalysis)
    (entered solved : FlowProgress) : Prop where
  reaches :
    FlowProgress.reach rules (blank insns) 0 0 (entryState method insns initial) = .ok entered
  runs :
    FlowProgress.run ⟨method, pool, rules.emitFrames⟩ rules (.ofInsns insns) handlers analysisLimit
        entered =
      .ok solved
  states : collectStates (LocatedCode.located insns) solved.states.toList = .ok analysis.states
  maxLocals :
    analysis.maxLocals.toNat =
      localsNeeded (max method.maxLocals.toNat initial.locals.length) insns
  frames :
    analysis.frames =
      .ofList (analysis.states.filter fun (offset, _) =>
        (frameOffsets insns handlers).contains offset)

theorem exists_ran_of_solve
    (found : solve method insns initial handlers pool rules = .ok analysis) :
    analysis.initial = initial ∧
      ∃ entered solved, Ran method insns initial handlers pool rules analysis entered solved := by
  unfold solve at found
  simp only at found
  split at found
  · cases found
  · obtain ⟨entered, reached, found⟩ := bind_eq_ok_iff.mp found
    obtain ⟨solved, ran, found⟩ := bind_eq_ok_iff.mp found
    obtain ⟨states, collected, found⟩ := bind_eq_ok_iff.mp found
    rw [LocatedCode.toList_insns_ofInsns] at collected
    split at found
    · cases found
    · cases found
      exact ⟨rfl, entered, solved, reached, ran, collected,
        UInt16.toNat_ofNat_of_lt' (show _ < 2 ^ 16 by omega), rfl⟩

/-- An analysis of a body without instructions finds no states; any other one has run. -/
theorem ran_of_ofCode
    (decoded : Insn.decode code = .ok insns)
    (entered : FrameState.initial method = .ok initial)
    (found : ofCode method code handlers pool rules = .ok analysis) :
    analysis.initial = initial ∧
      (insns = [] ∧ analysis.states = [] ∧ analysis.frames = ∅ ∨
        (∃ insn, (LocatedCode.ofInsns insns).insns[0]? = some (0, insn)) ∧
          ∃ start solved, Ran method insns initial handlers pool rules analysis start solved) := by
  unfold ofCode at found
  simp only [decoded, entered, bind, Except.bind, Except.mapError] at found
  split at found
  · rename_i empty
    cases found
    exact ⟨rfl, .inl ⟨List.isEmpty_iff.mp empty, rfl, rfl⟩⟩
  · rename_i nonempty
    obtain ⟨same, ran⟩ := exists_ran_of_solve found
    refine ⟨same, .inr ⟨?_, ran⟩⟩
    have decodes := Insn.decode_eq_ok_iff.mp decoded
    cases insns with
    | nil => exact absurd rfl nonempty
    | cons first rest =>
        have start : UInt16.ofNat first.1 = 0 := congrArg UInt16.ofNat decodes.offset_first
        exact ⟨first.2, start ▸ LocatedCode.located_of_placed rfl⟩

/-- Locals that every step and every merge keep in shape are in shape in the end. -/
theorem accepted_of_ofCode
    (good : List SlotType → Prop)
    (undeclared : ∀ offset : UInt16, rules.declared[offset]? = none)
    (decoded : Insn.decode code = .ok insns)
    (entered : FrameState.initial method = .ok initial)
    (merges :
      ∀ left right, good left → good right → good (FrameState.mergeLocals rules [] left right))
    (keeps :
      ∀ position offset insn before behind,
        (LocatedCode.ofInsns insns).insns[position]? = some (offset, insn) →
          Takes method insns initial handlers pool rules position before →
            good before.locals →
              insn.step ⟨method, pool, rules.emitFrames⟩ offset before = .ok behind →
                good behind.locals)
    (entry : good (entryState method insns initial).locals)
    (found : ofCode method code handlers pool rules = .ok analysis)
    {placed : UInt16 × FrameState}
    (member : placed ∈ analysis.states) :
    good placed.2.locals := by
  rcases (ran_of_ofCode decoded entered found).2 with
    ⟨_, stateless, _⟩ | ⟨⟨first, located⟩, start, solved, ran⟩
  · rw [stateless] at member
    cases member
  · have blankAccepted :
        FlowProgress.Accepted (fun _ state => good state.locals) (blank insns) := by
      intro position state held
      rw [blank, getD_toArray_const] at held
      cases held
    have fed (incoming : FrameState) (same : incoming = entryState method insns initial) :
        good incoming.locals := same ▸ entry
    have startAccepted :=
      FlowProgress.accepted_of_absorbs undeclared merges fed
        (FlowProgress.absorbs_of_reach _ located rfl ran.reaches) blankAccepted
    have accepted :=
      FlowProgress.accepted_of_run undeclared merges keeps
        (fun position state takes => ⟨start, ran.reaches, takes⟩) ran.runs startAccepted
    obtain ⟨position, held⟩ := List.getElem?_of_mem member
    have known := getElem?_of_collectStates ran.states held
    rw [Array.getElem?_toList] at known
    exact accepted position placed.2 (by rw [Array.getD_eq_getD_getElem?, known, Option.getD_some])

/-- The locals that a step has left at some time are not fewer in the end. -/
theorem exists_state_of_takes
    {position : Nat}
    {offset : UInt16}
    {insn : Insn}
    {state behind : FrameState}
    (decoded : Insn.decode code = .ok insns)
    (entered : FrameState.initial method = .ok initial)
    (found : ofCode method code handlers pool rules = .ok analysis)
    (located : (LocatedCode.ofInsns insns).insns[position]? = some (offset, insn))
    (takes : Takes method insns initial handlers pool rules position state)
    (stepped : insn.step ⟨method, pool, rules.emitFrames⟩ offset state = .ok behind)
    (continues : insn.opcode.endsFlow = false) :
    ∃ placed ∈ analysis.states, behind.locals.length ≤ placed.2.locals.length := by
  rcases (ran_of_ofCode decoded entered found).2 with
    ⟨rfl, _, _⟩ | ⟨⟨first, firstLocated⟩, start, solved, ran⟩
  · simp at located
  · obtain ⟨other, reached, takes⟩ := takes
    obtain rfl := Except.ok.inj (ran.reaches.symm.trans reached)
    have grown :=
      FlowProgress.grown_of_absorbs
        (FlowProgress.absorbs_of_reach (fun _ => True) firstLocated trivial ran.reaches)
    have sized : start.states.size = insns.length := by
      rw [← grown.1]
      simp [blank]
    obtain ⟨place, later, laterAt, enough⟩ :=
      FlowProgress.exists_held_of_takes takes sized located stepped continues ran.runs
    have sameSize : solved.states.size = insns.length :=
      (FlowProgress.grown_of_run ran.runs).1.symm.trans sized
    have collected :=
      ((collectStates_eq_ok_iff (by simp [LocatedCode.located, sameSize])).mp ran.states).2
    have laterKnown : solved.states.toList[place]? = some (some later) := by
      rw [Array.getElem?_toList]
      rw [Array.getD_eq_getD_getElem?] at laterAt
      cases known : solved.states[place]? with
      | none => simp [known] at laterAt
      | some state => simpa [known] using laterAt
    rw [collected, List.getElem?_map] at laterKnown
    obtain ⟨placed, held, same⟩ := Option.map_eq_some_iff.mp laterKnown
    refine ⟨placed, List.mem_of_getElem? held, ?_⟩
    rwa [Option.some.inj same]

end Upheld

end FrameAnalysis
end JvmClass
