import JvmClass.Frame.Encode
import JvmClass.Proofs.Frame.Flow
import JvmClass.Proofs.Insn.Decode

namespace JvmClass

/-!
# The type analysis is sound

Whenever a body is analysed, every instruction has a state, and stepping through
an instruction from its state gives a state that everything control can go to
covers.
-/

/-- Nothing is on the stack on entry. -/
theorem FrameState.stack_of_initial
    {method : MethodContext}
    {initial : FrameState}
    (found : FrameState.initial method = .ok initial) :
    initial.stack = [] := by
  obtain ⟨type, _, rest⟩ := bind_eq_ok_iff.mp found
  cases rest
  rfl

namespace FrameAnalysis

/-- No fewer local variables are needed than there are at least. -/
theorem le_localsNeeded
    (atLeast : Nat)
    (insns : List (Nat × Insn)) :
    atLeast ≤ localsNeeded atLeast insns := by
  unfold localsNeeded
  refine List.foldlRecOn insns _ (motive := fun needed => atLeast ≤ needed) (Nat.le_refl _) ?_
  intro needed enough placed _
  cases accesses : placed.2.access? with
  | none => simpa only [accesses] using enough
  | some access => simpa only [accesses] using Nat.le_trans enough (Nat.le_max_left _ _)

/-- Every local variable that an instruction touches is needed. -/
theorem le_localsNeeded_of_access
    {atLeast : Nat}
    {insns : List (Nat × Insn)}
    {placed : Nat × Insn}
    {access : SlotAccess}
    (member : placed ∈ insns)
    (accesses : placed.2.access? = some access) :
    access.index.toNat + access.width ≤ localsNeeded atLeast insns := by
  obtain ⟨earlier, later, rfl⟩ := List.append_of_mem member
  have split :
      localsNeeded atLeast (earlier ++ placed :: later) =
        localsNeeded
          (max (localsNeeded atLeast earlier) (access.index.toNat + access.width)) later := by
    simp [localsNeeded, accesses]
  rw [split]
  exact Nat.le_trans (Nat.le_max_right _ _) (le_localsNeeded _ later)

/-- An offset means an instruction whose state covers a state. -/
def Covers
    (analysis : FrameAnalysis)
    (rules : TypeRules)
    (code : LocatedCode)
    (offset : UInt16)
    (incoming : FrameState) : Prop :=
  ∃ position held,
    code.positions[offset]? = some position ∧
      analysis.states[position]? = some (offset, held) ∧
        FrameState.Fits rules.hierarchy rules.declared[offset]? incoming held

/--
An instruction can be stepped through from a state, and everything it leads to
covers what that gives: the targets of its branches, the instruction behind it
if control falls through, and the handlers that cover it.
-/
structure StepSound
    (analysis : FrameAnalysis)
    (context : StepContext)
    (rules : TypeRules)
    (handlers : List HandlerRange)
    (code : LocatedCode)
    (position : Nat)
    (offset : UInt16)
    (insn : Insn)
    (before behind : FrameState) : Prop where
  steps : insn.step context offset before = .ok behind
  branches :
    ∀ target ∈ insn.targets,
      analysis.Covers rules code (UInt16.ofNat target) behind
  fallsThrough :
    insn.opcode.endsFlow = false →
      ∃ next,
        code.offsetAfter? position = some next ∧
          analysis.Covers rules code next behind
  handlers :
    ∀ range ∈ handlers,
      range.covers offset = true →
        analysis.Covers rules code range.handler ⟨before.locals, [range.caught]⟩ ∧
          analysis.Covers rules code range.handler ⟨behind.locals, [range.caught]⟩

/-- The states of an analysis cover every way that control can take through a body. -/
structure IsSound
    (analysis : FrameAnalysis)
    (context : StepContext)
    (rules : TypeRules)
    (handlers : List HandlerRange)
    (insns : List (Nat × Insn)) : Prop where
  aligned :
    analysis.states.map Prod.fst = (LocatedCode.located insns).map Prod.fst
  entry :
    ∃ initial,
      FrameState.initial context.method = .ok initial ∧
        ∀ offset held,
          analysis.states[0]? = some (offset, held) →
            FrameState.Fits rules.hierarchy rules.declared[offset]? initial held
  steps :
    ∀ position offset insn before,
      (LocatedCode.ofInsns insns).insns[position]? = some (offset, insn) →
        analysis.states[position]? = some (offset, before) →
          ∃ behind,
            analysis.StepSound context rules handlers (.ofInsns insns) position offset insn
              before behind
  holds :
    ∀ placed ∈ analysis.states,
      FrameState.Holds rules.declared[placed.1]? placed.2

/-- Where an analysis has come to when nothing is left to step through. -/
structure Solved
    (strict : Prop)
    (method : MethodContext)
    (insns : List (Nat × Insn))
    (initial : FrameState)
    (handlers : List HandlerRange)
    (pool : Pool)
    (rules : TypeRules)
    (analysis : FrameAnalysis)
    (needed : Nat)
    (solved : FlowProgress) : Prop where
  counted :
    needed = localsNeeded (max method.maxLocals.toNat initial.locals.length) insns
  narrow : needed < 2 ^ 16
  sound :
    FlowProgress.Sound strict ⟨method, pool, rules.emitFrames⟩ rules (.ofInsns insns) handlers
      none solved
  settled : solved.queue.toList = []
  entry :
    ∃ held offset,
      solved.states.getD 0 none = some held ∧
        (LocatedCode.ofInsns insns).insns[0]?.map Prod.fst = some offset ∧
        FrameState.Fits rules.hierarchy rules.declared[offset]?
          ⟨SlotType.padTo needed initial.locals, []⟩ held
  states :
    collectStates (LocatedCode.located insns) solved.states.toList = .ok analysis.states
  maxStack : analysis.maxStack.toNat = solved.maxStack
  maxLocals : analysis.maxLocals.toNat = needed
  frames :
    analysis.frames =
      .ofList (analysis.states.filter fun (offset, _) =>
        (frameOffsets insns handlers).contains offset)

/-- Collecting states pairs every instruction with the state that is known for it. -/
theorem collectStates_eq_ok_iff
    {located : List (UInt16 × Insn)}
    {states : List (Option FrameState)}
    {collected : List (UInt16 × FrameState)}
    (sameLength : states.length = located.length) :
    collectStates located states = .ok collected ↔
      collected.map Prod.fst = located.map Prod.fst ∧
        states = collected.map fun placed => some placed.2 := by
  unfold collectStates
  rw [mapM_eq_ok_iff]
  induction located generalizing states collected with
  | nil =>
      obtain rfl := List.length_eq_zero_iff.mp sameLength
      simp
  | cons first located inductionHypothesis =>
      cases states with
      | nil => cases sameLength
      | cons state states =>
          simp only [List.length_cons, Nat.add_right_cancel_iff] at sameLength
          cases collected with
          | nil => simp
          | cons placed collected =>
              obtain ⟨offset, held⟩ := placed
              simp only [List.zip_cons_cons, List.forall₂_cons, inductionHypothesis sameLength,
                List.map_cons, List.cons.injEq]
              cases state with
              | none => simp
              | some state =>
                  simp only [Except.ok.injEq, Prod.mk.injEq, Option.some.injEq]
                  tauto

section Solved

variable {strict : Prop} {method : MethodContext} {insns : List (Nat × Insn)}
  {initial : FrameState} {handlers : List HandlerRange} {pool : Pool} {rules : TypeRules}
  {analysis : FrameAnalysis} {needed : Nat} {solved : FlowProgress}

/-- The states of an analysis lie at the offsets of the instructions. -/
theorem Solved.aligned
    (solvedBody : Solved strict method insns initial handlers pool rules analysis needed solved) :
    analysis.states.map Prod.fst = (LocatedCode.located insns).map Prod.fst := by
  refine ((collectStates_eq_ok_iff ?_).mp solvedBody.states).1
  simp [solvedBody.sound.states_size, LocatedCode.located]

/-- What is known in the end is what the analysis gives. -/
theorem Solved.getD_states
    (solvedBody : Solved strict method insns initial handlers pool rules analysis needed solved)
    (position : Nat) :
    solved.states.getD position none = (analysis.states[position]?).map Prod.snd := by
  have collected := ((collectStates_eq_ok_iff (by
    simp [solvedBody.sound.states_size, LocatedCode.located])).mp solvedBody.states).2
  rw [Array.getD_eq_getD_getElem?, ← Array.getElem?_toList, collected, List.getElem?_map]
  cases analysis.states[position]? <;> rfl

/-- The state of an instruction lies at its offset. -/
theorem Solved.getElem?_states
    (solvedBody : Solved strict method insns initial handlers pool rules analysis needed solved)
    {position : Nat}
    {offset : UInt16}
    {insn : Insn}
    {held : FrameState}
    (located : (LocatedCode.ofInsns insns).insns[position]? = some (offset, insn)) :
    analysis.states[position]? = some (offset, held) ↔
      solved.states.getD position none = some held := by
  have offsets := congrArg (·[position]?) solvedBody.aligned
  simp only [List.getElem?_map] at offsets
  rw [← Array.getElem?_toList, LocatedCode.toList_insns_ofInsns] at located
  rw [solvedBody.getD_states]
  simp only [located, Option.map_some] at offsets
  cases placed : analysis.states[position]? with
  | none => simp [placed] at offsets
  | some state =>
      obtain ⟨place, type⟩ := state
      simp only [placed, Option.map_some, Option.some.injEq] at offsets
      simp [offsets]

/-- Every state lies at an instruction. -/
theorem Solved.located_of_states
    (solvedBody : Solved strict method insns initial handlers pool rules analysis needed solved)
    {position : Nat}
    {placed : UInt16 × FrameState}
    (heldAt : analysis.states[position]? = some placed) :
    ∃ insn, (LocatedCode.ofInsns insns).insns[position]? = some (placed.1, insn) := by
  have offsets := congrArg (·[position]?) solvedBody.aligned
  simp only [List.getElem?_map, heldAt, Option.map_some] at offsets
  obtain ⟨⟨offset, insn⟩, located, rfl⟩ := Option.map_eq_some_iff.mp offsets.symm
  rw [← LocatedCode.toList_insns_ofInsns, Array.getElem?_toList] at located
  exact ⟨insn, located⟩

/-- Where control leads in the end is covered by what the analysis gives. -/
theorem Solved.covers
    (solvedBody : Solved strict method insns initial handlers pool rules analysis needed solved)
    {offset : UInt16}
    {incoming : FrameState}
    (leads : FlowProgress.Leads rules (.ofInsns insns) solved.states offset incoming) :
    analysis.Covers rules (.ofInsns insns) offset incoming := by
  obtain ⟨position, held, means, heldAt, fits⟩ := leads
  obtain ⟨insn, located⟩ := LocatedCode.insn_of_positions means
  exact ⟨position, held, means, (solvedBody.getElem?_states located).mpr heldAt, fits⟩

/-- Every instruction is stepped through in the end. -/
theorem Solved.settledAt
    (solvedBody : Solved strict method insns initial handlers pool rules analysis needed solved)
    {position : Nat}
    {offset : UInt16}
    {insn : Insn}
    {before : FrameState}
    (located : (LocatedCode.ofInsns insns).insns[position]? = some (offset, insn))
    (heldAt : analysis.states[position]? = some (offset, before)) :
    FlowProgress.Settled ⟨method, pool, rules.emitFrames⟩ rules (.ofInsns insns) handlers
      solved position before := by
  have known := (solvedBody.getElem?_states located).mp heldAt
  rcases solvedBody.sound.pending position before known with queued | settled | impossible
  · simp [solvedBody.settled] at queued
  · exact settled
  · cases impossible

/-- Every instruction is stepped through soundly, and no stack is deeper than the largest. -/
theorem Solved.stepSound
    (solvedBody : Solved strict method insns initial handlers pool rules analysis needed solved)
    {position : Nat}
    {offset : UInt16}
    {insn : Insn}
    {before : FrameState}
    (located : (LocatedCode.ofInsns insns).insns[position]? = some (offset, insn))
    (heldAt : analysis.states[position]? = some (offset, before)) :
    ∃ behind,
      analysis.StepSound ⟨method, pool, rules.emitFrames⟩ rules handlers (.ofInsns insns) position
          offset insn before behind ∧
        SlotType.stackSlots before.stack ≤ analysis.maxStack.toNat ∧
        SlotType.stackSlots behind.stack ≤ analysis.maxStack.toNat := by
  obtain ⟨_, _, behind, next, sameLocated, stepped, followed, leads, caught, beforeNoted,
    behindNoted⟩ := solvedBody.settledAt located heldAt
  rw [located] at sameLocated
  cases sameLocated
  rw [← solvedBody.maxStack] at beforeNoted behindNoted
  obtain ⟨branches, fallsThrough⟩ := FlowProgress.mem_of_successors followed
  refine ⟨behind, ⟨stepped, ?_, ?_, ?_⟩, beforeNoted, behindNoted⟩
  · intro target member
    exact solvedBody.covers (leads _ (branches target member))
  · intro falls
    obtain ⟨following, placed, member⟩ := fallsThrough falls
    exact ⟨following, placed, solvedBody.covers (leads following member)⟩
  · intro range member covers
    obtain ⟨_, first, second⟩ := caught range member covers
    exact ⟨solvedBody.covers first, solvedBody.covers second⟩

/-- The states of a solved body cover every way that control can take through it. -/
theorem Solved.isSound
    (solvedBody : Solved strict method insns initial handlers pool rules analysis needed solved)
    (initialFound : FrameState.initial method = .ok initial) :
    analysis.IsSound ⟨method, pool, rules.emitFrames⟩ rules handlers insns := by
  refine ⟨solvedBody.aligned, ⟨initial, initialFound, ?_⟩, ?_, ?_⟩
  · intro offset held heldAt
    obtain ⟨known, first, knownAt, firstLocated, fits⟩ := solvedBody.entry
    obtain ⟨⟨_, insn⟩, located, rfl⟩ := Option.map_eq_some_iff.mp firstLocated
    have placed := (solvedBody.getElem?_states located).mpr knownAt
    rw [heldAt, Option.some.injEq, Prod.mk.injEq] at placed
    obtain ⟨rfl, rfl⟩ := placed
    have bare : initial = ⟨initial.locals, []⟩ := by
      rw [← FrameState.stack_of_initial initialFound]
    rw [bare]
    exact fits.of_padTo
  · intro position offset insn before located heldAt
    obtain ⟨behind, sound, _, _⟩ := solvedBody.stepSound located heldAt
    exact ⟨behind, sound⟩
  · intro placed member
    obtain ⟨position, heldAt⟩ := List.getElem?_of_mem member
    obtain ⟨insn, located⟩ := solvedBody.located_of_states heldAt
    have known := (solvedBody.getElem?_states located).mp heldAt
    exact (solvedBody.sound.holds position placed.1 insn placed.2 located known).1

end Solved

/-- What solving a body gives is where an analysis has come to in the end. -/
theorem solved_of_solve
    {strict : Prop}
    {method : MethodContext}
    {insns : List (Nat × Insn)}
    {insn : Insn}
    {initial : FrameState}
    {handlers : List HandlerRange}
    {pool : Pool}
    {rules : TypeRules}
    {analysis : FrameAnalysis}
    (declaredKnown : FrameState.KnownDeclared strict rules)
    (first : insns[0]? = some (0, insn))
    (found : solve method insns initial handlers pool rules = .ok analysis) :
    ∃ needed solved,
      Solved strict method insns initial handlers pool rules analysis needed solved := by
  let needed := localsNeeded (max method.maxLocals.toNat initial.locals.length) insns
  unfold solve at found
  simp only at found
  split at found
  · cases found
  · rename_i narrow
    obtain ⟨entered, reached, found⟩ := bind_eq_ok_iff.mp found
    obtain ⟨solved, ran, found⟩ := bind_eq_ok_iff.mp found
    obtain ⟨states, collected, found⟩ := bind_eq_ok_iff.mp found
    have located : (LocatedCode.ofInsns insns).insns[0]? = some (0, insn) := by
      rw [LocatedCode.getElem?_insns_ofInsns, first]
      rfl
    obtain ⟨enteredReached, held, heldAt, fits⟩ :=
      FlowProgress.reached_of_reach declaredKnown (FlowProgress.sound_blank 0) located
        (fun _ => by simp [FrameState.KnownStack]) reached
    obtain ⟨runReached, empty⟩ :=
      FlowProgress.reached_of_run declaredKnown enteredReached.sound ran
    obtain ⟨final, finalAt, widened⟩ := runReached.widened 0 0 insn held located heldAt
    rw [LocatedCode.toList_insns_ofInsns] at collected
    split at found
    · cases found
    · rename_i shallow
      cases found
      refine ⟨needed, solved, ?_⟩
      exact {
        counted := rfl
        narrow := by omega
        sound := runReached.sound
        settled := empty
        entry := ⟨final, 0, finalAt, by simp [located], widened _ fits⟩
        states := collected
        maxStack := UInt16.toNat_ofNat_of_lt' (show _ < 2 ^ 16 by omega)
        maxLocals := UInt16.toNat_ofNat_of_lt' (show _ < 2 ^ 16 by omega)
        frames := rfl }

/-- Behind an analysis lie the instructions of the body and, if there are any, what solved it. -/
theorem solved_of_ofCode
    {strict : Prop}
    {method : MethodContext}
    {code : Bytes}
    {handlers : List HandlerRange}
    {pool : Pool}
    {rules : TypeRules}
    {analysis : FrameAnalysis}
    (declaredKnown : FrameState.KnownDeclared strict rules)
    (found : ofCode method code handlers pool rules = .ok analysis) :
    ∃ insns initial,
      Insn.Decodes code.length 0 code insns ∧ FrameState.initial method = .ok initial ∧
        (insns = [] ∧ analysis.states = [] ∨
          ∃ needed solved,
            Solved strict method insns initial handlers pool rules analysis needed solved) := by
  unfold ofCode at found
  obtain ⟨insns, decoded, found⟩ := bind_eq_ok_iff.mp found
  obtain ⟨initial, initialFound, found⟩ := bind_eq_ok_iff.mp found
  have decodes := Insn.decode_eq_ok_iff.mp (mapError_eq_ok_iff.mp decoded)
  refine ⟨insns, initial, decodes, mapError_eq_ok_iff.mp initialFound, ?_⟩
  split at found
  · rename_i empty
    cases found
    exact .inl ⟨List.isEmpty_iff.mp empty, rfl⟩
  · cases decodes with
    | nil => contradiction
    | cons reads later => exact .inr (solved_of_solve declaredKnown rfl found)

/-- Without instructions there is nothing to cover. -/
theorem isSound_nil
    {context : StepContext}
    {rules : TypeRules}
    {handlers : List HandlerRange}
    {analysis : FrameAnalysis}
    {initial : FrameState}
    (initialFound : FrameState.initial context.method = .ok initial)
    (stateless : analysis.states = []) :
    analysis.IsSound context rules handlers [] := by
  refine ⟨?_, ⟨initial, initialFound, ?_⟩, ?_, ?_⟩
  · simp [stateless, LocatedCode.located]
  · simp [stateless]
  · simp [stateless]
  · simp [stateless]

/--
An analysis is sound, and in a body that offsets of sixteen bits can address, every
offset means the instruction that lies at it.
-/
theorem exists_isSound_of_ofCode
    {method : MethodContext}
    {code : Bytes}
    {handlers : List HandlerRange}
    {pool : Pool}
    {rules : TypeRules}
    {analysis : FrameAnalysis}
    (known : FrameState.KnownDeclared (rules.emitFrames = false) rules)
    (found : ofCode method code handlers pool rules = .ok analysis) :
    ∃ insns,
      Insn.decode code = .ok insns ∧
        analysis.IsSound ⟨method, pool, rules.emitFrames⟩ rules handlers insns ∧
        (code.length < 2 ^ 16 →
          ∀ position offset insn,
            insns[position]? = some (offset, insn) →
              (LocatedCode.ofInsns insns).positions[UInt16.ofNat offset]? = some position) := by
  obtain ⟨insns, initial, decodes, initialFound, outcome⟩ := solved_of_ofCode known found
  refine ⟨insns, Insn.decode_eq_ok_iff.mpr decodes, ?_, ?_⟩
  · rcases outcome with ⟨rfl, stateless⟩ | ⟨needed, solved, solvedBody⟩
    · exact isSound_nil initialFound stateless
    · exact solvedBody.isSound initialFound
  · intro short position offset insn placed
    exact decodes.positions_eq short placed

/--
Whenever a body is analysed, every instruction has a state, and whatever control
can go to covers what it is reached with.  In a body that offsets of sixteen
bits can address, every offset means the instruction that lies at it.
-/
theorem isSound_of_ofCode
    {method : MethodContext}
    {code : Bytes}
    {handlers : List HandlerRange}
    {pool : Pool}
    {rules : TypeRules}
    {analysis : FrameAnalysis}
    (declaredKnown :
      rules.emitFrames = false →
        ∀ (offset : UInt16) (state : FrameState),
          rules.declared[offset]? = some state → state.KnownStack)
    (found : ofCode method code handlers pool rules = .ok analysis) :
    ∃ insns,
      Insn.decode code = .ok insns ∧
        analysis.IsSound ⟨method, pool, rules.emitFrames⟩ rules handlers insns ∧
        (code.length < 2 ^ 16 →
          ∀ position offset insn,
            insns[position]? = some (offset, insn) →
              (LocatedCode.ofInsns insns).positions[UInt16.ofNat offset]? = some position) :=
  exists_isSound_of_ofCode
    ⟨id, fun offset state held unwritten => declaredKnown unwritten offset state held⟩ found

/-- The analysis of a loop that is covered by a handler is sound. -/
theorem isSound_of_loop :
    ∃ analysis,
      ofCode ⟨"A", 0x0008, "m", "(J)V", 2⟩ [0x03, 0x99, 0xFF, 0xFF, 0xB1, 0xBF] [⟨0, 4, 5, none⟩]
          ⟨#[], 0, ∅⟩ ⟨[], ∅, false⟩ =
        .ok analysis ∧
        ∃ insns,
          Insn.decode [0x03, 0x99, 0xFF, 0xFF, 0xB1, 0xBF] = .ok insns ∧
            analysis.IsSound ⟨⟨"A", 0x0008, "m", "(J)V", 2⟩, ⟨#[], 0, ∅⟩, false⟩ ⟨[], ∅, false⟩
              [⟨0, 4, 5, none⟩] insns := by
  have finishes :
      (ofCode ⟨"A", 0x0008, "m", "(J)V", 2⟩ [0x03, 0x99, 0xFF, 0xFF, 0xB1, 0xBF]
        [⟨0, 4, 5, none⟩] ⟨#[], 0, ∅⟩ ⟨[], ∅, false⟩).toOption.isSome = true := by
    decide +kernel
  cases found :
      ofCode ⟨"A", 0x0008, "m", "(J)V", 2⟩ [0x03, 0x99, 0xFF, 0xFF, 0xB1, 0xBF]
        [⟨0, 4, 5, none⟩] ⟨#[], 0, ∅⟩ ⟨[], ∅, false⟩ with
  | error => simp [found, Except.toOption] at finishes
  | ok analysis =>
      obtain ⟨insns, decoded, sound, _⟩ := isSound_of_ofCode (by simp) found
      exact ⟨analysis, rfl, insns, decoded, sound⟩

/-- A branch on the argument, with a null on the stack on either side. -/
def nulls : Bytes :=
  [0x1A, 0x99, 0x00, 0x07, 0x01, 0xA7, 0x00, 0x04, 0x01, 0x57, 0xB1]

/-- On one side the stack value is declared as unmerged. -/
def unmergedRules : TypeRules :=
  ⟨[], {(5, ⟨[.integer], [.unmerged]⟩)}, false⟩

/--
If a stack value is declared as unmerged and no frames are written, an analysis need not be
sound: merged with the null the value counts as an object, which it does not fit.
-/
theorem not_isSound_of_unmerged :
    ∃ analysis insns,
      ofCode ⟨"A", 0x0008, "m", "(I)V", 1⟩ nulls [] ⟨#[], 0, ∅⟩ unmergedRules = .ok analysis ∧
        Insn.decode nulls = .ok insns ∧
          ¬ analysis.IsSound ⟨⟨"A", 0x0008, "m", "(I)V", 1⟩, ⟨#[], 0, ∅⟩, false⟩ unmergedRules []
            insns := by
  have outcome :
      ((ofCode ⟨"A", 0x0008, "m", "(I)V", 1⟩ nulls [] ⟨#[], 0, ∅⟩ unmergedRules).map
          (·.states)).toOption =
        some
          [(0, ⟨[.integer], []⟩), (1, ⟨[.integer], [.integer]⟩), (4, ⟨[.integer], []⟩),
            (5, ⟨[.integer], [.unmerged]⟩), (8, ⟨[.integer], []⟩),
            (9, ⟨[.integer], [.object "java/lang/Object"]⟩), (10, ⟨[.integer], []⟩)] := by
    decide +kernel
  have decoded :
      Insn.decode nulls =
        .ok [(0, .plain 0x1A), (1, .jump 0x99 8), (4, .plain 0x01), (5, .jump Opcode.goto 9),
          (8, .plain 0x01), (9, .plain Opcode.pop), (10, .plain Opcode.voidReturn)] := by
    decide +kernel
  cases found : ofCode ⟨"A", 0x0008, "m", "(I)V", 1⟩ nulls [] ⟨#[], 0, ∅⟩ unmergedRules with
  | error => simp [found, Except.map, Except.toOption] at outcome
  | ok analysis =>
      simp only [found, Except.map, Except.toOption, Option.some.injEq] at outcome
      refine ⟨analysis, _, rfl, decoded, fun sound => ?_⟩
      obtain ⟨behind, stepSound⟩ :=
        sound.steps 3 5 (.jump Opcode.goto 9) ⟨[.integer], [.unmerged]⟩ rfl (by rw [outcome]; rfl)
      obtain ⟨position, held, means, heldAt, fits⟩ :=
        stepSound.branches 9 (List.mem_singleton_self 9)
      cases stepSound.steps
      cases means.symm.trans (rfl : _ = some 5)
      rw [outcome] at heldAt
      cases heldAt
      have undeclared : unmergedRules.declared[UInt16.ofNat 9]? = none := by decide +kernel
      rw [undeclared] at fits
      rcases fits.stack 0 with above | fixed
      · cases above
      · cases fixed

end FrameAnalysis

namespace FrameState

/-! ## Declared states -/

/-- A type that a frame can hold is known. -/
theorem ofTypeInfo_ne_unmerged
    {pool : Pool}
    {info : StackMap.TypeInfo}
    {type : SlotType}
    (found : SlotType.ofTypeInfo pool info = .ok type) :
    type ≠ .unmerged := by
  rintro rfl
  cases info with
  | object index =>
      simp only [SlotType.ofTypeInfo] at found
      split at found <;> cases found
  | _ => cases found

/-- The stack values of a frame are known. -/
theorem unmerged_not_mem_of_expandFrame
    {pool : Pool}
    {offset : UInt16}
    {previous locals stack : List SlotType}
    {frame : StackMap.Frame}
    (found : expandFrame pool offset previous frame = .ok (locals, stack)) :
    .unmerged ∉ stack := by
  cases frame with
  | same | sameExtended =>
      cases found
      simp
  | oneStack delta value | oneStackExtended delta value =>
      obtain ⟨type, typeFound, found⟩ := bind_eq_ok_iff.mp found
      cases found
      simpa using (ofTypeInfo_ne_unmerged typeFound).symm
  | chop delta count =>
      simp only [expandFrame] at found
      split at found
      · cases found
        simp
      · cases found
  | append delta added =>
      obtain ⟨types, _, found⟩ := bind_eq_ok_iff.mp found
      cases found
      simp
  | full delta locals values =>
      obtain ⟨localTypes, _, found⟩ := bind_eq_ok_iff.mp found
      obtain ⟨types, typesFound, found⟩ := bind_eq_ok_iff.mp found
      cases found
      intro unknown
      obtain ⟨place, inside, isUnknown⟩ := List.getElem_of_mem unknown
      have paired := mapM_eq_ok_iff.mp typesFound
      have length := paired.length_eq
      exact ofTypeInfo_ne_unmerged (paired.get (by omega) inside) isUnknown

/-- Every state that is expanded from frames has known stack values. -/
theorem knownStack_of_expandFrames
    {pool : Pool}
    {bound : UInt16}
    {states result : Std.TreeMap UInt16 FrameState}
    {previous : List SlotType}
    {frames : List (UInt16 × StackMap.Frame)}
    (earlierKnown :
      ∀ (offset : UInt16) (state : FrameState),
        states[offset]? = some state → state.KnownStack)
    (found : expandFrames pool bound states previous frames = .ok result) :
    ∀ (offset : UInt16) (state : FrameState),
      result[offset]? = some state → state.KnownStack := by
  induction frames generalizing states previous with
  | nil =>
      cases found
      exact earlierKnown
  | cons first rest inductionHypothesis =>
      obtain ⟨⟨locals, stack⟩, expanded, found⟩ := bind_eq_ok_iff.mp found
      obtain ⟨state, stateFound, found⟩ := bind_eq_ok_iff.mp found
      refine inductionHypothesis ?_ found
      intro offset held heldAt
      rw [Std.TreeMap.getElem?_insert] at heldAt
      split at heldAt
      · cases heldAt
        unfold ofCompact at stateFound
        simp only at stateFound
        split at stateFound
        · cases stateFound
        · cases stateFound
          simpa [KnownStack] using unmerged_not_mem_of_expandFrame expanded
      · exact earlierKnown offset held heldAt

/-- Every state that a method declares has known stack values. -/
theorem knownStack_of_declaredStates
    {method : MethodContext}
    {frames : List (UInt16 × StackMap.Frame)}
    {bound : UInt16}
    {pool : Pool}
    {states : Std.TreeMap UInt16 FrameState}
    (found : declaredStates method frames bound pool = .ok states)
    (offset : UInt16)
    (state : FrameState)
    (declared : states[offset]? = some state) :
    state.KnownStack := by
  obtain ⟨initial, _, found⟩ := bind_eq_ok_iff.mp found
  exact knownStack_of_expandFrames (by simp) found offset state declared

end FrameState

/-- With states that were expanded from frames an analysis is sound, whether frames are written or not. -/
theorem FrameAnalysis.isSound_of_declaredStates
    {declaring method : MethodContext}
    {frames : List (UInt16 × StackMap.Frame)}
    {bound : UInt16}
    {framePool pool : Pool}
    {states : Std.TreeMap UInt16 FrameState}
    {code : Bytes}
    {handlers : List HandlerRange}
    {hierarchy : Hierarchy}
    {emitFrames : Bool}
    {analysis : FrameAnalysis}
    (declared : FrameState.declaredStates declaring frames bound framePool = .ok states)
    (found : ofCode method code handlers pool ⟨hierarchy, states, emitFrames⟩ = .ok analysis) :
    ∃ insns,
      Insn.decode code = .ok insns ∧
        analysis.IsSound ⟨method, pool, emitFrames⟩ ⟨hierarchy, states, emitFrames⟩ handlers insns := by
  have known offset state := FrameState.knownStack_of_declaredStates declared offset state
  obtain ⟨insns, decoded, sound, _⟩ :=
    exists_isSound_of_ofCode ⟨id, fun offset state held _ => known offset state held⟩ found
  exact ⟨insns, decoded, sound⟩

end JvmClass
