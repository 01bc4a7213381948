import JvmClass.Proofs.Frame.Analysis
import JvmClass.Proofs.Frame.Below

namespace JvmClass

/-!
# The analysis finds the least states

A solution of the flow equations gives every instruction a state that covers what
control brings there.  As long as every class that a body names leads up to the
root, the states that an analysis finds are a solution, and they are below any
other one whose states the instructions take for what the analysis finds.
-/

/--
States, one for each position, that solve the flow equations of a body: what is
known on entry is below the first, and what each step and each handler is given
is below the state that control goes on to.
-/
structure FlowSolution
    (hierarchy : Hierarchy)
    (context : StepContext)
    (code : LocatedCode)
    (handlers : List HandlerRange)
    (initial : FrameState)
    (states : Nat → FrameState) : Prop where
  entry :
    ∀ offset insn,
      code.insns[0]? = some (offset, insn) → initial.Below hierarchy (states 0)
  steps :
    ∀ position offset insn,
      code.insns[position]? = some (offset, insn) →
        ∃ behind,
          insn.step context offset (states position) = .ok behind ∧
            (∀ next, code.Onward position insn next → behind.Below hierarchy (states next)) ∧
              ∀ range ∈ handlers,
                range.covers offset = true →
                  ∀ next,
                    code.positions[range.handler]? = some next →
                      FrameState.Below hierarchy ⟨(states position).locals, [range.caught]⟩
                          (states next) ∧
                        FrameState.Below hierarchy ⟨behind.locals, [range.caught]⟩ (states next)

namespace FrameAnalysis

/-- Every class that a body names has superclasses up to the root, or is an interface. -/
structure Grounds
    (hierarchy : Hierarchy)
    (context : StepContext)
    (insns : List (Nat × Insn))
    (handlers : List HandlerRange)
    (initial : FrameState) : Prop where
  entry : initial.Grounded hierarchy
  insns :
    ∀ placed ∈ insns,
      ∀ type, placed.2.Introduces context type → type.Grounded hierarchy
  handlers : ∀ range ∈ handlers, range.caught.Grounded hierarchy

section Least

variable {method : MethodContext} {insns : List (Nat × Insn)} {initial : FrameState}
  {handlers : List HandlerRange} {pool : Pool} {rules : TypeRules} {analysis : FrameAnalysis}

/-- Instructions take the states of a solution for what the analysis steps on with. -/
def Answers
    (method : MethodContext)
    (insns : List (Nat × Insn))
    (initial : FrameState)
    (handlers : List HandlerRange)
    (pool : Pool)
    (rules : TypeRules)
    (states : Nat → FrameState) : Prop :=
  ∀ position offset insn state,
    (LocatedCode.ofInsns insns).insns[position]? = some (offset, insn) →
      Takes method insns initial handlers pool rules position state →
        insn.Suits pool state (states position)

/-- A state is grounded and below that of every solution. -/
def BelowSolutions
    (method : MethodContext)
    (insns : List (Nat × Insn))
    (initial : FrameState)
    (handlers : List HandlerRange)
    (pool : Pool)
    (rules : TypeRules)
    (position : Nat)
    (state : FrameState) : Prop :=
  state.Grounded rules.hierarchy ∧
    ∀ states,
      FlowSolution rules.hierarchy ⟨method, pool, rules.emitFrames⟩ (.ofInsns insns) handlers
          initial states →
        Answers method insns initial handlers pool rules states →
          state.Below rules.hierarchy (states position)

/-- What an analysis absorbs stays below every solution. -/
theorem spares_absorb_of_belowSolutions
    {position : Nat}
    {offset : UInt16}
    {existing : Option FrameState}
    {incoming : FrameState}
    (classes : rules.hierarchy.RelatesClasses)
    (undeclared : rules.declared[offset]? = none)
    (held :
      ∀ state ∈ existing, BelowSolutions method insns initial handlers pool rules position state)
    (fed : BelowSolutions method insns initial handlers pool rules position incoming) :
    Spares (BelowSolutions method insns initial handlers pool rules position)
      (FrameState.absorb rules offset existing incoming) := by
  have spares : Spares (fun _ => True) (FrameState.absorb rules offset existing incoming) := by
    refine FrameState.spares_absorb fun state member first onFirst second onSecond _ => ?_
    obtain ⟨merged, found, _⟩ :=
      SlotType.exists_merge?_of_grounded classes ((held state member).1.stack first onFirst)
        (fed.1.stack second onSecond)
    rw [found]
    exact Option.some_ne_none merged
  cases absorbed : FrameState.absorb rules offset existing incoming with
  | error => rwa [absorbed] at spares
  | ok merged =>
      obtain ⟨grounded, least⟩ :=
        FrameState.least_of_absorb classes undeclared (fun state member => (held state member).1)
          fed.1 absorbed
      exact ⟨grounded, fun states solves answers =>
        least _ (fun state member => (held state member).2 states solves answers)
          (fed.2 states solves answers)⟩

/-- What an analysis steps on with stays below every solution. -/
theorem steers_belowSolutions
    (classes : rules.hierarchy.RelatesClasses)
    (undeclared : ∀ offset : UInt16, rules.declared[offset]? = none)
    (grounds :
      Grounds rules.hierarchy ⟨method, pool, rules.emitFrames⟩ insns handlers initial) :
    FlowProgress.Steers ⟨method, pool, rules.emitFrames⟩ rules (.ofInsns insns) handlers
      (Takes method insns initial handlers pool rules)
      (BelowSolutions method insns initial handlers pool rules)
      (BelowSolutions method insns initial handlers pool rules) where
  absorbs _ held fed := spares_absorb_of_belowSolutions classes (undeclared _) held fed
  steps := by
    intro position offset insn before located taken accepted
    obtain ⟨grounded, least⟩ := accepted
    have spares :
        Spares
          (fun behind =>
            insn.step ⟨method, pool, rules.emitFrames⟩ offset before = .ok behind)
          (insn.step ⟨method, pool, rules.emitFrames⟩ offset before) := by
      refine Insn.spares_step fun _ access _ _ unknown => ?_
      have known := (grounded.locals access.index.toNat).ne_unmerged
      rw [List.getD_eq_getElem?_getD, unknown] at known
      exact known rfl
    refine spares.imp fun behind found => ?_
    obtain ⟨place, member⟩ := LocatedCode.exists_placed located
    have behindGrounded := Insn.grounded_of_step (grounds.insns _ member) grounded found
    have caught {state : FrameState} {range : HandlerRange} (grounded : state.Grounded rules.hierarchy)
        (listed : range ∈ handlers) :
        FrameState.Grounded rules.hierarchy ⟨state.locals, [range.caught]⟩ :=
      ⟨by simpa using grounds.handlers range listed, grounded.locals⟩
    have follows (states : Nat → FrameState)
        (solves :
          FlowSolution rules.hierarchy ⟨method, pool, rules.emitFrames⟩ (.ofInsns insns) handlers
            initial states)
        (answers : Answers method insns initial handlers pool rules states) :
        ∃ other, behind.Below rules.hierarchy other ∧
          insn.step ⟨method, pool, rules.emitFrames⟩ offset (states position) = .ok other := by
      obtain ⟨other, otherFound, below⟩ :=
        Insn.follows_step_of_below classes grounded
          (answers position offset insn before located taken)
          (least states solves answers) behind found
      exact ⟨other, below, otherFound⟩
    refine ⟨fun next onward => ⟨behindGrounded, fun states solves answers => ?_⟩,
      fun range listed covers next means =>
        ⟨⟨caught grounded listed, fun states solves answers => ?_⟩,
          ⟨caught behindGrounded listed, fun states solves answers => ?_⟩⟩⟩
    all_goals
      obtain ⟨other, below, otherFound⟩ := follows states solves answers
      obtain ⟨known, knownFound, flows, catches⟩ := solves.steps position offset insn located
      obtain rfl := Except.ok.inj (otherFound.symm.trans knownFound)
    · exact below.trans classes (flows next onward)
    · exact ((least states solves answers).caught range.caught).trans classes
        (catches range listed covers next means).1
    · exact (below.caught range.caught).trans classes (catches range listed covers next means).2

/-- Nothing is on the stack on entry, and the places that are filled up hold `top`. -/
theorem belowSolutions_entry
    (entered : FrameState.initial method = .ok initial)
    (nonempty : insns ≠ [])
    (grounded : initial.Grounded rules.hierarchy) :
    BelowSolutions method insns initial handlers pool rules 0 (entryState method insns initial) := by
  refine ⟨⟨nofun, fun place => ?_⟩, fun states solves _ => ?_⟩
  · simp only [entryState, FrameState.getD_padTo]
    exact grounded.locals place
  · obtain ⟨item, rest, rfl⟩ := List.exists_cons_of_ne_nil nonempty
    have below := solves.entry _ item.2 (LocatedCode.located_of_placed rfl)
    refine ⟨?_, fun place => ?_⟩
    · rw [entryState, ← FrameState.stack_of_initial entered]
      exact below.stack
    · simp only [entryState, FrameState.getD_padTo]
      exact below.locals place

/-- What an analysis finds is grounded and below every solution. -/
theorem belowSolutions_of_ofCode
    {code : Bytes}
    (classes : rules.hierarchy.RelatesClasses)
    (undeclared : ∀ offset : UInt16, rules.declared[offset]? = none)
    (decoded : Insn.decode code = .ok insns)
    (entered : FrameState.initial method = .ok initial)
    (grounds :
      Grounds rules.hierarchy ⟨method, pool, rules.emitFrames⟩ insns handlers initial)
    (found : ofCode method code handlers pool rules = .ok analysis)
    {position : Nat}
    {placed : UInt16 × FrameState}
    (held : analysis.states[position]? = some placed) :
    BelowSolutions method insns initial handlers pool rules position placed.2 := by
  unfold ofCode at found
  simp only [decoded, entered, bind, Except.bind, Except.mapError] at found
  split at found
  · cases found
    cases held
  · rename_i nonempty
    have nonempty : insns ≠ [] := by simpa using nonempty
    have first : ∀ offset insn, insns[0]? = some (offset, insn) → UInt16.ofNat offset = 0 := by
      have decodes := Insn.decode_eq_ok_iff.mp decoded
      cases insns with
      | nil => exact absurd rfl nonempty
      | cons first rest =>
          rintro offset insn ⟨⟩
          exact congrArg UInt16.ofNat decodes.offset_first
    have spares :=
      spares_solve first nonempty (steers_belowSolutions classes undeclared grounds)
        (fun _ _ takes => takes) (belowSolutions_entry entered nonempty grounds.entry)
    rw [found] at spares
    exact spares position placed held

end Least

/-- The state that an analysis gives to a position. -/
def stateAt (analysis : FrameAnalysis) (position : Nat) : FrameState :=
  ((analysis.states[position]?).map Prod.snd).getD ⟨[], []⟩

end FrameAnalysis

/-- Where no frame is declared, what fits a grounded state is below it. -/
theorem FrameState.Fits.below
    {hierarchy : Hierarchy}
    {incoming held : FrameState}
    (fits : FrameState.Fits hierarchy none incoming held)
    (grounded : held.Grounded hierarchy) :
    incoming.Below hierarchy held := by
  have place {type other : SlotType} (placed : PlaceFits hierarchy none type other)
      (known : other.Grounded hierarchy) : SlotType.Below hierarchy type other := by
    rcases placed with fits | impossible
    · cases fits with
      | same => exact .refl _
      | top => exact .top _
      | unmerged => exact known.elim
      | null => exact .null _
      | super above => exact .object above
    · cases impossible
  refine ⟨forall₂_iff_getD.mpr ⟨fits.height, fun index _ => ?_⟩, fun index => ?_⟩
  · exact place (fits.stack index) (getD_of_forall trivial grounded.stack index)
  · exact place (fits.locals index) (grounded.locals index)

namespace FrameAnalysis

/--
Where no frames are declared and every class that a body names leads up to the
root, the states that an analysis finds solve the flow equations, and they are
below every other solution whose states the instructions take for what the
analysis steps on with.
-/
theorem isLeast_of_ofCode
    {method : MethodContext}
    {code : Bytes}
    {insns : List (Nat × Insn)}
    {initial : FrameState}
    {handlers : List HandlerRange}
    {pool : Pool}
    {rules : TypeRules}
    {analysis : FrameAnalysis}
    (classes : rules.hierarchy.RelatesClasses)
    (undeclared : ∀ offset : UInt16, rules.declared[offset]? = none)
    (decoded : Insn.decode code = .ok insns)
    (entered : FrameState.initial method = .ok initial)
    (grounds :
      Grounds rules.hierarchy ⟨method, pool, rules.emitFrames⟩ insns handlers initial)
    (found : ofCode method code handlers pool rules = .ok analysis) :
    FlowSolution rules.hierarchy ⟨method, pool, rules.emitFrames⟩ (.ofInsns insns) handlers initial
        analysis.stateAt ∧
      ∀ states,
        FlowSolution rules.hierarchy ⟨method, pool, rules.emitFrames⟩ (.ofInsns insns) handlers
            initial states →
          Answers method insns initial handlers pool rules states →
            ∀ (position : Nat) offset held,
              analysis.states[position]? = some (offset, held) →
                held.Below rules.hierarchy (states position) := by
  have lowest {position : Nat} {placed : UInt16 × FrameState}
      (held : analysis.states[position]? = some placed) :=
    belowSolutions_of_ofCode classes undeclared decoded entered grounds found held
  refine ⟨?_, fun states solves answers position offset held placed =>
    (lowest placed).2 states solves answers⟩
  obtain ⟨_, decodedAgain, sound, _⟩ :=
    exists_isSound_of_ofCode ⟨id, fun offset state declared => by simp [undeclared] at declared⟩ found
  obtain rfl := Except.ok.inj (decoded.symm.trans decodedAgain)
  have stated {position : Nat} {offset : UInt16} {insn : Insn}
      (located : (LocatedCode.ofInsns insns).insns[position]? = some (offset, insn)) :
      analysis.states[position]? = some (offset, analysis.stateAt position) := by
    have offsets := congrArg (·[position]?) sound.aligned
    rw [← Array.getElem?_toList, LocatedCode.toList_insns_ofInsns] at located
    simp only [List.getElem?_map, located, Option.map_some] at offsets
    obtain ⟨⟨place, state⟩, held, rfl⟩ := Option.map_eq_some_iff.mp offsets
    simp [stateAt, held]
  have covered {offset : UInt16} {incoming : FrameState} {next : Nat}
      (covers : analysis.Covers rules (.ofInsns insns) offset incoming)
      (means : (LocatedCode.ofInsns insns).positions[offset]? = some next) :
      incoming.Below rules.hierarchy (analysis.stateAt next) := by
    obtain ⟨position, held, meant, heldAt, fits⟩ := covers
    obtain rfl := Option.some.inj (meant.symm.trans means)
    rw [undeclared] at fits
    have below := fits.below (lowest heldAt).1
    simpa [stateAt, heldAt] using below
  obtain ⟨_, enteredAgain, entry⟩ := sound.entry
  obtain rfl := Except.ok.inj (entered.symm.trans enteredAgain)
  refine ⟨fun offset insn located => ?_, fun position offset insn located => ?_⟩
  · have fits := entry offset _ (stated located)
    rw [undeclared] at fits
    exact fits.below (lowest (stated located)).1
  · obtain ⟨behind, stepSound⟩ := sound.steps position offset insn _ located (stated located)
    refine ⟨behind, stepSound.steps, ?_, fun range listed covers next means => ?_⟩
    · rintro next ⟨successor, means, ⟨target, listed, rfl⟩ | ⟨continues, placed⟩⟩
      · exact covered (stepSound.branches target listed) means
      · obtain ⟨following, placedAgain, covers⟩ := stepSound.fallsThrough continues
        obtain rfl := Option.some.inj (placedAgain.symm.trans placed)
        exact covered covers means
    · obtain ⟨first, second⟩ := stepSound.handlers range listed covers
      exact ⟨covered first means, covered second means⟩

open FrameState

/-- An instruction in the range of two handlers, which share their code. -/
def caughtTwice : List (Nat × Insn) :=
  [(0, .plain 0x00), (1, .plain 0xB1), (2, .plain 0xBF)]

/-- The handlers of `caughtTwice`, one for each of two siblings. -/
def siblingHandlers : List HandlerRange :=
  [⟨0, 1, 2, some "c/Left"⟩, ⟨0, 1, 2, some "c/Right"⟩]

/-- A solution for `caughtTwice` whose handlers find an object of the root class. -/
def rootCaught (position : Nat) : FrameState :=
  if position = 2 then ⟨[], [.object objectName]⟩ else ⟨[], []⟩

theorem located_caughtTwice
    {position : Nat}
    {offset : UInt16}
    {insn : Insn}
    (located : (LocatedCode.ofInsns caughtTwice).insns[position]? = some (offset, insn)) :
    position = 0 ∧ offset = 0 ∧ insn = .plain 0x00 ∨ position = 1 ∧ offset = 1 ∧ insn = .plain 0xB1 ∨
      position = 2 ∧ offset = 2 ∧ insn = .plain 0xBF := by
  rw [LocatedCode.getElem?_insns_ofInsns] at located
  match position, located with
  | 0, located | 1, located | 2, located =>
      cases located
      decide

theorem flowSolution_rootCaught :
    FlowSolution siblings ⟨⟨"A", 8, "m", "()V", 0⟩, ⟨#[], 0, ∅⟩, true⟩ (.ofInsns caughtTwice)
      siblingHandlers ⟨[], []⟩ rootCaught := by
  refine ⟨fun _ _ _ => .refl _, fun position offset insn located => ?_⟩
  rcases located_caughtTwice located with ⟨rfl, rfl, rfl⟩ | ⟨rfl, rfl, rfl⟩ | ⟨rfl, rfl, rfl⟩
  · refine ⟨⟨[], []⟩, rfl, ?_, fun range listed _ next means => ?_⟩
    · intro next onward
      obtain rfl : next = 1 := onward.eq_of_agree (by decide +kernel) (by decide +kernel)
      exact .refl _
    · have atHandler : (LocatedCode.ofInsns caughtTwice).positions[(2 : UInt16)]? = some 2 := by
        decide +kernel
      have caught (name : String) :
          FrameState.Below siblings ⟨[], [.object name]⟩ (rootCaught 2) :=
        ⟨.cons (.object (.root _)) .nil, fun _ => .refl _⟩
      rcases listed with _ | ⟨_, _ | ⟨_, ⟨⟩⟩⟩
      · obtain rfl := Option.some.inj (atHandler.symm.trans means)
        exact ⟨caught _, caught _⟩
      · obtain rfl := Option.some.inj (atHandler.symm.trans means)
        exact ⟨caught _, caught _⟩
  all_goals
    refine ⟨⟨[], []⟩, rfl, ?_, fun range listed covers => ?_⟩
    · rintro next ⟨_, _, ⟨_, ⟨⟩, _⟩ | ⟨⟨⟩, _⟩⟩
    · rcases listed with _ | ⟨_, _ | ⟨_, ⟨⟩⟩⟩ <;> cases covers

/-- Plain instructions bring in no class but the root. -/
theorem grounded_of_plain
    {hierarchy : Hierarchy}
    {context : StepContext}
    {code : Opcode}
    {type : SlotType}
    (introduces : (Insn.plain code).Introduces context type) :
    type.Grounded hierarchy := by
  cases introduces with
  | null => trivial
  | kind _ kind => exact SlotType.grounded_ofKind kind
  | result calls | constructed calls => cases calls

theorem grounds_caughtTwice :
    Grounds siblings ⟨⟨"A", 8, "m", "()V", 0⟩, ⟨#[], 0, ∅⟩, true⟩ caughtTwice siblingHandlers
      ⟨[], []⟩ := by
  have base : Hierarchy.Extends siblings "c/Base" objectName :=
    ⟨by decide, .aClass objectName, by decide, rfl, rfl⟩
  have below {name : String} (named : siblings.lookup name = some (.aClass "c/Base"))
      (plain : ∀ rest, name.toList ≠ '[' :: rest) (notRoot : name ≠ objectName) :
      Hierarchy.Grounded siblings name.toList := by
    refine .aClass plain (.inl ?_)
    rw [String.ofList_toList]
    exact .head ⟨notRoot, _, named, rfl, rfl⟩ (.single base)
  refine ⟨⟨nofun, fun _ => trivial⟩, fun placed member type introduces => ?_, fun range listed => ?_⟩
  · rcases member with _ | ⟨_, _ | ⟨_, _ | ⟨_, ⟨⟩⟩⟩⟩ <;> exact grounded_of_plain introduces
  · rcases listed with _ | ⟨_, _ | ⟨_, ⟨⟩⟩⟩
    · exact below (by decide) (by simp) (by decide)
    · exact below (by decide) (by simp) (by decide)

theorem answers_rootCaught :
    Answers ⟨"A", 8, "m", "()V", 0⟩ caughtTwice ⟨[], []⟩ siblingHandlers ⟨#[], 0, ∅⟩
      ⟨siblings, ∅, true⟩ rootCaught := by
  intro position offset insn state located _
  rcases located_caughtTwice located with ⟨rfl, rfl, rfl⟩ | ⟨rfl, rfl, rfl⟩ | ⟨rfl, rfl, rfl⟩
  all_goals
    refine ⟨rfl, ?_, fun acts => absurd acts (by decide)⟩
    rintro count receiver ⟨⟩

/-- Two siblings that are caught by the same code are found there as their common superclass. -/
theorem isLeast_of_siblings :
    ∃ analysis,
      Insn.decode [0x00, 0xB1, 0xBF] = .ok caughtTwice ∧
        FrameState.initial ⟨"A", 8, "m", "()V", 0⟩ = .ok ⟨[], []⟩ ∧
        siblings.RelatesClasses ∧
        Grounds siblings ⟨⟨"A", 8, "m", "()V", 0⟩, ⟨#[], 0, ∅⟩, true⟩ caughtTwice siblingHandlers
          ⟨[], []⟩ ∧
        ofCode ⟨"A", 8, "m", "()V", 0⟩ [0x00, 0xB1, 0xBF] siblingHandlers ⟨#[], 0, ∅⟩
          ⟨siblings, ∅, true⟩ = .ok analysis ∧
        analysis.states = [(0, ⟨[], []⟩), (1, ⟨[], []⟩), (2, ⟨[], [.object "c/Base"]⟩)] ∧
        FlowSolution siblings ⟨⟨"A", 8, "m", "()V", 0⟩, ⟨#[], 0, ∅⟩, true⟩ (.ofInsns caughtTwice)
          siblingHandlers ⟨[], []⟩ analysis.stateAt ∧
        FrameState.Below siblings ⟨[], [.object "c/Base"]⟩ (rootCaught 2) := by
  have decoded : Insn.decode [0x00, 0xB1, 0xBF] = .ok caughtTwice := by decide +kernel
  have entered : FrameState.initial ⟨"A", 8, "m", "()V", 0⟩ = .ok ⟨[], []⟩ := by decide +kernel
  have evaluated :
      (ofCode ⟨"A", 8, "m", "()V", 0⟩ [0x00, 0xB1, 0xBF] siblingHandlers ⟨#[], 0, ∅⟩
        ⟨siblings, ∅, true⟩).toOption.map FrameAnalysis.states =
          some [(0, ⟨[], []⟩), (1, ⟨[], []⟩), (2, ⟨[], [.object "c/Base"]⟩)] := by
    decide +kernel
  obtain ⟨analysis, found, states⟩ := Option.map_eq_some_iff.mp evaluated
  have found := toOption_eq_some_iff.mp found
  obtain ⟨solution, least⟩ :=
    isLeast_of_ofCode relatesClasses_siblings (fun _ => rfl) decoded entered grounds_caughtTwice found
  exact ⟨analysis, decoded, entered, relatesClasses_siblings, grounds_caughtTwice, found, states,
    solution,
    least rootCaught flowSolution_rootCaught answers_rootCaught 2 2 _ (by rw [states]; rfl)⟩


/-- A null array has an element stored, which is held where a jump goes on. -/
def nullElement : List (Nat × Insn) :=
  [(0, .plain 0x01), (1, .plain 0x03), (2, .plain 0x32), (3, .plain 0x4B), (4, .jump 0xA7 7),
    (7, .plain 0xB1)]

/-- A solution for `nullElement` that takes null for an array of arrays of `int`. -/
def elementStates : List FrameState :=
  [⟨[.top], []⟩, ⟨[.top], [.object "[[I"]⟩, ⟨[.top], [.integer, .object "[[I"]⟩,
    ⟨[.top], [.object "[I"]⟩, ⟨[.object "[I"], []⟩, ⟨[.object "[I"], []⟩]

theorem flowSolution_elementStates :
    FlowSolution [.table .empty] ⟨⟨"A", 8, "m", "()V", 1⟩, ⟨#[], 0, ∅⟩, true⟩ (.ofInsns nullElement)
      [] ⟨[], []⟩ (elementStates.getD · ⟨[], []⟩) := by
  refine ⟨fun _ _ _ => ⟨.nil, fun place => ?_⟩, fun position offset insn located => ?_⟩
  · match place with
    | 0 => exact .refl _
    | _ + 1 => exact .refl _
  · rw [LocatedCode.getElem?_insns_ofInsns] at located
    match position, located with
    | 0, located =>
        cases located
        refine ⟨⟨[.top], [.null]⟩, by decide +kernel, fun next onward => ?_, nofun⟩
        obtain rfl : next = 1 := onward.eq_of_agree (by decide +kernel) (by decide +kernel)
        exact ⟨.cons (.null _) .nil, fun _ => .refl _⟩
    | 1, located =>
        cases located
        refine ⟨⟨[.top], [.integer, .object "[[I"]⟩, by decide +kernel, fun next onward => ?_, nofun⟩
        obtain rfl : next = 2 := onward.eq_of_agree (by decide +kernel) (by decide +kernel)
        exact .refl _
    | 2, located =>
        cases located
        refine ⟨⟨[.top], [.object "[I"]⟩, by decide +kernel, fun next onward => ?_, nofun⟩
        obtain rfl : next = 3 := onward.eq_of_agree (by decide +kernel) (by decide +kernel)
        exact .refl _
    | 3, located =>
        cases located
        refine ⟨⟨[.object "[I"], []⟩, by decide +kernel, fun next onward => ?_, nofun⟩
        obtain rfl : next = 4 := onward.eq_of_agree (by decide +kernel) (by decide +kernel)
        exact .refl _
    | 4, located =>
        cases located
        refine ⟨⟨[.object "[I"], []⟩, by decide +kernel, fun next onward => ?_, nofun⟩
        obtain rfl : next = 5 := onward.eq_of_agree (by decide +kernel) (by decide +kernel)
        exact .refl _
    | 5, located =>
        cases located
        exact ⟨⟨[.object "[I"], []⟩, by decide +kernel,
          fun next ⟨_, _, continues⟩ => by rcases continues with ⟨_, ⟨⟩, _⟩ | ⟨⟨⟩, _⟩, nofun⟩

/--
Where a solution takes null for an array of other elements than the analysis
does, what the analysis finds need not be below it.
-/
theorem exists_not_below_solution :
    ∃ analysis,
      Insn.decode [0x01, 0x03, 0x32, 0x4B, 0xA7, 0x00, 0x03, 0xB1] = .ok nullElement ∧
        FrameState.initial ⟨"A", 8, "m", "()V", 1⟩ = .ok ⟨[], []⟩ ∧
        Hierarchy.RelatesClasses [.table .empty] ∧
        Grounds [.table .empty] ⟨⟨"A", 8, "m", "()V", 1⟩, ⟨#[], 0, ∅⟩, true⟩ nullElement [] ⟨[], []⟩ ∧
        ofCode ⟨"A", 8, "m", "()V", 1⟩ [0x01, 0x03, 0x32, 0x4B, 0xA7, 0x00, 0x03, 0xB1] []
          ⟨#[], 0, ∅⟩ ⟨[.table .empty], ∅, true⟩ = .ok analysis ∧
        FlowSolution [.table .empty] ⟨⟨"A", 8, "m", "()V", 1⟩, ⟨#[], 0, ∅⟩, true⟩
          (.ofInsns nullElement) [] ⟨[], []⟩ (elementStates.getD · ⟨[], []⟩) ∧
        analysis.states[5]? = some (7, ⟨[.object objectName], []⟩) ∧
        ¬ FrameState.Below [.table .empty] ⟨[.object objectName], []⟩
          (elementStates.getD 5 ⟨[], []⟩) := by
  have evaluated :
      (ofCode ⟨"A", 8, "m", "()V", 1⟩ [0x01, 0x03, 0x32, 0x4B, 0xA7, 0x00, 0x03, 0xB1] []
        ⟨#[], 0, ∅⟩ ⟨[.table .empty], ∅, true⟩).toOption.map (·.states[5]?) =
          some (some (7, ⟨[.object objectName], []⟩)) := by
    decide +kernel
  obtain ⟨analysis, found, held⟩ := Option.map_eq_some_iff.mp evaluated
  refine ⟨analysis, by decide +kernel, by decide +kernel, ?_, ?_, toOption_eq_some_iff.mp found,
    flowSolution_elementStates, held, fun below => ?_⟩
  · exact Hierarchy.relatesClasses_of_table (by decide)
  · refine ⟨⟨nofun, fun _ => trivial⟩, fun placed member type introduces => ?_, nofun⟩
    rcases member with _ | ⟨_, _ | ⟨_, _ | ⟨_, _ | ⟨_, _ | ⟨_, _ | ⟨_, ⟨⟩⟩⟩⟩⟩⟩⟩
    case tail.tail.tail.tail.head =>
      cases introduces with
      | kind _ kind => exact SlotType.grounded_ofKind kind
      | result calls | constructed calls => cases calls
    all_goals exact grounded_of_plain introduces
  · have above : SlotType.Below [.table .empty] (.object objectName) (.object "[I") :=
      below.locals 0
    generalize held : SlotType.object "[I" = other at above
    cases above with
    | refl => exact absurd held (by decide)
    | top => cases held
    | object above =>
        cases held
        exact absurd above.of_root (by decide)

end FrameAnalysis
end JvmClass
