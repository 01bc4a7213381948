import JvmClass.Proofs.Verify.Widened
import JvmClass.Proofs.Weave.Placed

namespace JvmClass

/-!
# Depths along expanded bodies

Along an expanded body the depth check goes by the states in front of its blocks.  If
each block runs through without a finding, and what it leads to begins with a state
that promises no more, there is a fixed point that holds these states.
-/

/-- What the depth check is to find along an expanded body. -/
structure Depths where
  expansion : Expansion
  /-- The expanded body at its offsets. -/
  written : List (Nat × Insn)
  context : DepthContext
  handlers : List HandlerEntry
  entry : DepthState
  /-- The state in front of each block that is reached. -/
  states : Nat → Option DepthState

namespace Depths

section Definitions

variable (depths : Depths)

/-- The first instructions from a position on. -/
def row (start count : Nat) : List Insn :=
  ((depths.written.map Prod.snd).drop start).take count

/-- A state that was taken through the first instructions from a position on. -/
def behind (start count : Nat) (state : DepthState) : DepthState :=
  state.through depths.context (depths.row start count)

/-- The states that are to be found at positions. -/
inductive Holds : Nat → DepthState → Prop
  | entry
      {place : Nat}
      (inside : place < depths.expansion.entry.length) :
      Holds place (depths.behind 0 place depths.entry)
  | block
      {index place : Nat}
      {item : Origin × Insn}
      {state : DepthState}
      (listed : depths.expansion.items[index]? = some item)
      (inside : place ≤ (depths.expansion.ahead item).length)
      (begins : depths.states index = some state) :
      Holds (depths.expansion.start index + place)
        (depths.behind (depths.expansion.start index) place state)

/-- A block begins with a state that promises no more than a state. -/
def Begins (index : Nat) (state : DepthState) : Prop :=
  ∃ item held,
    depths.expansion.items[index]? = some item ∧
      depths.states index = some held ∧ state.Weakens held

/-- An offset means the beginning of a block, which promises no more than a state. -/
def Lands (offset : UInt16) (state : DepthState) : Prop :=
  ∃ index,
    (LocatedCode.ofInsns depths.written).positions[offset]? =
        some (depths.expansion.start index) ∧
      depths.Begins index state

/-- What is inserted at the start runs through, and leads to the first block. -/
structure Enters : Prop where
  clean : depths.entry.RunsClean depths.context (depths.row 0 depths.expansion.entry.length)
  begins : depths.Begins 0 (depths.behind 0 depths.expansion.entry.length depths.entry)

/-- A block runs through from a state, and what it leads to begins with no more. -/
structure Passes (index : Nat) (item : Origin × Insn) (state : DepthState) : Prop where
  clean :
    state.RunsClean depths.context
      (depths.row (depths.expansion.start index) ((depths.expansion.ahead item).length + 1))
  targets :
    ∀ offset insn,
      depths.written[depths.expansion.start index + (depths.expansion.ahead item).length]? =
          some (offset, insn) →
        ∀ target ∈ insn.targets,
          depths.Lands (UInt16.ofNat target)
            (depths.behind (depths.expansion.start index)
              ((depths.expansion.ahead item).length + 1) state)
  falls :
    item.2.opcode.endsFlow = false →
      depths.Begins (index + 1)
        (depths.behind (depths.expansion.start index)
          ((depths.expansion.ahead item).length + 1) state)

/-- Every block passes from its state, and exceptions are caught where their handlers begin. -/
structure Balanced : Prop where
  enters : depths.Enters
  passes :
    ∀ index item state,
      depths.expansion.items[index]? = some item →
        depths.states index = some state → depths.Passes index item state
  /-- No handler covers what is inserted at the start. -/
  uncaught :
    ∀ place offset insn,
      place < depths.expansion.entry.length →
        depths.written[place]? = some (offset, insn) →
          ∀ handler ∈ depths.handlers, handler.covers (UInt16.ofNat offset) = false
  caught :
    ∀ index item state place offset insn,
      depths.expansion.items[index]? = some item →
        depths.states index = some state →
          place ≤ (depths.expansion.ahead item).length →
            depths.written[depths.expansion.start index + place]? = some (offset, insn) →
              ∀ handler ∈ depths.handlers,
                handler.covers (UInt16.ofNat offset) = true →
                  depths.Lands handler.handler ⟨1, state.assigned⟩

end Definitions

section Rows

variable {depths : Depths}

/-- What stands in a row is what lies at a position. -/
theorem getElem?_row
    {start count place offset : Nat}
    {insn : Insn}
    (inside : place < count)
    (placed : depths.written[start + place]? = some (offset, insn)) :
    (depths.row start count)[place]? = some insn := by
  rw [row, List.getElem?_take_of_lt inside, List.getElem?_drop, List.getElem?_map, placed]
  rfl

theorem take_row
    {start place count : Nat}
    (inside : place ≤ count) :
    (depths.row start count).take place = depths.row start place := by
  rw [row, List.take_take, Nat.min_eq_left inside]
  rfl

@[simp] theorem behind_zero
    (start : Nat)
    (state : DepthState) :
    depths.behind start 0 state = state := by
  simp [behind, row]

/-- Behind one more instruction lies what its step gives. -/
theorem behind_succ
    {start place offset : Nat}
    {insn : Insn}
    (state : DepthState)
    (placed : depths.written[start + place]? = some (offset, insn)) :
    depths.behind start (place + 1) state =
      ((depths.behind start place state).step depths.context insn).1 := by
  have listed := getElem?_row (Nat.lt_succ_self place) placed
  have stepped := @DepthState.through_take_succ depths.context state _ _ _ listed
  rw [take_row (Nat.le_succ place), take_row (Nat.le_refl _)] at stepped
  exact stepped

/-- An instruction of a row that runs through finds nothing wrong. -/
theorem clean_of_runsClean
    {start count place offset : Nat}
    {insn : Insn}
    {state : DepthState}
    (clean : state.RunsClean depths.context (depths.row start count))
    (inside : place < count)
    (placed : depths.written[start + place]? = some (offset, insn)) :
    ((depths.behind start place state).step depths.context insn).2 = [] := by
  have found := clean place insn (getElem?_row inside placed)
  rwa [take_row (Nat.le_of_lt inside)] at found

end Rows

/-! ## The fixed point -/

section Fixpoint

variable {depths : Depths}

/-- At a position one state is to be found. -/
theorem Holds.unique
    {position : Nat}
    {first second : DepthState}
    (holds : depths.Holds position first)
    (other : depths.Holds position second) :
    first = second := by
  cases holds with
  | entry inside =>
      generalize same : position = later at other
      cases other with
      | entry _ => rw [← same]
      | @block index _ _ _ _ _ _ =>
          have := @Expansion.le_start depths.expansion index
          omega
  | @block index place item state listed inside begins =>
      generalize same : depths.expansion.start index + place = later at other
      cases other with
      | entry within =>
          have := @Expansion.le_start depths.expansion index
          omega
      | @block otherIndex otherPlace otherItem otherState otherListed within otherBegins =>
          obtain rfl := Expansion.index_eq listed inside otherListed within same
          obtain rfl := Nat.add_left_cancel same
          cases begins.symm.trans otherBegins
          rfl

/-- A state is to be found only where an instruction lies. -/
theorem Holds.exists_spot
    {position : Nat}
    {state : DepthState}
    (holds : depths.Holds position state) :
    ∃ insn, depths.expansion.Spot (fun _ => True) position insn := by
  cases holds with
  | entry inside => exact ⟨_, .entry (List.getElem?_eq_getElem inside)⟩
  | block listed inside begins =>
      rcases Nat.lt_or_eq_of_le inside with before | rfl
      · exact ⟨_, .inserted trivial listed (List.getElem?_eq_getElem before)⟩
      · exact ⟨_, .kept trivial listed⟩

/-- A block that begins leads to a state that is to be found where it begins. -/
theorem Begins.exists_holds
    {index : Nat}
    {state : DepthState}
    (begins : depths.Begins index state) :
    ∃ held,
      depths.Holds (depths.expansion.start index) held ∧ state.Weakens held := by
  obtain ⟨item, held, listed, heldAt, weakens⟩ := begins
  have holds := @Holds.block depths index 0 item held listed (Nat.zero_le _) heldAt
  rw [behind_zero] at holds
  exact ⟨held, holds, weakens⟩

/-- States at positions are those that are to be found. -/
def Represents
    (depths : Depths)
    (states : Array (Option DepthState)) : Prop :=
  ∀ position held, states.getD position none = some held ↔ depths.Holds position held

/-- Where control lands there is a state, which promises no more. -/
theorem Represents.leads
    {states : Array (Option DepthState)}
    {offset : UInt16}
    {state : DepthState}
    (represents : depths.Represents states)
    (lands : depths.Lands offset state) :
    DepthProgress.Leads (.ofInsns depths.written) states offset state := by
  obtain ⟨index, means, begins⟩ := lands
  obtain ⟨held, holds, weakens⟩ := begins.exists_holds
  exact ⟨_, held, means, (represents _ _).mpr holds, weakens⟩

/-- The first position has a state that promises no more than the state on entry. -/
theorem Represents.first
    {states : Array (Option DepthState)}
    (represents : depths.Represents states)
    (enters : depths.Enters) :
    ∃ held, states.getD 0 none = some held ∧ depths.entry.Weakens held := by
  rcases Nat.eq_zero_or_pos depths.expansion.entry.length with none | inside
  · have begins := enters.begins
    rw [none, behind_zero] at begins
    obtain ⟨held, holds, weakens⟩ := begins.exists_holds
    rw [Expansion.start_zero, none] at holds
    exact ⟨held, (represents _ _).mpr holds, weakens⟩
  · have holds := @Holds.entry depths 0 inside
    rw [behind_zero] at holds
    exact ⟨_, (represents _ _).mpr holds, .refl _⟩

variable
  {resolves : Insn → Insn → Prop} {pool : Pool} {code : CodeAttribute Attribute} {body : Body}
  {decoded : Body.Decoded} {tables : Body.Tables} {place : Label → Nat} {size : Nat}
  {states : Array (Option DepthState)} {position index : Nat} {insn : Insn}
  {item : Origin × Insn} {state held : DepthState}
  (laid : depths.expansion.Laid resolves pool code body decoded tables place depths.written size)
include laid

/-- There are states that are those to be found. -/
theorem exists_represents : ∃ states, depths.Represents states := by
  refine @DepthProgress.exists_states depths.Holds depths.written.length
    (fun _ _ _ => Holds.unique) fun position held holds => ?_
  obtain ⟨insn, spot⟩ := holds.exists_spot
  obtain ⟨_, _, placed, _⟩ := laid.exists_item spot
  exact (List.getElem?_eq_some_iff.mp placed).1

section Settled

variable (represents : depths.Represents states)
include represents

/-- Control that falls through meets the state of the next position. -/
theorem Represents.falls
    (spot : depths.expansion.Spot (fun _ => True) (position + 1) insn)
    (holds : depths.Holds (position + 1) held)
    (weakens : state.Weakens held) :
    ∃ next,
      (LocatedCode.ofInsns depths.written).offsetAfter? position = some next ∧
        DepthProgress.Leads (.ofInsns depths.written) states next state := by
  obtain ⟨offset, resolved, placed, _⟩ := laid.exists_item spot
  refine ⟨UInt16.ofNat offset, ?_, _, held, laid.layout.positions_eq placed,
    (represents _ _).mpr holds, weakens⟩
  rw [LocatedCode.offsetAfter?, LocatedCode.located_of_placed placed]
  rfl

/-- Control that falls into a block meets the state that the block begins with. -/
theorem Represents.fallsInto
    (next : depths.expansion.start index = position + 1)
    (begins : depths.Begins index state) :
    ∃ next,
      (LocatedCode.ofInsns depths.written).offsetAfter? position = some next ∧
        DepthProgress.Leads (.ofInsns depths.written) states next state := by
  obtain ⟨item, _, listed, _⟩ := id begins
  obtain ⟨held, holds, weakens⟩ := begins.exists_holds
  obtain ⟨insn, spot⟩ := @Expansion.exists_spot_start _ (fun _ => True) _ _ trivial listed
  rw [next] at holds spot
  exact represents.falls laid spot holds weakens

variable (balanced : depths.Balanced)
include balanced

/-- What is inserted at the start leads to the states to be found. -/
theorem Represents.settled_entry
    (inside : position < depths.expansion.entry.length) :
    DepthProgress.Settled depths.context (.ofInsns depths.written) depths.handlers states position
      (depths.behind 0 position depths.entry) := by
  obtain ⟨insn, listed⟩ : ∃ insn, depths.expansion.entry[position]? = some insn :=
    ⟨_, List.getElem?_eq_getElem inside⟩
  have straight := laid.regular.straightEntry insn (List.mem_of_getElem? listed)
  have spot : depths.expansion.Spot (fun _ => True) position insn := .entry listed
  obtain ⟨offset, resolved, placed, _, targets, _⟩ := laid.exists_item spot
  have here : depths.written[0 + position]? = _ := (Nat.zero_add position).symm ▸ placed
  have clean := clean_of_runsClean balanced.enters.clean inside here
  refine ⟨_, _, LocatedCode.located_of_placed placed, clean, fun handler member covers => ?_,
    fun target member => ?_, fun _ => ?_⟩
  · rw [balanced.uncaught position offset _ inside placed handler member] at covers
    cases covers
  · rw [Insn.targets_mapTargets, targets, straight.1] at member
    cases member
  · have stepped := behind_succ depths.entry here
    rcases Nat.lt_or_eq_of_le (Nat.succ_le_of_lt inside) with before | last
    · have holds := @Holds.entry depths (position + 1) before
      rw [stepped] at holds
      exact represents.falls laid (.entry (List.getElem?_eq_getElem before)) holds (.refl _)
    · have begins := balanced.enters.begins
      rw [← last, Nat.succ_eq_add_one, stepped] at begins
      exact represents.fallsInto laid (by rw [Expansion.start_zero, ← last]) begins

omit laid in
/-- An exception in a block is caught where there is a state for it. -/
theorem Represents.caught
    {place offset : Nat}
    {handler : HandlerEntry}
    (listed : depths.expansion.items[index]? = some item)
    (begins : depths.states index = some state)
    (inside : place ≤ (depths.expansion.ahead item).length)
    (placed : depths.written[depths.expansion.start index + place]? = some (offset, insn))
    (member : handler ∈ depths.handlers)
    (covers : handler.covers (UInt16.ofNat offset) = true) :
    DepthProgress.Leads (.ofInsns depths.written) states handler.handler
      ⟨1, (depths.behind (depths.expansion.start index) place state).assigned⟩ := by
  obtain ⟨goal, means, goalItem, goalHeld, goalListed, goalBegins, weakens⟩ :=
    balanced.caught index item state place offset _ listed begins inside placed handler member
      covers
  exact represents.leads ⟨goal, means, goalItem, goalHeld, goalListed, goalBegins,
    (DepthState.weakens_through 1 state _).trans weakens⟩

/-- What is inserted in front of an instruction leads to the states to be found. -/
theorem Represents.settled_inserted
    {before : Nat}
    (listed : depths.expansion.items[index]? = some item)
    (begins : depths.states index = some state)
    (inFront : (depths.expansion.ahead item)[before]? = some insn) :
    DepthProgress.Settled depths.context (.ofInsns depths.written) depths.handlers states
      (depths.expansion.start index + before)
      (depths.behind (depths.expansion.start index) before state) := by
  have inside := (List.getElem?_eq_some_iff.mp inFront).1
  have passes := balanced.passes index item state listed begins
  have straight := laid.regular.straight _ insn (List.mem_of_getElem? inFront)
  have spot : depths.expansion.Spot (fun _ => True) _ insn := .inserted trivial listed inFront
  obtain ⟨offset, resolved, placed, _, targets, _⟩ := laid.exists_item spot
  have clean := clean_of_runsClean passes.clean (Nat.lt_succ_of_lt inside) placed
  refine ⟨_, _, LocatedCode.located_of_placed placed, clean, fun handler member covers => ?_,
    fun target member => ?_, fun _ => ?_⟩
  · exact represents.caught balanced listed begins (Nat.le_of_lt inside) placed member covers
  · rw [Insn.targets_mapTargets, targets, straight.1] at member
    cases member
  · have holds := @Holds.block depths index (before + 1) item state listed inside begins
    rw [behind_succ state placed, ← Nat.add_assoc] at holds
    obtain ⟨next, spot⟩ :=
      @Expansion.exists_spot_behind_inserted _ (fun _ => True) _ _ _ _ trivial listed inFront
    exact represents.falls laid spot holds (.refl _)

/-- The instruction of a block leads to the states to be found. -/
theorem Represents.settled_kept
    (listed : depths.expansion.items[index]? = some item)
    (begins : depths.states index = some state) :
    DepthProgress.Settled depths.context (.ofInsns depths.written) depths.handlers states
      (depths.expansion.start index + (depths.expansion.ahead item).length)
      (depths.behind (depths.expansion.start index) (depths.expansion.ahead item).length
        state) := by
  have passes := balanced.passes index item state listed begins
  have spot : depths.expansion.Spot (fun _ => True) _ item.2 := .kept trivial listed
  obtain ⟨offset, resolved, placed, _, _, endsFlow⟩ := laid.exists_item spot
  have clean := clean_of_runsClean passes.clean (Nat.lt_succ_self _) placed
  have stepped := behind_succ state placed
  refine ⟨_, _, LocatedCode.located_of_placed placed, clean, fun handler member covers => ?_,
    fun target member => ?_, fun continues => ?_⟩
  · exact represents.caught balanced listed begins (Nat.le_refl _) placed member covers
  · have lands := passes.targets offset _ placed target member
    rw [stepped] at lands
    exact represents.leads lands
  · rw [Insn.opcode_mapTargets, endsFlow] at continues
    have begins := passes.falls continues
    rw [stepped] at begins
    exact represents.fallsInto laid (Expansion.start_succ listed) begins

end Settled

/-- A body whose blocks are balanced has a fixed point of the states to be found along it. -/
theorem Balanced.exists_fixpoint (balanced : depths.Balanced) :
    ∃ states,
      DepthProgress.Fixpoint depths.context depths.written depths.handlers depths.entry states ∧
        depths.Represents states := by
  obtain ⟨states, represents⟩ := exists_represents laid
  refine ⟨states, ⟨represents.first balanced.enters, fun position held found => ?_⟩, represents⟩
  cases (represents position held).mp found with
  | entry inside => exact represents.settled_entry laid balanced inside
  | block listed inside begins =>
      rcases Nat.lt_or_eq_of_le inside with before | rfl
      · exact
          represents.settled_inserted laid balanced listed begins (List.getElem?_eq_getElem before)
      · exact represents.settled_kept laid balanced listed begins

end Fixpoint

end Depths

end JvmClass
