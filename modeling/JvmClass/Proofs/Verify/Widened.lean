import JvmClass.Proofs.Pool.Lookup
import JvmClass.Proofs.Verify.Certified

namespace JvmClass

/-!
# Depth checks with more room

An instruction moves the stack as before if the pool has grown, the stack may be
larger or there are more local variables.  So a body in which nothing is wrong keeps
its fixed point under larger sizes.
-/

namespace Insn

@[simp] theorem opcode_mapTargets
    (rename : Label → Label)
    (insn : Insn) :
    (insn.mapTargets rename).opcode = insn.opcode := by
  cases insn <;> rfl

@[simp] theorem effect_mapTargets
    (pool : Pool)
    (rename : Label → Label)
    (insn : Insn) :
    (insn.mapTargets rename).effect pool = insn.effect pool := by
  cases insn <;> rfl

/-- What an instruction does to the stack does not change when the pool grows. -/
theorem effect_of_extends
    {pool after : Pool}
    {insn : Insn}
    {effect : StackEffect}
    (kept : Entry.Extends pool.entries after.entries)
    (found : insn.effect pool = .ok effect) :
    insn.effect after = .ok effect := by
  have member {index : UInt16} {names : Member}
      (found : (pool.member index).mapError EffectFault.reference = .ok names) :
      (after.member index).mapError EffectFault.reference = .ok names :=
    mapError_eq_ok_iff.mpr (kept.memberAt (mapError_eq_ok_iff.mp found))
  cases insn with
  | plain _ | immediate _ _ | slot _ _ | classRef _ _ | jump _ _ | increment _ _ _
  | tableSwitch _ _ _ _ _ | lookupSwitch _ _ _ | multiArray _ _ _ => exact found
  | field code target | method code target =>
      cases target with
      | named _ _ _ => cases found
      | index index =>
          obtain ⟨names, held, later⟩ := bind_eq_ok_iff.mp found
          exact bind_eq_ok_iff.mpr ⟨names, member held, later⟩
  | interfaceMethod code index count =>
      obtain ⟨names, held, later⟩ := bind_eq_ok_iff.mp found
      exact bind_eq_ok_iff.mpr ⟨names, member held, later⟩
  | callSite code index =>
      obtain ⟨names, held, later⟩ := bind_eq_ok_iff.mp found
      refine bind_eq_ok_iff.mpr ⟨names, ?_, later⟩
      exact mapError_eq_ok_iff.mpr (kept.dynamicAt (mapError_eq_ok_iff.mp held))
  | load code value =>
      simp only [Insn.effect] at found ⊢
      split at found
      · rename_i wide
        rwa [if_pos wide]
      · rename_i narrow
        rw [if_neg narrow]
        cases value with
        | text _ => exact found
        | index index =>
            obtain ⟨entry, held, later⟩ := bind_eq_ok_iff.mp found
            refine bind_eq_ok_iff.mpr ⟨entry, ?_, later⟩
            exact mapError_eq_ok_iff.mpr (kept.at? (mapError_eq_ok_iff.mp held))

end Insn

namespace DepthState

/-- The targets of an instruction play no part in its step. -/
theorem step_mapTargets
    (context : DepthContext)
    (rename : Label → Label)
    (state : DepthState)
    (insn : Insn) :
    state.step context (insn.mapTargets rename) = state.step context insn := by
  cases insn <;> rfl

/-- The state with more local variables behind those it speaks of. -/
def widened
    (extra : List Bool)
    (state : DepthState) : DepthState :=
  { state with assigned := state.assigned ++ extra }

@[simp] theorem depth_widened
    (extra : List Bool)
    (state : DepthState) :
    (state.widened extra).depth = state.depth :=
  rfl

@[simp] theorem assigned_widened
    (extra : List Bool)
    (state : DepthState) :
    (state.widened extra).assigned = state.assigned ++ extra :=
  rfl

theorem Weakens.widened
    {state other : DepthState}
    (extra : List Bool)
    (weakens : state.Weakens other) :
    (state.widened extra).Weakens (other.widened extra) := by
  refine ⟨weakens.depth, by simp [weakens.count], fun slot marked => ?_⟩
  simp only [assigned_widened, List.getElem?_append, weakens.count] at marked ⊢
  split at marked
  · rename_i inside
    rw [if_pos inside]
    exact weakens.assigned slot marked
  · rename_i behind
    rwa [if_neg behind]

section Widened

variable {state : DepthState} {insn : Insn}

theorem assign_widened
    (extra : List Bool)
    {slot width : Nat}
    (inside : slot + width ≤ state.assigned.length) :
    (state.widened extra).assign slot width = ((state.assign slot width).1.widened extra, []) := by
  have insideMore : slot + width ≤ (state.assigned ++ extra).length := by
    rw [List.length_append]
    omega
  simp only [assign, if_pos insideMore, if_pos inside, widened,
    List.take_append_of_le_length (show slot ≤ state.assigned.length by omega),
    List.drop_append_of_le_length inside, List.append_assoc]

theorem readFindings_widened
    (extra : List Bool)
    {opcode : Opcode}
    {slot width : Nat}
    (clean : state.readFindings opcode slot width = []) :
    (state.widened extra).readFindings opcode slot width = [] := by
  obtain ⟨inside, marked⟩ := readFindings_eq_nil_iff.mp clean
  refine readFindings_eq_nil_iff.mpr ⟨?_, fun other from_ until_ => ?_⟩
  · rw [assigned_widened, List.length_append]
    omega
  · rw [assigned_widened, List.getElem?_append_left (by omega)]
    exact marked other from_ until_

theorem touchLocal_widened
    (extra : List Bool)
    (clean : (state.touchLocal insn).2 = []) :
    (state.widened extra).touchLocal insn = ((state.touchLocal insn).1.widened extra, []) := by
  unfold touchLocal at clean ⊢
  cases touched : insn.access? with
  | none => rfl
  | some access =>
      simp only [touched] at clean ⊢
      have reads
          (passed :
            (if !access.isStore || decide (insn.opcode = Opcode.iinc) then
              state.readFindings insn.opcode access.index.toNat access.width
            else []) = []) :
          (if !access.isStore || decide (insn.opcode = Opcode.iinc) then
            (state.widened extra).readFindings insn.opcode access.index.toNat access.width
          else []) = [] := by
        split at passed
        · rename_i read
          rw [if_pos read]
          exact readFindings_widened extra passed
        · rename_i silent
          rw [if_neg silent]
      cases isStore : access.isStore with
      | false =>
          simp only [isStore, Bool.false_eq_true, if_false] at clean reads ⊢
          rw [reads clean]
      | true =>
          simp only [isStore, if_true] at clean reads ⊢
          obtain ⟨read, written⟩ := List.append_eq_nil_iff.mp clean
          have inside : access.index.toNat + access.width ≤ state.assigned.length := by
            unfold assign at written
            simp only at written
            split at written
            · assumption
            · cases written
          rw [reads read, assign_widened extra inside]
          rfl

/--
A step without a finding is the same with more local variables, over a pool that has
grown, and for a larger stack if the state fits the smaller one.
-/
theorem step_widened
    {context wider : DepthContext}
    (extra : List Bool)
    (kept : Entry.Extends context.pool.entries wider.pool.entries)
    (sameResult : wider.result = context.result)
    (room :
      wider.maxStack = context.maxStack ∨
        state.depth ≤ context.maxStack ∧ context.maxStack ≤ wider.maxStack)
    (clean : (state.step context insn).2 = []) :
    (state.widened extra).step wider insn = ((state.step context insn).1.widened extra, []) := by
  simp only [step, List.append_eq_nil_iff] at clean ⊢
  obtain ⟨⟨touched, returned⟩, moved⟩ := clean
  have sameReturn : returnFindings wider insn = [] := by
    rw [returnFindings, sameResult]
    exact returned
  rw [touchLocal_widened extra touched, sameReturn]
  obtain ⟨effect, found, enough, fits⟩ := moveStack_eq_nil_iff.mp moved
  have widerFound := Insn.effect_of_extends kept found
  rw [depth_touchLocal] at fits
  have widerEnough : effect.pops ≤ ((state.touchLocal insn).1.widened extra).depth := enough
  have widerMoved :
      (moveStack wider ((state.touchLocal insn).1.widened extra) insn).2 = [] := by
    refine moveStack_eq_nil_iff.mpr ⟨effect, widerFound, widerEnough, fun shallow => ?_⟩
    rw [depth_widened, depth_touchLocal] at shallow ⊢
    rcases room with same | ⟨fitted, larger⟩
    · rw [same] at shallow ⊢
      exact fits shallow
    · exact UInt16.le_trans (fits fitted) larger
  rw [widerMoved, moveStack_of_effect widerFound widerEnough, moveStack_of_effect found enough]
  rfl

end Widened

/-! ## Rows of instructions -/

/-- The state behind a row of instructions. -/
def through
    (context : DepthContext)
    (state : DepthState)
    (insns : List Insn) : DepthState :=
  insns.foldl (fun state insn => (state.step context insn).1) state

/-- No instruction of a row finds anything wrong with the state behind those in front of it. -/
def RunsClean
    (context : DepthContext)
    (state : DepthState)
    (insns : List Insn) : Prop :=
  ∀ place insn,
    insns[place]? = some insn →
      ((state.through context (insns.take place)).step context insn).2 = []

section Rows

variable {context : DepthContext} {state : DepthState} {insn : Insn} {insns : List Insn}

@[simp] theorem through_nil : state.through context [] = state :=
  rfl

@[simp] theorem through_cons :
    state.through context (insn :: insns) = (state.step context insn).1.through context insns :=
  rfl

/-- Behind one more instruction of a row lies what its step gives. -/
theorem through_take_succ
    {place : Nat}
    (listed : insns[place]? = some insn) :
    state.through context (insns.take (place + 1)) =
      ((state.through context (insns.take place)).step context insn).1 := by
  simp [through, List.take_add_one, listed]

theorem runsClean_nil : state.RunsClean context [] :=
  fun _ _ listed => nomatch listed

theorem runsClean_cons_iff :
    state.RunsClean context (insn :: insns) ↔
      (state.step context insn).2 = [] ∧ (state.step context insn).1.RunsClean context insns := by
  constructor
  · intro clean
    exact ⟨clean 0 insn rfl, fun place other listed => clean (place + 1) other listed⟩
  · rintro ⟨first, later⟩ place other listed
    cases place with
    | zero =>
        cases listed
        exact first
    | succ place => exact later place other listed

/-- A step takes no mark from a local variable. -/
theorem getElem?_assigned_step
    {slot : Nat}
    (marked : state.assigned[slot]? = some true) :
    (state.step context insn).1.assigned[slot]? = some true := by
  simp only [step, assigned_moveStack]
  unfold touchLocal
  cases insn.access? with
  | none => exact marked
  | some access =>
      simp only
      split
      · by_cases inside : access.index.toNat + access.width ≤ state.assigned.length
        · exact (getElem?_assign_iff inside).mpr (.inl marked)
        · simpa only [assign, if_neg inside] using marked
      · exact marked

/-- A row of instructions neither adds nor removes local variables, and takes no mark from them. -/
theorem weakens_through
    (depth : UInt16)
    (state : DepthState)
    (insns : List Insn) :
    (DepthState.mk depth (state.through context insns).assigned).Weakens
      ⟨depth, state.assigned⟩ := by
  induction insns generalizing state with
  | nil => exact .refl _
  | cons insn insns inductionHypothesis =>
      refine
        (inductionHypothesis (state.step context insn).1).trans ⟨rfl, ?_, fun slot marked => ?_⟩
      · exact (length_step context state insn).symm
      · exact getElem?_assigned_step marked

/-- A row of instructions runs from one state to another, and finds nothing wrong. -/
inductive Runs
    (context : DepthContext) : DepthState → List Insn → DepthState → Prop
  | nil (state : DepthState) : Runs context state [] state
  | cons
      {state next last : DepthState}
      {insn : Insn}
      {insns : List Insn}
      (stepped : state.step context insn = (next, []))
      (later : Runs context next insns last) :
      Runs context state (insn :: insns) last

theorem Runs.runsClean
    {last : DepthState}
    (runs : Runs context state insns last) :
    state.RunsClean context insns := by
  induction runs with
  | nil state => exact runsClean_nil
  | cons stepped _ inductionHypothesis =>
      refine runsClean_cons_iff.mpr ⟨?_, ?_⟩
      · rw [stepped]
      · rw [stepped]
        exact inductionHypothesis

theorem Runs.through_eq
    {last : DepthState}
    (runs : Runs context state insns last) :
    state.through context insns = last := by
  induction runs with
  | nil state => rfl
  | cons stepped _ inductionHypothesis =>
      rw [through_cons, stepped]
      exact inductionHypothesis

theorem Runs.weakens
    {last : DepthState}
    (runs : Runs context state insns last) :
    (state.through context insns).Weakens last := by
  rw [runs.through_eq]
  exact .refl _

end Rows

end DepthState

namespace DepthProgress

variable
  {context : DepthContext} {insns : List (Nat × Insn)} {handlers : List HandlerEntry}
  {entry : DepthState} {states : Array (Option DepthState)}

theorem getD_map_filter
    {keeps : DepthState → Bool}
    {position : Nat}
    {held : DepthState} :
    (states.map (Option.filter keeps)).getD position none = some held ↔
      states.getD position none = some held ∧ keeps held = true := by
  simp only [Array.getD_eq_getD_getElem?, Array.getElem?_map]
  cases states[position]? with
  | none => simp
  | some state => simp [Option.filter_eq_some_iff]

/--
The states of a fixed point that fit the stack and speak of all local variables are a
fixed point by themselves, unless an exception is too much for the stack.
-/
theorem Fixpoint.exists_fitting
    (fixpoint : Fixpoint context insns handlers entry states)
    (shallow : entry.depth ≤ context.maxStack)
    (caught : handlers ≠ [] → 1 ≤ context.maxStack) :
    ∃ fitting,
      Fixpoint context insns handlers entry fitting ∧
        ∀ position held,
          fitting.getD position none = some held →
            held.depth ≤ context.maxStack ∧
              held.assigned.length = entry.assigned.length := by
  let fits (state : DepthState) : Bool :=
    decide (state.depth ≤ context.maxStack ∧
      state.assigned.length = entry.assigned.length)
  have leads {target : UInt16} {incoming : DepthState}
      (leads : Leads (.ofInsns insns) states target incoming)
      (depth : incoming.depth ≤ context.maxStack)
      (count : incoming.assigned.length = entry.assigned.length) :
      Leads (.ofInsns insns) (states.map (Option.filter fits)) target incoming := by
    obtain ⟨position, held, means, heldAt, weakens⟩ := leads
    refine ⟨position, held, means, getD_map_filter.mpr ⟨heldAt, decide_eq_true ?_⟩, weakens⟩
    rw [weakens.depth, weakens.count]
    exact ⟨depth, count⟩
  refine ⟨states.map (Option.filter fits), ⟨?_, fun position held found => ?_⟩,
    fun position held found => of_decide_eq_true (getD_map_filter.mp found).2⟩
  · obtain ⟨held, heldAt, weakens⟩ := fixpoint.first
    refine ⟨held, getD_map_filter.mpr ⟨heldAt, decide_eq_true ?_⟩, weakens⟩
    rw [weakens.depth, weakens.count]
    exact ⟨shallow, rfl⟩
  · obtain ⟨heldAt, fitting⟩ := getD_map_filter.mp found
    obtain ⟨depth, count⟩ := of_decide_eq_true fitting
    obtain ⟨offset, insn, located, clean, handled, targets, falls⟩ :=
      fixpoint.settled position held heldAt
    have behindDepth : (held.step context insn).1.depth ≤ context.maxStack := by
      simp only [DepthState.step, List.append_eq_nil_iff] at clean ⊢
      obtain ⟨effect, effectFound, enough, fits⟩ := DepthState.moveStack_eq_nil_iff.mp clean.2
      rw [DepthState.moveStack_of_effect effectFound enough]
      rw [DepthState.depth_touchLocal] at fits ⊢
      exact fits depth
    have behindCount := (DepthState.length_step context held insn).trans count
    refine ⟨offset, insn, located, clean, fun row member covers => ?_, fun target member => ?_,
      fun continues => ?_⟩
    · exact leads (handled row member covers) (caught (List.ne_nil_of_mem member)) count
    · exact leads (targets target member) behindDepth behindCount
    · obtain ⟨next, placed, later⟩ := falls continues
      exact ⟨next, placed, leads later behindDepth behindCount⟩

end DepthProgress

end JvmClass
