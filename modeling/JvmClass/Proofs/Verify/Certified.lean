import JvmClass.Proofs.Verify.Framed

namespace JvmClass

/-!
# Fixed points bound checks

Whatever fixed point is given for a body, the check promises at least as much at
every position that it reaches, and reaches no position that the fixed point leaves
out.  So a body that has a fixed point has nothing wrong with it but missing frames.
-/

namespace DepthState

/-! ## Steps from states that promise more -/

theorem getElem?_assign_iff
    {state : DepthState}
    {slot width other : Nat}
    (inside : slot + width ≤ state.assigned.length) :
    (state.assign slot width).1.assigned[other]? = some true ↔
      state.assigned[other]? = some true ∨ slot ≤ other ∧ other < slot + width := by
  refine ⟨getElem?_assign, fun marked => ?_⟩
  unfold assign
  simp only [if_pos inside]
  by_cases below : other < slot
  · rw [List.append_assoc, List.getElem?_append_left (by simp; omega),
      List.getElem?_take_of_lt below]
    rcases marked with old | ⟨behind, _⟩
    · exact old
    · omega
  · have front : (state.assigned.take slot).length = slot := by
      rw [List.length_take]
      omega
    by_cases within : other < slot + width
    · rw [List.append_assoc, List.getElem?_append_right (by omega),
        List.getElem?_append_left (by rw [List.length_replicate]; omega),
        List.getElem?_replicate_of_lt (by omega)]
    · have place : slot + width + (other - (slot + width)) = other := by omega
      rw [List.getElem?_append_right (by rw [List.length_append, List.length_replicate]; omega),
        List.getElem?_drop, List.length_append, List.length_replicate, front, place]
      rcases marked with old | ⟨_, before⟩
      · exact old
      · omega

variable {context : DepthContext} {insn : Insn} {state other : DepthState}

/-- What is marked behind an instruction that finds nothing wrong with the local variables. -/
theorem touchLocal_of_weakens
    (weakens : state.Weakens other)
    (clean : (other.touchLocal insn).2 = []) :
    (state.touchLocal insn).2 = [] ∧
      (state.touchLocal insn).1.Weakens (other.touchLocal insn).1 := by
  unfold touchLocal at clean ⊢
  cases touched : insn.access? with
  | none => exact ⟨rfl, weakens⟩
  | some access =>
      simp only [touched] at clean ⊢
      have reads
          (passed : other.readFindings insn.opcode access.index.toNat access.width = []) :
          state.readFindings insn.opcode access.index.toNat access.width = [] := by
        obtain ⟨inside, marked⟩ := readFindings_eq_nil_iff.mp passed
        refine readFindings_eq_nil_iff.mpr ⟨weakens.count ▸ inside, fun place from_ until_ => ?_⟩
        exact weakens.assigned place (marked place from_ until_)
      have readClean
          (passed :
            (if !access.isStore || decide (insn.opcode = Opcode.iinc) then
              other.readFindings insn.opcode access.index.toNat access.width
            else []) = []) :
          (if !access.isStore || decide (insn.opcode = Opcode.iinc) then
            state.readFindings insn.opcode access.index.toNat access.width
          else []) = [] := by
        split at passed
        · rename_i read
          rw [if_pos read]
          exact reads passed
        · rename_i silent
          rw [if_neg silent]
      cases isStore : access.isStore with
      | false =>
          simp only [isStore, Bool.false_eq_true, if_false] at clean readClean ⊢
          exact ⟨readClean clean, weakens⟩
      | true =>
          simp only [isStore, if_true] at clean readClean ⊢
          obtain ⟨read, written⟩ := List.append_eq_nil_iff.mp clean
          have inside : access.index.toNat + access.width ≤ other.assigned.length := by
            unfold assign at written
            simp only at written
            split at written
            · assumption
            · cases written
          have insideState : access.index.toNat + access.width ≤ state.assigned.length :=
            weakens.count ▸ inside
          have writtenClean : (state.assign access.index.toNat access.width).2 = [] := by
            unfold assign
            simp only [if_pos insideState]
          rw [readClean read, writtenClean]
          refine ⟨rfl, ?_, ?_, fun place marked => ?_⟩
          · rw [depth_assign, depth_assign, weakens.depth]
          · rw [length_assign, length_assign, weakens.count]
          · rw [getElem?_assign_iff inside] at marked
            rw [getElem?_assign_iff insideState]
            exact marked.imp_left (weakens.assigned place)

/-- A step that finds nothing wrong finds nothing wrong where more is promised, and keeps the promise. -/
theorem step_of_weakens
    (weakens : state.Weakens other)
    (clean : (other.step context insn).2 = []) :
    (state.step context insn).2 = [] ∧
      (state.step context insn).1.Weakens (other.step context insn).1 := by
  simp only [step, List.append_eq_nil_iff] at clean ⊢
  obtain ⟨⟨touched, returned⟩, moved⟩ := clean
  obtain ⟨touchedClean, later⟩ := touchLocal_of_weakens weakens touched
  have depth := later.depth
  have stack :
      (moveStack context (state.touchLocal insn).1 insn).2 = [] ∧
        (moveStack context (other.touchLocal insn).1 insn).1.depth =
          (moveStack context (state.touchLocal insn).1 insn).1.depth := by
    unfold moveStack at moved ⊢
    cases found : insn.effect context.pool with
    | error fault => simp [found] at moved
    | ok effect =>
        simp only [found, depth] at moved ⊢
        exact ⟨moved, trivial⟩
  refine ⟨⟨⟨touchedClean, returned⟩, stack.1⟩, stack.2, ?_, ?_⟩
  · rw [assigned_moveStack, assigned_moveStack, later.count]
  · intro slot marked
    rw [assigned_moveStack] at marked ⊢
    exact later.assigned slot marked

end DepthState

namespace DepthProgress

variable
  {context : DepthContext} {insns : List (Nat × Insn)} {handlers : List HandlerEntry}
  {entry : DepthState} {states : Array (Option DepthState)}

/-- States that are told by a relation and lie inside a body make an array. -/
theorem exists_states
    {holds : Nat → DepthState → Prop}
    {count : Nat}
    (unique :
      ∀ position first second, holds position first → holds position second → first = second)
    (inside : ∀ position held, holds position held → position < count) :
    ∃ states : Array (Option DepthState),
      ∀ position held, states.getD position none = some held ↔ holds position held := by
  classical
  refine ⟨((List.range count).map fun position =>
    if found : ∃ held, holds position held then some found.choose else none).toArray, ?_⟩
  intro position held
  rw [Array.getD_eq_getD_getElem?, List.getElem?_toArray, List.getElem?_map]
  constructor
  · intro found
    cases listed : (List.range count)[position]? with
    | none => simp [listed] at found
    | some number =>
        obtain ⟨_, rfl⟩ := List.getElem?_eq_some_iff.mp listed
        simp only [listed, List.getElem_range, Option.map_some, Option.getD_some] at found
        split at found
        · rename_i known
          cases found
          exact known.choose_spec
        · cases found
  · intro holdsHere
    have known : ∃ held, holds position held := ⟨held, holdsHere⟩
    rw [List.getElem?_range (inside position held holdsHere)]
    simp only [Option.map_some, Option.getD_some, dif_pos known, Option.some.injEq]
    exact unique position _ _ known.choose_spec holdsHere

/-! ## Checks below a fixed point -/

/-- Nothing was found, and every state that was promises at least what a fixed point does. -/
structure Below
    (states : Array (Option DepthState))
    (progress : DepthProgress) : Prop where
  quiet : progress.reports = []
  promised :
    ∀ position state,
      progress.states.getD position none = some state →
        ∃ held, states.getD position none = some held ∧ state.Weakens held

variable {progress : DepthProgress}

theorem Below.congr
    {after : DepthProgress}
    (below : Below states progress)
    (sameStates : after.states = progress.states)
    (sameReports : after.reports = progress.reports) :
    Below states after :=
  ⟨sameReports.trans below.quiet, sameStates ▸ below.promised⟩

theorem Below.revise
    {position : Nat}
    {state held : DepthState}
    (below : Below states progress)
    (heldAt : states.getD position none = some held)
    (weakens : state.Weakens held) :
    Below states (progress.revise position state) := by
  refine ⟨below.quiet, fun other found foundAt => ?_⟩
  simp only [DepthProgress.revise, getD_setIfInBounds] at foundAt
  split at foundAt
  · rename_i here
    obtain rfl := Option.some.inj foundAt
    exact ⟨held, here.1 ▸ heldAt, weakens⟩
  · exact below.promised other found foundAt

/-- What a fixed point leads to stays below it. -/
theorem Below.flowTo
    {code : LocatedCode}
    {source target : UInt16}
    {incoming : DepthState}
    (below : Below states progress)
    (leads : Leads code states target incoming) :
    Below states (flowTo code source incoming progress target) := by
  obtain ⟨position, held, means, heldAt, weakens⟩ := leads
  unfold DepthProgress.flowTo
  simp only [means]
  cases known : progress.states.getD position none with
  | none => exact below.revise heldAt weakens
  | some existing =>
      obtain ⟨other, otherAt, existingWeakens⟩ := below.promised position existing known
      obtain rfl := Option.some.inj (heldAt.symm.trans otherAt)
      have sameDepth : existing.depth = incoming.depth :=
        existingWeakens.depth.symm.trans weakens.depth
      simp only [sameDepth, if_true]
      split
      · exact below
      · refine below.revise heldAt ⟨existingWeakens.depth, ?_, fun slot marked => ?_⟩
        · have first := existingWeakens.count
          have second := weakens.count
          simp only [DepthState.meet, List.length_zipWith]
          omega
        · exact DepthState.getElem?_meet.mpr
            ⟨existingWeakens.assigned slot marked, weakens.assigned slot marked⟩

theorem Below.jumps
    {code : LocatedCode}
    {source : UInt16}
    {incoming : DepthState}
    {targets : List UInt16}
    (below : Below states progress)
    (leads : ∀ target ∈ targets, Leads code states target incoming) :
    Below states (targets.foldl (jumpTo code source incoming) progress) :=
  List.foldlRecOn _ _ below fun _ reached target member =>
    (reached.congr rfl rfl : Below states (DepthProgress.need _ target)).flowTo (leads target member)

/-- Stepping through an instruction stays below a fixed point. -/
theorem Below.visit
    {position : Nat}
    (below : Below states progress)
    (settled :
      ∀ position held,
        states.getD position none = some held →
          Settled context (.ofInsns insns) handlers states position held) :
    Below states (visit context (.ofInsns insns) handlers progress position) := by
  unfold DepthProgress.visit
  split
  · rename_i offset insn before located known
    obtain ⟨held, heldAt, weakens⟩ := below.promised position before known
    obtain ⟨_, _, here, clean, caught, targets, falls⟩ := settled position held heldAt
    obtain ⟨rfl, rfl⟩ := Prod.mk.inj (Option.some.inj (located.symm.trans here))
    obtain ⟨stepClean, behindWeakens⟩ := DepthState.step_of_weakens weakens clean
    have weaker {target : UInt16} {state behind : DepthState}
        (leads : Leads (.ofInsns insns) states target state)
        (promises : behind.Weakens state) :
        Leads (.ofInsns insns) states target behind := by
      obtain ⟨place, reached, means, reachedAt, reachedWeakens⟩ := leads
      exact ⟨place, reached, means, reachedAt, promises.trans reachedWeakens⟩
    have afterCaught :=
      @below.jumps _ _ (.ofInsns insns) offset ⟨1, before.assigned⟩
        ((handlers.filter (·.covers offset)).map HandlerEntry.handler) fun target member => by
          obtain ⟨entry, among, rfl⟩ := List.mem_map.mp member
          obtain ⟨listed, covers⟩ := List.mem_filter.mp among
          exact weaker (caught entry listed covers) ⟨rfl, weakens.count, weakens.assigned⟩
    simp only [stepClean, reportAll, List.foldl_nil]
    have afterTargets :=
      @afterCaught.jumps _ _ (.ofInsns insns) offset (before.step context insn).1
        (insn.targets.map UInt16.ofNat) fun target member => by
          obtain ⟨place, listed, rfl⟩ := List.mem_map.mp member
          exact weaker (targets place listed) behindWeakens
    unfold fallThrough
    cases ends : insn.opcode.endsFlow with
    | true => cases (LocatedCode.ofInsns insns).offsetAfter? position <;> exact afterTargets.congr rfl rfl
    | false =>
        obtain ⟨next, behind, leads⟩ := falls ends
        rw [behind]
        exact afterTargets.flowTo (weaker leads behindWeakens)
  · exact below

theorem Below.run
    {steps : Nat}
    (below : Below states progress)
    (settled :
      ∀ position held,
        states.getD position none = some held →
          Settled context (.ofInsns insns) handlers states position held) :
    Below states (run context (.ofInsns insns) handlers steps progress) := by
  induction steps generalizing progress with
  | zero => exact below
  | succ steps inductionHypothesis =>
      unfold DepthProgress.run
      split
      · exact below
      · rename_i position queue _
        have popped : Below states { progress with queue } := below.congr rfl rfl
        exact inductionHypothesis (popped.visit settled)

/-- A check of a body that has a fixed point finds nothing but missing frames, and stays below it. -/
theorem below_solved
    {pool : Pool}
    {isStatic : Bool}
    {type : MethodType}
    {body : CodeAttribute Attribute}
    (fits : type.argumentSize isStatic ≤ body.maxLocals.toNat)
    (fixpoint :
      Fixpoint ⟨pool, body.maxStack, type.result⟩ insns body.handlers
        (DepthState.onEntry type isStatic body.maxLocals).1 states) :
    Below states (solved pool isStatic type body insns) := by
  refine Below.run ?_ fixpoint.settled
  obtain ⟨held, heldAt, weakens⟩ := fixpoint.first
  rw [DepthState.onEntry_of_fits fits] at weakens ⊢
  refine Below.revise ⟨rfl, fun position state found => ?_⟩ heldAt weakens
  simp only [reportAll, List.foldl_nil] at found
  rw [getD_toArray_const] at found
  cases found

/-! ## What a check reports -/

/-- Looking for missing frames reports nothing else. -/
theorem mem_reports_reportMissing
    {code : LocatedCode}
    {declared : Std.TreeSet UInt16}
    {report : UInt16 × Finding}
    (member : report ∈ (progress.reportMissing code declared).reports) :
    report ∈ progress.reports ∨ report.2 = .missingFrame := by
  unfold reportMissing at member
  generalize progress.needed.toList.filter _ = missing at member
  induction missing generalizing progress with
  | nil => exact .inl member
  | cons offset offsets inductionHypothesis =>
      rcases inductionHypothesis member with known | missing
      · simp only [DepthProgress.report] at known
        split at known
        · exact .inl known
        · rcases List.mem_cons.mp known with rfl | old
          · exact .inr rfl
          · exact .inl old
      · exact .inr missing

section Checked

variable
  {pool : Pool} {access : UInt16} {descriptor : String} {type : MethodType}
  {body : CodeAttribute Attribute} {framed : Bool}
  (typed : MethodType.ofDescriptor descriptor = .ok type)
  (decoded : Insn.decode body.code = .ok insns)
  (nonempty : insns ≠ [])
  (fits : type.argumentSize (Access.isStatic access) ≤ body.maxLocals.toNat)
  (fixpoint :
    Fixpoint ⟨pool, body.maxStack, type.result⟩ insns body.handlers
      (DepthState.onEntry type (Access.isStatic access) body.maxLocals).1 states)

include typed decoded nonempty in
/-- What is wrong with a body that has instructions is wrong with them. -/
theorem mem_checkBody_iff
    {report : Option UInt16 × Finding} :
    report ∈ Verify.checkBody pool access descriptor body framed ↔
      ∃ offset finding,
        (offset, finding) ∈
            Verify.checkInsns pool (Access.isStatic access) type body framed insns ∧
          (some offset, finding) = report := by
  cases insns with
  | nil => exact absurd rfl nonempty
  | cons first rest => simp [Verify.checkBody, typed, decoded]

include typed decoded nonempty fits fixpoint

/-- Nothing is wrong with a body that has a fixed point, apart from missing frames. -/
theorem eq_missingFrame_of_fixpoint
    {report : Option UInt16 × Finding}
    (member : report ∈ Verify.checkBody pool access descriptor body framed) :
    report.2 = .missingFrame := by
  obtain ⟨offset, finding, listed, rfl⟩ := (mem_checkBody_iff typed decoded nonempty).mp member
  have quiet := (below_solved fits fixpoint).quiet
  rw [checkInsns_eq] at listed
  split at listed
  · rcases mem_reports_reportMissing listed with known | missing
    · rw [quiet] at known
      cases known
    · exact missing
  · rw [quiet] at listed
    cases listed

/-- Nothing is wrong with a body that has a fixed point and all the frames that it needs. -/
theorem checkBody_eq_nil_of_fixpoint
    (declared :
      framed = true →
        ∀ position offset target,
          (states.getD position none).isSome = true →
            Needs insns body.handlers position offset →
              (LocatedCode.ofInsns insns).positions[offset]? = some target →
                (states.getD target none).isSome = true →
                  offset ∈ Verify.declaredOffsets body) :
    Verify.checkBody pool access descriptor body framed = [] := by
  have below := below_solved fits fixpoint
  have reached {position : Nat}
      (reached : (solved pool (Access.isStatic access) type body insns).Reaches position) :
      (states.getD position none).isSome = true := by
    obtain ⟨state, found⟩ := Option.isSome_iff_exists.mp reached
    obtain ⟨held, heldAt, _⟩ := below.promised position state found
    rw [heldAt]
    rfl
  have clean : Verify.checkInsns pool (Access.isStatic access) type body framed insns = [] := by
    rw [checkInsns_eq]
    split
    · rename_i demanded
      refine (reports_reportMissing_eq_nil_iff below.quiet).mpr fun offset needed lands => ?_
      obtain ⟨position, reachedHere, needs⟩ :=
        (mem_needed_solved_iff nonempty offset).mp needed
      unfold reaches at lands
      cases means : (LocatedCode.ofInsns insns).positions[offset]? with
      | none => simp [means] at lands
      | some target =>
          simp only [means] at lands
          exact declared demanded position offset target (reached reachedHere) needs means
            (reached lands)
    · exact below.quiet
  refine List.eq_nil_iff_forall_not_mem.mpr fun report member => ?_
  obtain ⟨_, _, listed, _⟩ := (mem_checkBody_iff typed decoded nonempty).mp member
  rw [clean] at listed
  cases listed

end Checked

end DepthProgress

end JvmClass
