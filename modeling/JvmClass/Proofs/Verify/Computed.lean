import JvmClass.Body.Assemble
import JvmClass.Proofs.Frame.Analysis
import JvmClass.Proofs.Frame.Table
import JvmClass.Proofs.Verify.DepthState
import JvmClass.Proofs.Verify.Width
import JvmClass.Verify
import Mathlib.Data.List.TakeDrop

namespace JvmClass

/-!
# Computed maxima and frames pass the depth check

The depth check of a body that is written with the maxima and frames of its
analysis goes along with the analysis: the depth that it finds before an
instruction is the number of slots of the computed stack.
-/

open SlotType

/-- The kinds of defect that computed maxima and frames rule out. -/
def DefectKind.ruledOut : List DefectKind :=
  [ .stackUnderflow, .stackOverflow, .stackHeightMismatch, .localOutOfRange, .fallsOffEnd,
    .badBranchTarget, .missingFrame ]

/-- A stack takes as many slots as one that covers it, if every value of that one is known. -/
theorem stackSlots_eq_of_fits
    {hierarchy : Hierarchy}
    {incoming held : FrameState}
    (fits : FrameState.Fits hierarchy none incoming held)
    (settled : .top ∉ held.stack)
    (known : held.KnownStack) :
    stackSlots incoming.stack = stackSlots held.stack := by
  have placewise : incoming.stack.map slots = held.stack.map slots := by
    refine List.ext_getElem (by simp [fits.height]) ?_
    intro place inside heldInside
    simp only [List.length_map] at inside heldInside
    simp only [List.getElem_map]
    have member := List.getElem_mem heldInside
    have placed := fits.stack place
    simp only [FrameState.PlaceFits, FrameState.fixedAt, Option.map_none, Option.getD_none,
      List.getElem?_nil, Option.filter_none, reduceCtorEq, or_false,
      List.getD_eq_getElem?_getD, List.getElem?_eq_getElem inside,
      List.getElem?_eq_getElem heldInside, Option.getD_some] at placed
    generalize incoming.stack[place] = type at placed
    generalize heldShape : held.stack[place] = wider at placed member
    cases placed with
    | same => rfl
    | top => exact absurd member settled
    | unmerged => exact absurd member known
    | null => rfl
    | super => rfl
  simp [stackSlots_eq_sum, placewise]

namespace FrameAnalysis

/-- Every instruction finds operands and locals of the widths that it asks for. -/
structure WidthsFit
    (analysis : FrameAnalysis)
    (pool : Pool)
    (insns : List (Nat × Insn)) : Prop where
  noTop : ∀ placed ∈ analysis.states, .top ∉ placed.2.stack
  fit :
    ∀ (position : Nat) (offset : UInt16) (insn : Insn) (before : FrameState),
      (LocatedCode.ofInsns insns).insns[position]? = some (offset, insn) →
        analysis.states[position]? = some (offset, before) →
          insn.WidthsFit pool before

end FrameAnalysis

namespace DepthState

/-- Touching a local variable that exists keeps the variables and goes beyond none. -/
theorem touchLocal_of_inside
    {state : DepthState}
    {insn : Insn}
    (inside :
      ∀ access,
        insn.access? = some access →
          access.index.toNat + access.width ≤ state.assigned.length) :
    (state.touchLocal insn).1.depth = state.depth ∧
      (state.touchLocal insn).1.assigned.length = state.assigned.length ∧
        ∀ finding ∈ (state.touchLocal insn).2, finding.kind ∉ DefectKind.ruledOut := by
  have readInside
      {slot width : Nat}
      (fit : slot + width ≤ state.assigned.length) :
      ∀ finding ∈ state.readFindings insn.opcode slot width,
        finding.kind ∉ DefectKind.ruledOut := by
    unfold readFindings
    simp only
    rw [if_neg (by omega)]
    split <;> simp [Finding.kind, DefectKind.ruledOut]
  unfold touchLocal
  cases accesses : insn.access? with
  | none => simp
  | some access =>
      have fit := inside access accesses
      simp only
      cases isStore : access.isStore with
      | false =>
          simp only [Bool.not_false, Bool.true_or, if_true, Bool.false_eq_true, if_false, true_and]
          exact readInside fit
      | true =>
          simp only [assign, if_pos fit, if_true, List.append_nil]
          refine ⟨trivial, ?_, ?_⟩
          · simp
            omega
          · split
            · exact readInside fit
            · simp

/-- A stack that moves as the effect of an instruction says is neither too short nor too deep. -/
theorem step_of_moves
    (context : DepthContext)
    {state : DepthState}
    {insn : Insn}
    {move : SlotMove}
    {before behind : List SlotType}
    (effectFound : insn.effect context.pool = .ok move.effect)
    (moves : move.Moves before behind)
    (depth : state.depth.toNat = stackSlots before)
    (shallow : stackSlots behind ≤ context.maxStack.toNat)
    (inside :
      ∀ access,
        insn.access? = some access →
          access.index.toNat + access.width ≤ state.assigned.length) :
    (state.step context insn).1.depth.toNat = stackSlots behind ∧
      (state.step context insn).1.assigned.length = state.assigned.length ∧
        ∀ finding ∈ (state.step context insn).2, finding.kind ∉ DefectKind.ruledOut := by
  obtain ⟨sameDepth, sameLength, readClean⟩ := touchLocal_of_inside inside
  have bound := context.maxStack.toNat_lt
  obtain ⟨enough, moved⟩ := moves.toNat_depth depth (by omega)
  have returnClean :
      ∀ finding ∈ returnFindings context insn, finding.kind ∉ DefectKind.ruledOut := by
    unfold returnFindings
    split <;> simp [Finding.kind, DefectKind.ruledOut]
  simp only [step, moveStack, effectFound]
  have notShort : ¬ (state.touchLocal insn).1.depth < move.effect.pops := by
    rw [sameDepth]
    exact UInt16.not_lt.mpr enough
  have notDeep :
      ¬ context.maxStack <
          (state.touchLocal insn).1.depth - move.effect.pops + move.effect.pushes := by
    rw [sameDepth, UInt16.lt_iff_toNat_lt, moved]
    omega
  refine ⟨by rw [if_neg notShort, sameDepth, moved], sameLength, ?_⟩
  simp only [notShort, notDeep, if_false, decide_false, Bool.false_and, Bool.false_eq_true,
    List.append_nil, List.mem_append]
  rintro finding (found | found)
  · exact readClean finding found
  · exact returnClean finding found

end DepthState

namespace DepthProgress

/-- The depth check has found what the analysis says, and nothing that is ruled out. -/
structure Agrees
    (analysis : FrameAnalysis)
    (insns : List (Nat × Insn))
    (handlers : List HandlerRange)
    (count : Nat)
    (progress : DepthProgress) : Prop where
  states :
    ∀ position state,
      progress.states.getD position none = some state →
        state.assigned.length = count ∧
          ∃ offset held,
            analysis.states[position]? = some (offset, held) ∧
              state.depth.toNat = stackSlots held.stack
  needed :
    ∀ offset,
      offset ∈ progress.needed →
        (FrameAnalysis.frameOffsets insns handlers).contains offset = true
  clean :
    ∀ report ∈ progress.reports, report.2.kind ∉ DefectKind.ruledOut

section Agrees

variable {analysis : FrameAnalysis} {insns : List (Nat × Insn)} {handlers : List HandlerRange}
  {count : Nat}

/-- Reporting what is not ruled out keeps the agreement. -/
theorem Agrees.report
    {progress : DepthProgress}
    {offset : UInt16}
    {finding : Finding}
    (agrees : progress.Agrees analysis insns handlers count)
    (allowed : finding.kind ∉ DefectKind.ruledOut) :
    (progress.report offset finding).Agrees analysis insns handlers count := by
  unfold DepthProgress.report
  split
  · exact agrees
  · refine ⟨agrees.states, agrees.needed, ?_⟩
    intro report member
    rcases List.mem_cons.mp member with rfl | member
    · exact allowed
    · exact agrees.clean report member

theorem Agrees.reportAll
    {progress : DepthProgress}
    {findings : List Finding}
    (agrees : progress.Agrees analysis insns handlers count)
    (offset : UInt16)
    (allowed : ∀ finding ∈ findings, finding.kind ∉ DefectKind.ruledOut) :
    (progress.reportAll offset findings).Agrees analysis insns handlers count := by
  unfold DepthProgress.reportAll
  induction findings generalizing progress with
  | nil => exact agrees
  | cons finding findings inductionHypothesis =>
      exact
        inductionHypothesis (agrees.report (allowed finding (by simp)))
          fun other member => allowed other (by simp [member])

/-- Noting an offset that the analysis gives a frame keeps the agreement. -/
theorem Agrees.need
    {progress : DepthProgress}
    {offset : UInt16}
    (agrees : progress.Agrees analysis insns handlers count)
    (framed : (FrameAnalysis.frameOffsets insns handlers).contains offset = true) :
    (progress.need offset).Agrees analysis insns handlers count := by
  refine ⟨agrees.states, ?_, agrees.clean⟩
  intro other member
  rcases Std.TreeSet.mem_insert.mp member with same | member
  · rw [Std.LawfulEqCmp.eq_of_compare same] at framed
    exact framed
  · exact agrees.needed other member

/-- Giving a position a state that agrees keeps the agreement. -/
theorem Agrees.revise
    {progress : DepthProgress}
    {position : Nat}
    {state : DepthState}
    {offset : UInt16}
    {held : FrameState}
    (agrees : progress.Agrees analysis insns handlers count)
    (heldAt : analysis.states[position]? = some (offset, held))
    (depth : state.depth.toNat = stackSlots held.stack)
    (length : state.assigned.length = count) :
    (progress.revise position state).Agrees analysis insns handlers count := by
  refine ⟨?_, agrees.needed, agrees.clean⟩
  intro other otherState found
  simp only [DepthProgress.revise, getD_setIfInBounds] at found
  split at found
  · rename_i same
    obtain ⟨rfl, _⟩ := same
    cases found
    exact ⟨length, offset, held, heldAt, depth⟩
  · exact agrees.states other otherState found

end Agrees

section Solved

variable {method : MethodContext} {insns : List (Nat × Insn)} {initial : FrameState}
  {handlers : List HandlerRange} {pool : Pool} {hierarchy : Hierarchy} {emitFrames : Bool}
  {analysis : FrameAnalysis} {needed : Nat} {solved : FlowProgress}

/-- Where the analysis covers a state, the depth check may flow to with the slots of its stack. -/
theorem agrees_of_flowTo
    {progress : DepthProgress}
    {source target : UInt16}
    {state : DepthState}
    {incoming : FrameState}
    (solvedBody :
      FrameAnalysis.Solved True method insns initial handlers pool ⟨hierarchy, ∅, emitFrames⟩
        analysis needed solved)
    (noTop : ∀ placed ∈ analysis.states, .top ∉ placed.2.stack)
    (agrees : progress.Agrees analysis insns handlers needed)
    (covered : analysis.Covers ⟨hierarchy, ∅, emitFrames⟩ (.ofInsns insns) target incoming)
    (depth : state.depth.toNat = stackSlots incoming.stack)
    (length : state.assigned.length = needed) :
    (flowTo (.ofInsns insns) source state progress target).Agrees analysis insns handlers
      needed := by
  obtain ⟨position, held, means, heldAt, fits⟩ := covered
  have sameSlots : stackSlots incoming.stack = stackSlots held.stack := by
    obtain ⟨insn, located⟩ := LocatedCode.insn_of_positions means
    have known :=
      (solvedBody.sound.holds position target insn held located
        ((solvedBody.getElem?_states located).mp heldAt)).2 trivial
    have undeclared : FrameState.Fits hierarchy none incoming held := by
      simpa using fits
    exact stackSlots_eq_of_fits undeclared (noTop _ (List.mem_of_getElem? heldAt)) known
  unfold flowTo
  simp only [means]
  cases found : progress.states.getD position none with
  | none => exact agrees.revise heldAt (depth.trans sameSlots) length
  | some existing =>
      obtain ⟨existingLength, _, other, otherAt, existingDepth⟩ :=
        agrees.states position existing found
      rw [heldAt, Option.some.injEq, Prod.mk.injEq] at otherAt
      obtain ⟨rfl, rfl⟩ := otherAt
      have sameDepth : existing.depth = state.depth := UInt16.toNat_inj.mp (by omega)
      simp only [sameDepth, if_true]
      split
      · exact agrees
      · refine agrees.revise heldAt existingDepth ?_
        simp [DepthState.meet, existingLength, length]

/-- Every target of an instruction needs a frame. -/
theorem contains_frameOffsets_of_target
    {placed : Nat × Insn}
    {target : Label}
    (member : placed ∈ insns)
    (leads : target ∈ placed.2.targets) :
    (FrameAnalysis.frameOffsets insns handlers).contains (UInt16.ofNat target) = true := by
  simp only [FrameAnalysis.frameOffsets, Std.TreeSet.contains_ofList, List.contains_iff_mem,
    List.mem_append, List.mem_flatMap]
  exact .inl (.inl ⟨placed, member, List.mem_map_of_mem leads⟩)

/-- Every handler needs a frame. -/
theorem contains_frameOffsets_of_handler
    {range : HandlerRange}
    (member : range ∈ handlers) :
    (FrameAnalysis.frameOffsets insns handlers).contains range.handler = true := by
  simp only [FrameAnalysis.frameOffsets, Std.TreeSet.contains_ofList, List.contains_iff_mem,
    List.mem_append]
  exact .inr (List.mem_map_of_mem member)

/-- What stands behind an instruction that ends the flow needs a frame. -/
theorem contains_frameOffsets_of_behind
    {position : Nat}
    {offset next : UInt16}
    {insn : Insn}
    (located : (LocatedCode.ofInsns insns).insns[position]? = some (offset, insn))
    (ends : insn.opcode.endsFlow = true)
    (behind : (LocatedCode.ofInsns insns).offsetAfter? position = some next) :
    (FrameAnalysis.frameOffsets insns handlers).contains next = true := by
  simp only [FrameAnalysis.frameOffsets, Std.TreeSet.contains_ofList, List.contains_iff_mem,
    List.mem_append, List.mem_filterMap]
  refine .inl (.inr ?_)
  simp only [LocatedCode.offsetAfter?, LocatedCode.getElem?_insns_ofInsns, Option.map_map] at behind
  obtain ⟨place, placed, rfl⟩ := LocatedCode.placed_of_located located
  obtain ⟨⟨following, followingInsn⟩, followingAt, rfl⟩ := Option.map_eq_some_iff.mp behind
  refine ⟨((place, insn), (following, followingInsn)), ?_, by simp [ends]⟩
  refine List.mem_of_getElem? (i := position) ?_
  rw [List.getElem?_zip_eq_some]
  exact ⟨placed, by rw [List.getElem?_drop, Nat.add_comm]; exact followingAt⟩

/-- A handler of the exception table covers what it covers in the analysis. -/
theorem exists_range_of_entry
    {entries : List HandlerEntry}
    {offset handler : UInt16}
    (sameRanges :
      entries.map (fun entry => (entry.start, entry.stop, entry.handler)) =
        handlers.map fun range => (range.start, range.stop, range.handler))
    (caught : handler ∈ (entries.filter (·.covers offset)).map HandlerEntry.handler) :
    ∃ range ∈ handlers, range.covers offset = true ∧ range.handler = handler := by
  obtain ⟨entry, member, rfl⟩ := List.mem_map.mp caught
  obtain ⟨member, covers⟩ := List.mem_filter.mp member
  have listed := List.mem_map_of_mem
    (f := fun entry : HandlerEntry => (entry.start, entry.stop, entry.handler)) member
  rw [sameRanges] at listed
  obtain ⟨range, rangeMember, same⟩ := List.mem_map.mp listed
  simp only [Prod.mk.injEq] at same
  obtain ⟨start, stop, handler⟩ := same
  refine ⟨range, rangeMember, ?_, handler⟩
  simpa [HandlerRange.covers, HandlerEntry.covers, start, stop] using covers

/-- Stepping through an instruction keeps the agreement. -/
theorem agrees_of_visit
    {type : MethodType}
    {entries : List HandlerEntry}
    {progress : DepthProgress}
    {position : Nat}
    (solvedBody :
      FrameAnalysis.Solved True method insns initial handlers pool ⟨hierarchy, ∅, emitFrames⟩
        analysis needed solved)
    (wellFormed : ∀ placed ∈ insns, placed.2.WellFormed)
    (fit : analysis.WidthsFit pool insns)
    (constants : ∀ placed ∈ insns, placed.2.ConstantFits pool)
    (sameRanges :
      entries.map (fun entry => (entry.start, entry.stop, entry.handler)) =
        handlers.map fun range => (range.start, range.stop, range.handler))
    (agrees : progress.Agrees analysis insns handlers needed) :
    (visit ⟨pool, analysis.maxStack, type.result⟩ (.ofInsns insns) entries progress
      position).Agrees analysis insns handlers needed := by
  unfold visit
  split
  · rename_i offset insn before located known
    obtain ⟨length, there, held, heldAt, depth⟩ := agrees.states position before known
    obtain ⟨_, sameLocated⟩ := solvedBody.located_of_states heldAt
    rw [located, Option.some.injEq, Prod.mk.injEq] at sameLocated
    obtain ⟨rfl, rfl⟩ := sameLocated
    obtain ⟨behind, sound, _, shallow⟩ := solvedBody.stepSound located heldAt
    obtain ⟨place, placed⟩ := LocatedCode.exists_placed located
    obtain ⟨act, move, acts, moved, moves⟩ :=
      Insn.moves_of_step (fit.fit position _ insn held located heldAt) sound.steps
    have effectFound : insn.effect pool = .ok move.effect := by
      rw [acts.effect_eq (wellFormed _ placed) (constants _ placed), moved]
      rfl
    obtain ⟨behindDepth, behindLength, clean⟩ :=
      DepthState.step_of_moves ⟨pool, analysis.maxStack, type.result⟩ effectFound moves depth
        shallow (fun access accesses => by
          rw [length, solvedBody.counted]
          exact FrameAnalysis.le_localsNeeded_of_access placed accesses)
    have jumps
        {state : DepthState}
        {incoming : FrameState}
        {target : UInt16}
        {reached : DepthProgress}
        (reachedAgrees : reached.Agrees analysis insns handlers needed)
        (framed : (FrameAnalysis.frameOffsets insns handlers).contains target = true)
        (covered : analysis.Covers ⟨hierarchy, ∅, emitFrames⟩ (.ofInsns insns) target incoming)
        (stateDepth : state.depth.toNat = stackSlots incoming.stack)
        (stateLength : state.assigned.length = needed) :
        (jumpTo (.ofInsns insns) offset state reached target).Agrees analysis insns handlers
          needed :=
      agrees_of_flowTo solvedBody fit.noTop (reachedAgrees.need framed) covered stateDepth
        stateLength
    have caughtAgrees :
        (((entries.filter (·.covers offset)).map HandlerEntry.handler).foldl
          (jumpTo (.ofInsns insns) offset ⟨1, before.assigned⟩) progress).Agrees
            analysis insns handlers needed := by
      refine List.foldlRecOn _ _ agrees fun reached reachedAgrees handler caught => ?_
      obtain ⟨range, member, covers, rfl⟩ := exists_range_of_entry sameRanges caught
      exact
        jumps reachedAgrees (contains_frameOffsets_of_handler member)
          (sound.handlers range member covers).1 rfl length
    have targetsAgree :=
      List.foldlRecOn (insn.targets.map UInt16.ofNat)
        (jumpTo (.ofInsns insns) offset
          (before.step ⟨pool, analysis.maxStack, type.result⟩ insn).1)
        (motive := fun reached => reached.Agrees analysis insns handlers needed)
        (caughtAgrees.reportAll offset clean)
        (fun reached reachedAgrees target leads => by
          obtain ⟨label, member, rfl⟩ := List.mem_map.mp leads
          exact
            jumps reachedAgrees (contains_frameOffsets_of_target placed member)
              (sound.branches label member) behindDepth (behindLength.trans length))
    change
      (fallThrough (.ofInsns insns) offset position insn
        (before.step ⟨pool, analysis.maxStack, type.result⟩ insn).1 _).Agrees analysis insns
          handlers needed
    unfold fallThrough
    split
    · rename_i next ends following
      exact targetsAgree.need (contains_frameOffsets_of_behind located ends following)
    · exact targetsAgree
    · rename_i next falls following
      obtain ⟨_, sameFollowing, covered⟩ := sound.fallsThrough falls
      rw [following, Option.some.injEq] at sameFollowing
      subst sameFollowing
      exact
        agrees_of_flowTo solvedBody fit.noTop targetsAgree covered behindDepth
          (behindLength.trans length)
    · rename_i falls missing
      obtain ⟨_, following, _⟩ := sound.fallsThrough falls
      rw [missing] at following
      cases following
  · exact agrees

/-- Working through the queue keeps the agreement. -/
theorem agrees_of_run
    {type : MethodType}
    {entries : List HandlerEntry}
    {steps : Nat}
    {progress : DepthProgress}
    (solvedBody :
      FrameAnalysis.Solved True method insns initial handlers pool ⟨hierarchy, ∅, emitFrames⟩
        analysis needed solved)
    (wellFormed : ∀ placed ∈ insns, placed.2.WellFormed)
    (fit : analysis.WidthsFit pool insns)
    (constants : ∀ placed ∈ insns, placed.2.ConstantFits pool)
    (sameRanges :
      entries.map (fun entry => (entry.start, entry.stop, entry.handler)) =
        handlers.map fun range => (range.start, range.stop, range.handler))
    (agrees : progress.Agrees analysis insns handlers needed) :
    (run ⟨pool, analysis.maxStack, type.result⟩ (.ofInsns insns) entries steps
      progress).Agrees analysis insns handlers needed := by
  induction steps generalizing progress with
  | zero => exact agrees
  | succ steps inductionHypothesis =>
      unfold run
      split
      · exact agrees
      · rename_i position queue _
        refine inductionHypothesis ?_
        exact
          agrees_of_visit solvedBody wellFormed fit constants sameRanges
            ⟨agrees.states, agrees.needed, agrees.clean⟩

/-- Before the first instruction the depth check agrees with the analysis. -/
theorem agrees_start
    {entry : DepthState}
    (solvedBody :
      FrameAnalysis.Solved True method insns initial handlers pool ⟨hierarchy, ∅, emitFrames⟩
        analysis needed solved)
    (depth : entry.depth = 0)
    (length : entry.assigned.length = needed) :
    (start insns entry []).Agrees analysis insns handlers needed := by
  obtain ⟨held, offset, known, first, fits⟩ := solvedBody.entry
  obtain ⟨⟨_, insn⟩, located, rfl⟩ := Option.map_eq_some_iff.mp first
  have heldAt := (solvedBody.getElem?_states located).mpr known
  have empty : held.stack = [] := by
    simpa using fits.height.symm
  have sameDepth : entry.depth.toNat = stackSlots held.stack := by
    rw [empty, depth]
    rfl
  refine Agrees.revise ⟨?_, ?_, ?_⟩ heldAt sameDepth length
  · intro position state found
    simp only [reportAll, List.foldl_nil, getD_toArray_const] at found
    cases found
  · simp [reportAll]
  · simp [reportAll]

/-- Where every offset that needs a frame has one nothing is missing. -/
theorem reportMissing_of_declared
    {progress : DepthProgress}
    {code : LocatedCode}
    {declared : Std.TreeSet UInt16}
    (complete :
      ∀ offset,
        offset ∈ progress.needed → progress.reaches code offset = true →
          declared.contains offset = true) :
    progress.reportMissing code declared = progress := by
  unfold reportMissing
  have none :
      (progress.needed.toList.filter fun offset =>
        progress.reaches code offset && !declared.contains offset) = [] := by
    refine List.filter_eq_nil_iff.mpr fun offset member => ?_
    have needed := Std.TreeSet.mem_toList.mp member
    cases reached : progress.reaches code offset with
    | false => simp
    | true => simp [complete offset needed reached]
  simp [none]

end Solved

end DepthProgress

namespace FrameAnalysis

/--
A body is written as it was analysed: its code, its exception table, the maxima
and, where frames are asked for, the encoded frames.
-/
structure WrittenTo
    (analysis : FrameAnalysis)
    (code : Bytes)
    (handlers : List HandlerRange)
    (framed : Bool)
    (body : CodeAttribute Attribute) : Prop where
  code : body.code = code
  maxStack : body.maxStack = analysis.maxStack
  maxLocals : body.maxLocals = analysis.maxLocals
  handlers :
    body.handlers.map (fun entry => (entry.start, entry.stop, entry.handler)) =
      handlers.map fun range => (range.start, range.stop, range.handler)
  frames :
    framed = true →
      ∃ pool,
        ∀ table ∈ Body.tableAttribute .stackMapTable (analysis.stackMapTable pool).1,
          table ∈ body.attributes

/-- The state on entry has a place for every slot of the arguments. -/
theorem length_locals_initial
    {method : MethodContext}
    {initial : FrameState}
    (found : FrameState.initial method = .ok initial) :
    ∃ type,
      MethodType.ofDescriptor method.descriptor = .ok type ∧
        initial.locals.length = type.argumentSize (Access.isStatic method.access) := by
  obtain ⟨type, typeFound, found⟩ := bind_eq_ok_iff.mp found
  cases found
  refine ⟨type, typeFound, ?_⟩
  have expanded (field : FieldType) :
      (SlotType.ofFieldType field).expand.length = field.size := by
    rw [← slots_ofFieldType field]
    unfold SlotType.expand SlotType.slots
    split <;> rfl
  have params :
      (type.params.flatMap fun param => (SlotType.ofFieldType param).expand).length =
        type.paramSize := by
    simp [List.length_flatMap, expanded, MethodType.paramSize]
  simp only [List.length_append, params, MethodType.argumentSize]
  split
  · simp
  · split <;> simp [Nat.add_comm]

/-- Every offset that needs a frame and means an instruction has a frame in the written body. -/
theorem contains_declaredOffsets
    {analysis : FrameAnalysis}
    {code : Bytes}
    {handlers : List HandlerRange}
    {body : CodeAttribute Attribute}
    {offset : UInt16}
    (written : analysis.WrittenTo code handlers true body)
    (framed : analysis.frames.contains offset = true) :
    (Verify.declaredOffsets body).contains offset = true := by
  obtain ⟨pool, listed⟩ := written.frames rfl
  have offsets := analysis.tableOffsets_stackMapTable pool
  have member : offset ∈ analysis.frames.keys := by
    simpa using framed
  rw [← offsets] at member
  have present : Attribute.stackMapTable (analysis.stackMapTable pool).1 ∈ body.attributes := by
    refine listed _ ?_
    unfold Body.tableAttribute
    split
    · rename_i empty
      rw [List.isEmpty_iff.mp empty] at member
      cases member
    · simp
  simp only [Verify.declaredOffsets, Std.TreeSet.contains_ofList, List.contains_iff_mem,
    List.mem_flatMap]
  exact ⟨_, present, member⟩

end FrameAnalysis

namespace Verify

/-- Where the depth check of a body comes to. -/
def checkedDepths
    (pool : Pool)
    (isStatic : Bool)
    (type : MethodType)
    (body : CodeAttribute Attribute)
    (insns : List (Nat × Insn)) : DepthProgress :=
  let (entry, findings) := DepthState.onEntry type isStatic body.maxLocals
  (DepthProgress.start insns entry findings).run ⟨pool, body.maxStack, type.result⟩
    (.ofInsns insns) body.handlers (DepthProgress.stepBound insns body.maxLocals)

/-- What is found in a body was found on the way, or is a missing frame. -/
theorem checkInsns_eq
    (pool : Pool)
    (isStatic : Bool)
    (type : MethodType)
    (body : CodeAttribute Attribute)
    (framed : Bool)
    (insns : List (Nat × Insn)) :
    checkInsns pool isStatic type body framed insns =
      (if framed then
        (checkedDepths pool isStatic type body insns).reportMissing (.ofInsns insns)
          (declaredOffsets body)
      else
        checkedDepths pool isStatic type body insns).reports :=
  rfl

/--
A body that is written as it was analysed passes the depth check with the
computed maxima and frames, and the check finds the slots of the computed stack
before every instruction that it reaches.  The body has an instruction, and what
instructions take, load and find in the pool has the widths that they ask for.
-/
theorem clean_of_computed
    {method : MethodContext}
    {code : Bytes}
    {handlers : List HandlerRange}
    {pool : Pool}
    {hierarchy : Hierarchy}
    {emitFrames framed : Bool}
    {analysis : FrameAnalysis}
    {body : CodeAttribute Attribute}
    {insns : List (Nat × Insn)}
    (found :
      FrameAnalysis.ofCode method code handlers pool ⟨hierarchy, ∅, emitFrames⟩ = .ok analysis)
    (decoded : Insn.decode code = .ok insns)
    (nonempty : insns ≠ [])
    (fit : analysis.WidthsFit pool insns)
    (constants : ∀ placed ∈ insns, placed.2.ConstantFits pool)
    (written : analysis.WrittenTo code handlers framed body) :
    ∃ type,
      MethodType.ofDescriptor method.descriptor = .ok type ∧
        (∀ finding ∈ checkBody pool method.access method.descriptor body framed,
          finding.2.kind ∉ DefectKind.ruledOut) ∧
        ∀ position state,
          (checkedDepths pool (Access.isStatic method.access) type body insns).states.getD
              position none = some state →
            ∃ offset held,
              analysis.states[position]? = some (offset, held) ∧
                state.depth.toNat = SlotType.stackSlots held.stack := by
  have undeclared : FrameState.KnownDeclared True ⟨hierarchy, ∅, emitFrames⟩ :=
    ⟨fun _ => trivial, by simp⟩
  obtain ⟨sameInsns, initial, decodes, initialFound, outcome⟩ :=
    FrameAnalysis.solved_of_ofCode undeclared found
  have same := Insn.decode_eq_ok_iff.mpr decodes
  rw [decoded, Except.ok.injEq] at same
  subst same
  obtain ⟨type, typeFound, arguments⟩ := FrameAnalysis.length_locals_initial initialFound
  rcases outcome with ⟨empty, _⟩ | ⟨needed, solved, solvedBody⟩
  · exact absurd empty nonempty
  have wellFormed : ∀ placed ∈ insns, placed.2.WellFormed :=
    fun placed member => (decodes.wellFormed placed member).1
  have enough : type.argumentSize (Access.isStatic method.access) ≤ body.maxLocals.toNat := by
    rw [written.maxLocals, solvedBody.maxLocals, solvedBody.counted, ← arguments]
    exact Nat.le_trans (Nat.le_max_right _ _) (FrameAnalysis.le_localsNeeded _ _)
  have agrees :
      (checkedDepths pool (Access.isStatic method.access) type body insns).Agrees analysis insns
        handlers needed := by
    unfold checkedDepths
    rw [DepthState.onEntry_of_fits enough, written.maxStack]
    refine
      DepthProgress.agrees_of_run solvedBody wellFormed fit constants written.handlers
        (DepthProgress.agrees_start solvedBody rfl ?_)
    simp only [List.length_append, List.length_replicate]
    rw [← solvedBody.maxLocals, ← written.maxLocals]
    omega
  refine ⟨type, typeFound, ?_, fun position state known => (agrees.states position state known).2⟩
  have complete :
      framed = true →
        (checkedDepths pool (Access.isStatic method.access) type body insns).reportMissing
            (.ofInsns insns) (declaredOffsets body) =
          checkedDepths pool (Access.isStatic method.access) type body insns := by
    rintro rfl
    refine DepthProgress.reportMissing_of_declared fun offset needed reached => ?_
    refine FrameAnalysis.contains_declaredOffsets written ?_
    unfold DepthProgress.reaches at reached
    split at reached
    · rename_i position means
      obtain ⟨state, known⟩ := Option.isSome_iff_exists.mp reached
      obtain ⟨_, there, held, heldAt, _⟩ := agrees.states position state known
      obtain ⟨insn, located⟩ := LocatedCode.insn_of_positions means
      obtain ⟨_, sameLocated⟩ := solvedBody.located_of_states heldAt
      rw [located, Option.some.injEq, Prod.mk.injEq] at sameLocated
      obtain ⟨rfl, rfl⟩ := sameLocated
      rw [solvedBody.frames, Std.TreeMap.contains_ofList, List.contains_iff_mem]
      refine List.mem_map_of_mem (a := (offset, held)) (List.mem_filter.mpr ⟨?_, ?_⟩)
      · exact List.mem_of_getElem? heldAt
      · exact agrees.needed offset needed
    · cases reached
  have clean :
      ∀ report ∈ checkInsns pool (Access.isStatic method.access) type body framed insns,
        report.2.kind ∉ DefectKind.ruledOut := by
    rw [checkInsns_eq]
    split
    · rename_i isFramed
      rw [complete isFramed]
      exact agrees.clean
    · exact agrees.clean
  unfold checkBody
  rw [typeFound, written.code, decoded]
  simp only
  cases insns with
  | nil => exact absurd rfl nonempty
  | cons first rest =>
      intro finding member
      obtain ⟨report, listed, rfl⟩ := List.mem_map.mp member
      exact clean report (List.mem_reverse.mp listed)

/-- A loop passes the depth check with the maxima and the frame that are computed for it. -/
theorem clean_of_loop :
    ∃ analysis,
      FrameAnalysis.ofCode ⟨"A", 0x0008, "m", "()V", 0⟩ [0x03, 0x99, 0xFF, 0xFF, 0xB1] []
          ⟨#[], 0, ∅⟩ ⟨[], ∅, true⟩ =
        .ok analysis ∧
        ∀ finding ∈
            checkBody ⟨#[], 0, ∅⟩ 0x0008 "()V"
              ⟨analysis.maxStack, analysis.maxLocals, [0x03, 0x99, 0xFF, 0xFF, 0xB1], [],
                Body.tableAttribute .stackMapTable (analysis.stackMapTable ⟨#[], 0, ∅⟩).1⟩ true,
          finding.2.kind ∉ DefectKind.ruledOut := by
  have outcome :
      ((FrameAnalysis.ofCode ⟨"A", 0x0008, "m", "()V", 0⟩ [0x03, 0x99, 0xFF, 0xFF, 0xB1] []
        ⟨#[], 0, ∅⟩ ⟨[], ∅, true⟩).map (·.states)).toOption =
        some [(0, ⟨[], []⟩), (1, ⟨[], [.integer]⟩), (4, ⟨[], []⟩)] := by
    decide +kernel
  cases found :
      FrameAnalysis.ofCode ⟨"A", 0x0008, "m", "()V", 0⟩ [0x03, 0x99, 0xFF, 0xFF, 0xB1] []
        ⟨#[], 0, ∅⟩ ⟨[], ∅, true⟩ with
  | error => simp [found, Except.map, Except.toOption] at outcome
  | ok analysis =>
      simp only [found, Except.map, Except.toOption, Option.some.injEq] at outcome
      have decoded :
          Insn.decode [0x03, 0x99, 0xFF, 0xFF, 0xB1] =
            .ok [(0, .plain 0x03), (1, .jump 0x99 0), (4, .plain 0xB1)] := by
        decide +kernel
      have fit :
          analysis.WidthsFit ⟨#[], 0, ∅⟩ [(0, .plain 0x03), (1, .jump 0x99 0), (4, .plain 0xB1)] := by
        refine ⟨by simp [outcome], ?_⟩
        intro position offset insn before located heldAt
        rw [outcome] at heldAt
        rcases position with _ | _ | _ | position <;> cases heldAt <;> cases located
        · exact ⟨⟨[], by decide, rfl⟩, by rintro access ⟨⟩⟩
        · exact ⟨⟨[1], by decide, rfl⟩, by rintro access ⟨⟩⟩
        · exact ⟨⟨[], by decide, rfl⟩, by rintro access ⟨⟩⟩
      have written :
          analysis.WrittenTo [0x03, 0x99, 0xFF, 0xFF, 0xB1] [] true
            ⟨analysis.maxStack, analysis.maxLocals, [0x03, 0x99, 0xFF, 0xFF, 0xB1], [],
              Body.tableAttribute .stackMapTable (analysis.stackMapTable ⟨#[], 0, ∅⟩).1⟩ :=
        ⟨rfl, rfl, rfl, rfl, fun _ => ⟨⟨#[], 0, ∅⟩, fun _ member => member⟩⟩
      obtain ⟨_, _, clean, _⟩ :=
        clean_of_computed found decoded (by simp) fit (by simp [Insn.ConstantFits]) written
      exact ⟨analysis, rfl, clean⟩

/--
Without an instruction, or with a constant of two slots loaded as one of one
slot, a body that is written as it was analysed does not pass the depth check.
-/
theorem exists_defect_of_computed :
    (∃ analysis,
      FrameAnalysis.ofCode ⟨"A", 0x0008, "m", "()V", 0⟩ [] [] ⟨#[], 0, ∅⟩ ⟨[], ∅, false⟩ =
          .ok analysis ∧
        analysis.WidthsFit ⟨#[], 0, ∅⟩ [] ∧
        analysis.WrittenTo [] [] false ⟨0, 0, [], [], []⟩ ∧
        ∃ finding ∈ checkBody ⟨#[], 0, ∅⟩ 0x0008 "()V" ⟨0, 0, [], [], []⟩ false,
          finding.2.kind ∈ DefectKind.ruledOut) ∧
      ∃ analysis pool,
        pool = ⟨#[.unusable, .utf8 "x", .utf8 "J", .nameAndType 1 2, .dynamic 0 3], 5, ∅⟩ ∧
          FrameAnalysis.ofCode ⟨"A", 0x0008, "m", "()J", 0⟩ [0x12, 0x04, 0xAD] [] pool
              ⟨[], ∅, false⟩ =
            .ok analysis ∧
          analysis.WidthsFit pool [(0, .load Opcode.ldc (.index 4)), (2, .plain 0xAD)] ∧
          analysis.WrittenTo [0x12, 0x04, 0xAD] [] false ⟨2, 0, [0x12, 0x04, 0xAD], [], []⟩ ∧
          ∃ finding ∈
              checkBody pool 0x0008 "()J" ⟨2, 0, [0x12, 0x04, 0xAD], [], []⟩ false,
            finding.2.kind ∈ DefectKind.ruledOut := by
  constructor
  · have outcome :
        ((FrameAnalysis.ofCode ⟨"A", 0x0008, "m", "()V", 0⟩ [] [] ⟨#[], 0, ∅⟩
          ⟨[], ∅, false⟩).map fun analysis =>
            (analysis.maxStack, analysis.maxLocals, analysis.states)).toOption =
          some (0, 0, []) := by
      decide +kernel
    cases found :
        FrameAnalysis.ofCode ⟨"A", 0x0008, "m", "()V", 0⟩ [] [] ⟨#[], 0, ∅⟩
          ⟨[], ∅, false⟩ with
    | error => simp [found, Except.map, Except.toOption] at outcome
    | ok analysis =>
        simp only [found, Except.map, Except.toOption, Option.some.injEq, Prod.mk.injEq]
          at outcome
        obtain ⟨maxStack, maxLocals, states⟩ := outcome
        refine ⟨analysis, rfl, ⟨by simp [states], by simp [states]⟩, ?_, ?_⟩
        · exact ⟨rfl, maxStack.symm, maxLocals.symm, rfl, by simp⟩
        · exact ⟨(some 0, .emptyCode), by decide +kernel, by decide⟩
  · have outcome :
        ((FrameAnalysis.ofCode ⟨"A", 0x0008, "m", "()J", 0⟩ [0x12, 0x04, 0xAD] []
          ⟨#[.unusable, .utf8 "x", .utf8 "J", .nameAndType 1 2, .dynamic 0 3], 5, ∅⟩
          ⟨[], ∅, false⟩).map fun analysis =>
            (analysis.maxStack, analysis.maxLocals, analysis.states)).toOption =
          some (2, 0, [(0, ⟨[], []⟩), (2, ⟨[], [.long]⟩)]) := by
      decide +kernel
    cases found :
        FrameAnalysis.ofCode ⟨"A", 0x0008, "m", "()J", 0⟩ [0x12, 0x04, 0xAD] []
          ⟨#[.unusable, .utf8 "x", .utf8 "J", .nameAndType 1 2, .dynamic 0 3], 5, ∅⟩
          ⟨[], ∅, false⟩ with
    | error => simp [found, Except.map, Except.toOption] at outcome
    | ok analysis =>
        simp only [found, Except.map, Except.toOption, Option.some.injEq, Prod.mk.injEq]
          at outcome
        obtain ⟨maxStack, maxLocals, states⟩ := outcome
        refine ⟨analysis, _, rfl, found, ⟨by simp [states], ?_⟩, ?_, ?_⟩
        · intro position offset insn before located heldAt
          rw [states] at heldAt
          rcases position with _ | _ | position <;> cases heldAt <;> cases located
          · exact ⟨⟨[], by decide, rfl⟩, by rintro access ⟨⟩⟩
          · exact ⟨⟨[2], by decide, rfl⟩, by rintro access ⟨⟩⟩
        · exact ⟨rfl, maxStack.symm, maxLocals.symm, rfl, by simp⟩
        · exact ⟨(some 2, .stackUnderflow 0xAD 2 1), by decide +kernel, by decide⟩

end Verify
end JvmClass
