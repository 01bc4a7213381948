import JvmClass.Proofs.Descriptor
import JvmClass.Verify.DepthState
import Mathlib.Algebra.GroupWithZero.Nat
import Mathlib.Data.List.TakeDrop
import Mathlib.Data.List.TakeWhile

namespace JvmClass

/-!
# States of the depth check

What a step of the depth check changes, which of two states promises less, and
what is known on entry.
-/

namespace DepthState

/-- Another state of the same depth counts no further local variable as assigned. -/
structure Weakens
    (state other : DepthState) : Prop where
  depth : other.depth = state.depth
  count : other.assigned.length = state.assigned.length
  assigned :
    ∀ slot : Nat, other.assigned[slot]? = some true → state.assigned[slot]? = some true

theorem Weakens.refl
    (state : DepthState) :
    state.Weakens state :=
  ⟨rfl, rfl, fun _ marked => marked⟩

theorem Weakens.trans
    {first second third : DepthState}
    (earlier : first.Weakens second)
    (later : second.Weakens third) :
    first.Weakens third :=
  ⟨later.depth.trans earlier.depth, later.count.trans earlier.count,
    fun slot marked => earlier.assigned slot (later.assigned slot marked)⟩

/-- Where paths meet, a local variable is assigned if it is on both. -/
theorem getElem?_meet
    {existing incoming : DepthState}
    {slot : Nat} :
    (existing.meet incoming).assigned[slot]? = some true ↔
      existing.assigned[slot]? = some true ∧ incoming.assigned[slot]? = some true := by
  simp only [meet, List.getElem?_zipWith]
  cases existing.assigned[slot]? <;> cases incoming.assigned[slot]? <;> simp

theorem weakens_meet_left
    {existing incoming : DepthState}
    (count : existing.assigned.length = incoming.assigned.length) :
    existing.Weakens (existing.meet incoming) :=
  ⟨rfl, by simp [meet, count], fun _ marked => (getElem?_meet.mp marked).1⟩

theorem weakens_meet_right
    {existing incoming : DepthState}
    (depth : existing.depth = incoming.depth)
    (count : existing.assigned.length = incoming.assigned.length) :
    incoming.Weakens (existing.meet incoming) :=
  ⟨depth, by simp [meet, count], fun _ marked => (getElem?_meet.mp marked).2⟩

/-! ## Steps -/

@[simp] theorem length_assign
    (state : DepthState)
    (slot width : Nat) :
    (state.assign slot width).1.assigned.length = state.assigned.length := by
  unfold assign
  simp only
  split
  · rename_i inside
    simp
    omega
  · rfl

@[simp] theorem depth_assign
    (state : DepthState)
    (slot width : Nat) :
    (state.assign slot width).1.depth = state.depth := by
  unfold assign
  simp only
  split <;> rfl

@[simp] theorem length_touchLocal
    (state : DepthState)
    (insn : Insn) :
    (state.touchLocal insn).1.assigned.length = state.assigned.length := by
  unfold touchLocal
  cases insn.access? with
  | none => rfl
  | some access =>
      simp only
      split
      · exact length_assign ..
      · rfl

@[simp] theorem depth_touchLocal
    (state : DepthState)
    (insn : Insn) :
    (state.touchLocal insn).1.depth = state.depth := by
  unfold touchLocal
  cases insn.access? with
  | none => rfl
  | some access =>
      simp only
      split
      · exact depth_assign ..
      · rfl

@[simp] theorem assigned_moveStack
    (context : DepthContext)
    (state : DepthState)
    (insn : Insn) :
    (moveStack context state insn).1.assigned = state.assigned := by
  unfold moveStack
  cases insn.effect context.pool <;> rfl

/-- How deep the stack is behind an instruction that finds what it takes. -/
theorem moveStack_of_effect
    {context : DepthContext}
    {state : DepthState}
    {insn : Insn}
    {effect : StackEffect}
    (found : insn.effect context.pool = .ok effect)
    (enough : effect.pops ≤ state.depth) :
    (moveStack context state insn).1 =
      { state with depth := state.depth - effect.pops + effect.pushes } := by
  simp only [moveStack, found, if_neg (UInt16.not_lt.mpr enough)]

/-- The stack moves without a finding if it is neither too short nor becomes too deep. -/
theorem moveStack_eq_nil_iff
    {context : DepthContext}
    {state : DepthState}
    {insn : Insn} :
    (moveStack context state insn).2 = [] ↔
      ∃ effect,
        insn.effect context.pool = .ok effect ∧
          effect.pops ≤ state.depth ∧
            (state.depth ≤ context.maxStack →
              state.depth - effect.pops + effect.pushes ≤ context.maxStack) := by
  unfold moveStack
  cases insn.effect context.pool with
  | error fault => simp
  | ok effect =>
      by_cases enough : effect.pops ≤ state.depth
      · have notShort : ¬state.depth < effect.pops := UInt16.not_lt.mpr enough
        simp only [if_neg notShort, List.nil_append, Except.ok.injEq, exists_eq_left', enough,
          true_and]
        split
        · rename_i crossed
          simp only [Bool.and_eq_true, decide_eq_true_eq] at crossed
          simp [crossed.2, UInt16.not_le.mpr crossed.1]
        · rename_i stays
          simp only [Bool.and_eq_true, decide_eq_true_eq, not_and'] at stays
          simpa [UInt16.not_lt] using stays
      · simp [enough, UInt16.not_le.mp enough]

/-- A step neither adds nor removes local variables. -/
@[simp] theorem length_step
    (context : DepthContext)
    (state : DepthState)
    (insn : Insn) :
    (state.step context insn).1.assigned.length = state.assigned.length := by
  simp [step]

/-- What a step without a finding says about the state before it and the state behind it. -/
structure CleanStep
    (pool : Pool)
    (insn : Insn)
    (before behind : DepthState) : Prop where
  depth :
    ∃ effect,
      insn.effect pool = .ok effect ∧
        effect.pops ≤ before.depth ∧
          behind.depth = before.depth - effect.pops + effect.pushes
  inside :
    ∀ access,
      insn.access? = some access →
        access.index.toNat + access.width ≤ before.assigned.length
  read :
    ∀ access,
      insn.access? = some access →
        (access.isStore = false ∨ insn.opcode = Opcode.iinc) →
          ∀ slot,
            access.index.toNat ≤ slot →
              slot < access.index.toNat + access.width → before.assigned[slot]? = some true
  assigned :
    ∀ slot : Nat,
      behind.assigned[slot]? = some true →
        before.assigned[slot]? = some true ∨
          ∃ access,
            insn.access? = some access ∧
              access.isStore = true ∧
                access.index.toNat ≤ slot ∧
                  slot < access.index.toNat + access.width

/-- Marking slots marks these slots only. -/
theorem getElem?_assign
    {state : DepthState}
    {slot width other : Nat}
    (marked : (state.assign slot width).1.assigned[other]? = some true) :
    state.assigned[other]? = some true ∨ slot ≤ other ∧ other < slot + width := by
  unfold assign at marked
  simp only at marked
  split at marked
  · rename_i inside
    by_cases below : other < slot
    · refine .inl ?_
      rwa [List.append_assoc, List.getElem?_append_left (by simp; omega),
        List.getElem?_take_of_lt below] at marked
    · by_cases within : other < slot + width
      · exact .inr ⟨by omega, within⟩
      · refine .inl ?_
        rw [List.getElem?_append_right (by simp; omega), List.getElem?_drop] at marked
        have place : slot + width + (other - (slot + width)) = other := by omega
        simpa [Nat.min_eq_left (show slot ≤ state.assigned.length by omega), place] using marked
  · exact .inl marked

theorem readFindings_eq_nil_iff
    {state : DepthState}
    {opcode : Opcode}
    {slot width : Nat} :
    state.readFindings opcode slot width = [] ↔
      slot + width ≤ state.assigned.length ∧
        ∀ other, slot ≤ other → other < slot + width → state.assigned[other]? = some true := by
  unfold readFindings
  simp only
  split
  · rename_i outside
    simp only [reduceCtorEq, false_iff, not_and]
    omega
  · rename_i inside
    have marks :
        ((state.assigned.drop slot).take width).all id = true ↔
          ∀ other, slot ≤ other → other < slot + width → state.assigned[other]? = some true := by
      simp only [List.all_eq_true, id_eq]
      constructor
      · intro all other from_ until_
        have found : ((state.assigned.drop slot).take width)[other - slot]? = state.assigned[other]? := by
          rw [List.getElem?_take_of_lt (by omega), List.getElem?_drop]
          congr 1
          omega
        have placed : state.assigned[other]? = some state.assigned[other] :=
          List.getElem?_eq_getElem (by omega)
        rw [placed, all _ (List.mem_of_getElem? (found.trans placed))]
      · intro all mark member
        obtain ⟨place, found⟩ := List.mem_iff_getElem?.mp member
        have within : place < width := by
          by_contra outside
          rw [List.getElem?_take_eq_none (by omega)] at found
          cases found
        rw [List.getElem?_take_of_lt within, List.getElem?_drop,
          all (slot + place) (by omega) (by omega)] at found
        exact (Option.some.inj found).symm
    by_cases all : ((state.assigned.drop slot).take width).all id = true
    · simp only [all, if_true, true_iff]
      exact ⟨by omega, marks.mp all⟩
    · simp only [all, Bool.false_eq_true, if_false, reduceCtorEq, false_iff, not_and]
      exact fun _ kept => all (marks.mpr kept)

/-- A step without a finding takes what there is and touches what is there. -/
theorem cleanStep_of_step
    {context : DepthContext}
    {before : DepthState}
    {insn : Insn}
    (clean : (before.step context insn).2 = []) :
    CleanStep context.pool insn before (before.step context insn).1 := by
  simp only [step, List.append_eq_nil_iff] at clean
  obtain ⟨⟨localsClean, _⟩, stackClean⟩ := clean
  have sameDepth := depth_touchLocal before insn
  refine ⟨?_, ?_, ?_, ?_⟩
  · obtain ⟨effect, found, enough, _⟩ := moveStack_eq_nil_iff.mp stackClean
    refine ⟨effect, found, sameDepth ▸ enough, ?_⟩
    simp only [step, moveStack_of_effect found enough, sameDepth]
  all_goals
    unfold touchLocal at localsClean
  · intro access touched
    simp only [touched] at localsClean
    split at localsClean
    · rename_i isStore
      obtain ⟨_, written⟩ := List.append_eq_nil_iff.mp localsClean
      unfold assign at written
      simp only at written
      split at written
      · assumption
      · cases written
    · rename_i isLoad
      rw [if_pos (by simp [isLoad])] at localsClean
      exact (readFindings_eq_nil_iff.mp localsClean).1
  · intro access touched reads
    simp only [touched] at localsClean
    have readClean : before.readFindings insn.opcode access.index.toNat access.width = [] := by
      have condition : (!access.isStore || decide (insn.opcode = Opcode.iinc)) = true := by
        rcases reads with isLoad | isIncrement
        · simp [isLoad]
        · simp [isIncrement]
      rw [if_pos condition] at localsClean
      split at localsClean
      · exact (List.append_eq_nil_iff.mp localsClean).1
      · exact localsClean
    exact (readFindings_eq_nil_iff.mp readClean).2
  · intro slot marked
    simp only [step, assigned_moveStack] at marked
    unfold touchLocal at marked
    cases touched : insn.access? with
    | none =>
        rw [touched] at marked
        exact .inl marked
    | some access =>
        simp only [touched] at marked
        split at marked
        · rename_i isStore
          rcases getElem?_assign marked with old | new
          · exact .inl old
          · exact .inr ⟨access, rfl, isStore, new⟩
        · exact .inl marked

/-! ## Entry -/

/-- Ranges that follow one another stay below the end of the last. -/
theorem le_of_mem_rangesFrom
    {slot : Nat}
    {widths : List Nat}
    {range : Nat × Nat}
    (member : range ∈ rangesFrom slot widths) :
    range.1 + range.2 ≤ slot + widths.sum := by
  induction widths generalizing slot with
  | nil => cases member
  | cons width widths inductionHypothesis =>
      rw [List.sum_cons]
      rcases List.mem_cons.mp member with rfl | member
      · simp only
        omega
      · have := inductionHypothesis member
        omega

theorem sum_rangesFrom
    (slot : Nat)
    (widths : List Nat) :
    ((rangesFrom slot widths).map Prod.snd).sum = widths.sum := by
  induction widths generalizing slot with
  | nil => rfl
  | cons width widths inductionHypothesis =>
      simp [rangesFrom, inductionHypothesis]

/-- Ranges that follow one another and stay below a limit end below it. -/
theorem sum_le_of_rangesFrom
    {slot limit : Nat}
    {widths : List Nat}
    (below : slot ≤ limit)
    (inside : ∀ range ∈ rangesFrom slot widths, range.1 + range.2 ≤ limit) :
    slot + widths.sum ≤ limit := by
  induction widths generalizing slot with
  | nil => simpa using below
  | cons width widths inductionHypothesis =>
      simp only [rangesFrom, List.mem_cons, forall_eq_or_imp] at inside
      have rest := inductionHypothesis inside.1 inside.2
      rw [List.sum_cons]
      omega

/-- Those of some consecutive ranges that come in front of the first beyond a limit end below it. -/
theorem sum_takeWhile_rangesFrom_le
    {slot limit : Nat}
    (widths : List Nat)
    (below : slot ≤ limit) :
    slot + (((rangesFrom slot widths).takeWhile fun range =>
      decide (range.1 + range.2 ≤ limit)).map Prod.snd).sum ≤ limit := by
  induction widths generalizing slot with
  | nil => exact below
  | cons width widths inductionHypothesis =>
      rw [rangesFrom]
      by_cases inside : slot + width ≤ limit
      · have rest := inductionHypothesis inside
        simp only [inside, decide_true, List.takeWhile_cons_of_pos, List.map_cons, List.sum_cons]
        omega
      · simp [inside, below]

theorem sum_argumentWidths
    (type : MethodType)
    (isStatic : Bool) :
    ((if isStatic then [] else [1]) ++ type.params.map FieldType.size).sum =
      type.argumentSize isStatic := by
  cases isStatic <;>
    simp [MethodType.argumentSize, MethodType.paramSize, Nat.add_comm]

/-- Arguments that fit the local variables are all assigned on entry. -/
theorem onEntry_of_fits
    {type : MethodType}
    {isStatic : Bool}
    {maxLocals : UInt16}
    (fits : type.argumentSize isStatic ≤ maxLocals.toNat) :
    onEntry type isStatic maxLocals =
      (⟨0, List.replicate (type.argumentSize isStatic) true ++
        List.replicate (maxLocals.toNat - type.argumentSize isStatic) false⟩, []) := by
  have total := sum_argumentWidths type isStatic
  have inside :
      ∀ range ∈ rangesFrom 0 ((if isStatic then [] else [1]) ++ type.params.map FieldType.size),
        decide (range.1 + range.2 ≤ maxLocals.toNat) = true := by
    intro range member
    have below := le_of_mem_rangesFrom member
    simp only [decide_eq_true_eq]
    omega
  unfold onEntry
  simp only [List.span_eq_takeWhile_dropWhile, List.takeWhile_eq_self_iff.mpr inside,
    List.dropWhile_eq_nil_iff.mpr inside, ← List.sum_eq_foldr, sum_rangesFrom, total, List.map_nil]

/-- A mark for each local variable is there on entry, whether the arguments fit or not. -/
theorem length_onEntry
    (type : MethodType)
    (isStatic : Bool)
    (maxLocals : UInt16) :
    (onEntry type isStatic maxLocals).1.assigned.length = maxLocals.toNat := by
  have inside :=
    sum_takeWhile_rangesFrom_le ((if isStatic then [] else [1]) ++ type.params.map FieldType.size)
      (Nat.zero_le maxLocals.toNat)
  unfold onEntry
  simp only [List.span_eq_takeWhile_dropWhile, ← List.sum_eq_foldr, List.length_append,
    List.length_replicate]
  omega

/-- Arguments of which none is reported fit the local variables. -/
theorem argumentSize_le_of_onEntry
    {type : MethodType}
    {isStatic : Bool}
    {maxLocals : UInt16}
    (clean : (onEntry type isStatic maxLocals).2 = []) :
    type.argumentSize isStatic ≤ maxLocals.toNat := by
  unfold onEntry at clean
  simp only [List.span_eq_takeWhile_dropWhile, List.map_eq_nil_iff, List.dropWhile_eq_nil_iff,
    decide_eq_true_eq] at clean
  have ends := sum_le_of_rangesFrom (Nat.zero_le _) clean
  rwa [sum_argumentWidths, Nat.zero_add] at ends

end DepthState
end JvmClass
