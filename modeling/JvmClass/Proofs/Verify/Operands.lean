import JvmClass.Proofs.ClassModel.Resolved
import JvmClass.Proofs.Verify.Width

namespace JvmClass

/-!
# The values that instructions take

The type analysis and the depth check describe every instruction once each, by
what it does to values and by how many slots it moves.  For instructions that were
read from a body and found in the pool what they refer to, the descriptions agree:
the values that the analysis cannot do without take the slots that the check counts
as taken, and what has no effect that the check knows cannot be stepped through.
-/

namespace FrameState

open SlotType

/-! ## The shortest row of values -/

/-- Something can be done with a row of values, and with no row that it begins with. -/
structure Needs
    (Works : List SlotType → Prop)
    (operands : List SlotType) : Prop where
  enough : Works operands
  fewer : ∀ count < operands.length, ¬ Works (operands.take count)

section Needs

variable {Works Others : List SlotType → Prop} {operands : List SlotType}

/-- What depends on the number of values only needs exactly that number. -/
theorem needs_of_length (counts : ∀ stack, Works stack ↔ operands.length ≤ stack.length) :
    Needs Works operands where
  enough := (counts operands).mpr (Nat.le_refl _)
  fewer count short works := by
    have enough := (counts _).mp works
    rw [List.length_take] at enough
    omega

theorem needs_nil_iff : Needs Works [] ↔ Works [] :=
  ⟨Needs.enough, fun works => ⟨works, fun _ short => absurd short (Nat.not_lt_zero _)⟩⟩

theorem needs_cons_iff {first : SlotType} :
    Needs Works (first :: operands) ↔
      ¬ Works [] ∧ Needs (fun stack => Works (first :: stack)) operands where
  mp needs :=
    ⟨needs.fewer 0 (Nat.succ_pos _), needs.enough,
      fun count short => needs.fewer (count + 1) (Nat.succ_lt_succ short)⟩
  mpr := fun ⟨empty, rest⟩ =>
    { enough := rest.enough
      fewer := fun
        | 0, _ => empty
        | count + 1, short => rest.fewer count (Nat.lt_of_succ_lt_succ short) }

theorem Needs.congr
    (needs : Needs Works operands)
    (same : ∀ stack, Others stack ↔ Works stack) :
    Needs Others operands where
  enough := (same _).mpr needs.enough
  fewer count short works := needs.fewer count short ((same _).mp works)

/-- A stack begins with one row at most that something needs. -/
theorem Needs.eq_of_prefix
    {others stack : List SlotType}
    (needs : Needs Works operands)
    (otherNeeds : Needs Works others)
    (top : operands <+: stack)
    (otherTop : others <+: stack) :
    others = operands := by
  rcases Nat.lt_trichotomy others.length operands.length with short | same | long
  · have begins := List.prefix_iff_eq_take.mp
      (List.prefix_of_prefix_length_le otherTop top (Nat.le_of_lt short))
    exact absurd (begins ▸ otherNeeds.enough) (needs.fewer _ short)
  · exact (List.prefix_of_prefix_length_le otherTop top (Nat.le_of_eq same)).eq_of_length same
  · have begins := List.prefix_iff_eq_take.mp
      (List.prefix_of_prefix_length_le top otherTop (Nat.le_of_lt long))
    exact absurd (begins ▸ needs.enough) (otherNeeds.fewer _ long)

end Needs

/-- An action needs the operands of any of its forms. -/
theorem needs_of_applyAction
    {action : Action}
    {operands : List SlotType}
    (onStack : ∀ kind slot, action ≠ .load kind slot ∧ action ≠ .store kind slot)
    (form : operands.map slots ∈ action.operandForms) :
    Needs (fun stack => ∃ result, applyAction action stack = .ok result) operands := by
  cases action with
  | load kind slot => exact absurd rfl (onStack kind slot).1
  | store kind slot => exact absurd rfl (onStack kind slot).2
  | pop | dup | dupX1 | swap | pop2 | dup2 | dupX2 | dup2X1 | dup2X2 =>
      rcases operands with _ | ⟨first, _ | ⟨second, _ | ⟨third, _ | ⟨fourth, _ | ⟨fifth, below⟩⟩⟩⟩⟩
      all_goals simp [Action.operandForms, slots_eq_one_iff, slots_eq_two_iff] at form
      all_goals
        simp [needs_cons_iff, needs_nil_iff, applyAction, pop2, dup2, dupX2, dup2X1, dup2X2, pop,
          requireNarrow, bind, Except.bind, pure, Except.pure, form]
      -- Three values are two forms of `dup2_x2`, told apart by which of them is wide.
      all_goals rcases form with form | form <;> simp [form]
  | leave kind =>
      cases kind <;> exact needs_of_length fun stack => by
        have length := congrArg List.length (List.mem_singleton.mp form)
        simp only [List.length_map] at length
        simp [applyAction, popMany_eq_ok_iff, length]
  | loadElement kind =>
      have length : operands.length = 2 := by
        simpa using congrArg List.length (List.mem_singleton.mp form)
      refine needs_of_length fun stack => ?_
      cases kind with
      | reference =>
          rcases stack with _ | ⟨first, _ | ⟨second, below⟩⟩ <;>
            simp [applyAction, pop, bind, Except.bind, pure, Except.pure, length]
      | _ => simp [applyAction, replaceTop_eq_ok_iff, length]
  | _ =>
      have length := congrArg List.length (List.mem_singleton.mp form)
      simp only [List.length_map] at length
      exact needs_of_length fun stack => by
        simp [applyAction, popMany_eq_ok_iff, replaceTop_eq_ok_iff, length]

/-- An access to a local variable needs the value that it stores. -/
theorem needs_of_accessLocal
    {context : StepContext}
    {offset : UInt16}
    {access : SlotAccess}
    {locals operands below : List SlotType}
    {behind : FrameState}
    (form : operands.map slots = if access.isStore then [access.width] else [])
    (found : accessLocal context offset ⟨locals, operands ++ below⟩ access = .ok behind) :
    Needs (fun stack => ∃ behind, accessLocal context offset ⟨locals, stack⟩ access = .ok behind)
      operands := by
  refine needs_of_length fun stack => ?_
  have length := congrArg List.length form
  unfold accessLocal at found ⊢
  cases isStore : access.isStore with
  | true =>
      rw [isStore] at length
      cases stack <;>
        simp_all [pop, Except.mapError, bind, Except.bind, pure, Except.pure]
  | false =>
      rw [isStore] at length found
      obtain ⟨value, loaded, _⟩ := bind_eq_ok_iff.mp found
      simp_all [bind, Except.bind, pure, Except.pure]

theorem works_onStack_iff
    {offset : UInt16}
    {locals stack : List SlotType}
    {change : List SlotType → Except StackFault (List SlotType)} :
    (∃ behind, onStack offset ⟨locals, stack⟩ change = .ok behind) ↔
      ∃ result, change stack = .ok result := by
  simp only [onStack_eq_ok_iff]
  constructor
  · rintro ⟨_, result, changed, _⟩
    exact ⟨result, changed⟩
  · rintro ⟨result, changed⟩
    exact ⟨_, result, changed, rfl⟩

/-- A call needs its arguments and its receiver. -/
theorem works_invoke_iff
    {context : StepContext}
    {offset : UInt16}
    {hasReceiver : Bool}
    {member : Member}
    {locals stack : List SlotType}
    {type : MethodType}
    (typed : MethodType.ofDescriptor member.descriptor = .ok type) :
    (∃ behind, invoke context offset hasReceiver member ⟨locals, stack⟩ = .ok behind) ↔
      type.params.length + (if hasReceiver then 1 else 0) ≤ stack.length := by
  constructor
  · rintro ⟨behind, found⟩
    obtain ⟨again, arguments, below, retyped, shape, count, called⟩ := called_of_invoke found
    rw [typed] at retyped
    cases retyped
    simp only at shape
    rw [shape, List.length_append, count]
    rcases called with ⟨rfl, _⟩ | ⟨rfl, receiver, rest, rfl, _⟩
    · simp
    · simp
  · intro enough
    obtain ⟨arguments, below, rfl, count⟩ :
        ∃ arguments below, stack = arguments ++ below ∧ arguments.length = type.params.length :=
      ⟨_, _, (List.take_append_drop type.params.length stack).symm,
        List.length_take_of_le (by omega)⟩
    have popped : popMany type.params.length (arguments ++ below) = .ok below :=
      popMany_eq_ok_iff.mpr ⟨by simp [count], by simp [← count]⟩
    unfold invoke
    simp only [typed, popped, Except.mapError, bind, Except.bind]
    cases hasReceiver with
    | false => simp [pure, Except.pure]
    | true =>
        cases below with
        | nil =>
            rw [List.append_nil, count, if_pos rfl] at enough
            omega
        | cons receiver rest =>
            simp only [pop, if_true, pure, Except.pure]
            split <;> simp

theorem needs_of_invoke
    {context : StepContext}
    {offset : UInt16}
    {hasReceiver : Bool}
    {member : Member}
    {locals operands below : List SlotType}
    {behind : FrameState}
    (form :
      operands.map slots =
        Insn.callWidths member.descriptor (if hasReceiver then [1] else []))
    (found : invoke context offset hasReceiver member ⟨locals, operands ++ below⟩ = .ok behind) :
    Needs (fun stack => ∃ behind, invoke context offset hasReceiver member ⟨locals, stack⟩ = .ok behind)
      operands := by
  obtain ⟨type, _, _, typed, _⟩ := called_of_invoke found
  have length := congrArg List.length form
  rw [Insn.callWidths, typed, List.length_map] at length
  refine needs_of_length fun stack => ?_
  rw [works_invoke_iff typed, length]
  cases hasReceiver <;> simp

end FrameState

namespace Insn

open FrameState SlotType

/-! ## Forms of operands -/

theorem sum_of_actionForms
    {action : Action}
    {widths : List Nat}
    (form : widths ∈ action.operandForms) :
    widths.sum = action.move.taken := by
  cases action with
  | leave kind =>
      cases kind <;> simp only [Action.operandForms, List.mem_singleton] at form <;>
        simp [Action.move, form]
  | pop2 | dup2 | dupX2 | dup2X1 =>
      obtain rfl | rfl : widths = _ ∨ widths = _ := by simpa [Action.operandForms] using form
      all_goals rfl
  | dup2X2 =>
      obtain rfl | rfl | rfl | rfl : widths = _ ∨ widths = _ ∨ widths = _ ∨ widths = _ := by
        simpa [Action.operandForms] using form
      all_goals rfl
  | combine | compare | shift | storeElement =>
      obtain rfl := List.mem_singleton.mp form
      simp only [Action.move, List.sum_cons, List.sum_nil]
      omega
  | _ =>
      obtain rfl := List.mem_singleton.mp form
      rfl

/-- The operands of an act take the same number of slots in any of their forms. -/
theorem sum_of_operandForms
    {act : Act}
    {widths : List Nat}
    {move : SlotMove}
    (form : widths ∈ act.operandForms)
    (found : act.move = .ok move) :
    widths.sum = move.taken := by
  cases act with
  | transfer access =>
      obtain rfl := List.mem_singleton.mp form
      cases found
      unfold SlotAccess.move
      split <;> rfl
  | rearrange action =>
      cases found
      exact sum_of_actionForms form
  | replace operands results =>
      obtain rfl := List.mem_singleton.mp form
      cases found
      rfl
  | call hasReceiver member =>
      obtain rfl := List.mem_singleton.mp form
      obtain ⟨type, typed, returned⟩ := bind_eq_ok_iff.mp found
      cases returned
      rw [callWidths, mapError_eq_ok_iff.mp typed]
      simp only [List.sum_append, List.sum_reverse]
      cases hasReceiver <;> rfl

/-! ## Steps -/

/-- An instruction that can be stepped through needs the operands of its form. -/
theorem needs_of_step
    {context : StepContext}
    {offset : UInt16}
    {insn : Insn}
    {locals operands below : List SlotType}
    {behind : FrameState}
    (form : operands.map slots ∈ insn.operandForms context.pool)
    (found : insn.step context offset ⟨locals, operands ++ below⟩ = .ok behind) :
    Needs (fun stack => ∃ behind, insn.step context offset ⟨locals, stack⟩ = .ok behind)
      operands := by
  obtain ⟨act, acts, ran⟩ := exists_run_of_step found
  rw [acts.operandForms_eq] at form
  refine Needs.congr ?_ fun stack => exists_congr fun behind => acts.step_eq_ok_iff
  cases act with
  | transfer access => exact needs_of_accessLocal (List.mem_singleton.mp form) ran
  | rearrange action =>
      exact (needs_of_applyAction acts.staysOnStack form).congr fun _ => works_onStack_iff
  | replace widths results =>
      obtain rfl := List.mem_singleton.mp form
      exact needs_of_length fun stack => by simp [run_replace_eq_ok_iff]
  | call hasReceiver member => exact needs_of_invoke (List.mem_singleton.mp form) ran

/-! ## Instructions that were read -/

/-- A constant that an instruction loads takes one slot if it is computed at run time. -/
def NarrowDynamic
    (pool : Pool)
    (insn : Insn) : Prop :=
  ∀ code index bootstrap pair name descriptor type,
    insn = .load code (.index index) →
      pool.entry index = .ok (.dynamic bootstrap pair) →
        pool.dynamic index = .ok (name, descriptor) →
          FieldType.ofDescriptor descriptor = .ok type → type.size = 1

/-- A constant that the pool holds for an instruction has the width that its opcode asks for. -/
theorem constantFits_of_checkOperand
    {pool : Pool}
    {insn : Insn}
    (accepted : insn.checkOperand pool = .ok ())
    (narrow : insn.NarrowDynamic pool) :
    insn.ConstantFits pool := by
  rintro code index type rfl typed
  obtain ⟨entry, entryFound, takes⟩ := exists_entry_of_checkOperand accepted rfl
  obtain ⟨_, again, typed⟩ := bind_eq_ok_iff.mp typed
  rw [entryFound] at again
  cases again
  simp only [accepts] at takes
  split
  · rename_i isWide
    rw [if_pos isWide] at takes
    cases entry with
    | long | double =>
        cases typed
        rfl
    | _ => cases takes
  · rename_i isNarrow
    rw [if_neg isNarrow] at takes
    cases entry with
    | integer | float | string | classRef | methodType | methodHandle =>
        cases typed
        rfl
    | dynamic bootstrap pair =>
        obtain ⟨⟨name, descriptor⟩, named, typed⟩ := bind_eq_ok_iff.mp typed
        obtain ⟨field, parsed, returned⟩ := bind_eq_ok_iff.mp typed
        cases returned
        rw [slots_ofFieldType]
        exact narrow code index bootstrap pair name descriptor field rfl entryFound
          (mapError_eq_ok_iff.mp named) (mapError_eq_ok_iff.mp parsed)
    | _ => cases takes

/-- What can be done moves a number of slots. -/
theorem exists_move_of_run
    {context : StepContext}
    {offset : UInt16}
    {act : Act}
    {state behind : FrameState}
    (ran : act.run context offset state = .ok behind) :
    ∃ move, act.move = .ok move := by
  cases act with
  | call hasReceiver member =>
      obtain ⟨type, _, _, typed, _⟩ := called_of_invoke ran
      exact ⟨_, bind_eq_ok_iff.mpr ⟨type, mapError_eq_ok_iff.mpr typed, rfl⟩⟩
  | transfer | rearrange | replace => exact ⟨_, rfl⟩

/-- The values that an instruction takes off the stack of a state: those that its step needs. -/
structure Takes
    (context : StepContext)
    (offset : UInt16)
    (insn : Insn)
    (state : FrameState)
    (operands : List SlotType) : Prop where
  top : operands <+: state.stack
  needs :
    Needs (fun stack => ∃ behind, insn.step context offset ⟨state.locals, stack⟩ = .ok behind)
      operands

/--
The two descriptions of an instruction that was read from a body, and whose operand
was found in the pool, agree.  Where it can be stepped through and what it finds has
the widths that are asked for, it has an effect; of the slots of the values that it
takes off the stack the effect counts sixteen bits, which are all of them unless a
call takes 65536 or more; and what takes their place on the stack has the slots that
the effect puts on.  Where it has no effect it cannot be stepped through from any
state.
-/
theorem step_agrees_with_effect
    {code : Bytes}
    {insns : List (Nat × Insn)}
    {place : Nat}
    {insn : Insn}
    {context : StepContext}
    {offset : UInt16}
    (decoded : decode code = .ok insns)
    (listed : (place, insn) ∈ insns)
    (accepted : insn.checkOperand context.pool = .ok ())
    (narrow : insn.NarrowDynamic context.pool) :
    (∀ state behind,
        insn.step context offset state = .ok behind →
          insn.WidthsFit context.pool state →
            ∃ effect operands,
              insn.effect context.pool = .ok effect ∧
                (∀ values, insn.Takes context offset state values ↔ values = operands) ∧
                  effect.pops = UInt16.ofNat (stackSlots operands) ∧
                  (stackSlots operands < 2 ^ 16 → effect.pops.toNat = stackSlots operands) ∧
                  stackSlots operands ≤ stackSlots state.stack ∧
                  stackSlots behind.stack =
                    stackSlots state.stack - stackSlots operands + effect.pushes.toNat) ∧
      ∀ fault,
        insn.effect context.pool = .error fault →
          ∀ state, ∃ error, insn.step context offset state = .error error := by
  have wellFormed := ((decode_eq_ok_iff.mp decoded).wellFormed _ listed).1
  have constant := constantFits_of_checkOperand accepted narrow
  refine ⟨fun state behind found fit => ?_, fun fault failed state => ?_⟩
  · obtain ⟨act, move, acts, moved, enough, moves⟩ := moves_of_step fit found
    obtain ⟨locals, stack⟩ := state
    obtain ⟨widths, form, top⟩ := fit.operands
    obtain ⟨operands, below, rfl, rfl⟩ := exists_operands top
    have needs := needs_of_step form found
    have effectFound : insn.effect context.pool = .ok move.effect := by
      rw [acts.effect_eq wellFormed constant, moved]
      rfl
    have taken : stackSlots operands = move.taken := by
      rw [acts.operandForms_eq] at form
      rw [stackSlots_eq_sum]
      exact sum_of_operandForms form moved
    refine ⟨move.effect, operands, effectFound, fun values => ⟨fun takes => ?_, ?_⟩, ?_, ?_, ?_, ?_⟩
    · exact needs.eq_of_prefix takes.needs (List.prefix_append ..) takes.top
    · rintro rfl
      exact ⟨List.prefix_append .., needs⟩
    · rw [taken]
      rfl
    · intro few
      rw [taken] at few ⊢
      exact UInt16.toNat_ofNat_of_lt' few
    · rwa [taken]
    · rwa [taken, acts.toNat_pushes moved]
  · cases stepped : insn.step context offset state with
    | error error => exact ⟨error, rfl⟩
    | ok behind =>
        obtain ⟨act, acts, ran⟩ := exists_run_of_step stepped
        obtain ⟨move, moved⟩ := exists_move_of_run ran
        rw [acts.effect_eq wellFormed constant, moved] at failed
        cases failed

/-- A call with a wide argument takes three slots off the stack and puts its wide result on. -/
theorem step_agrees_with_effect_of_call :
    let pool : Pool :=
      ⟨#[.unusable, .utf8 "A", .classRef 1, .utf8 "m", .utf8 "(JI)D", .nameAndType 3 4,
        .member .method 2 5], 7, ∅⟩
    let context : StepContext := ⟨⟨"A", 0x0008, "m", "()V", 0⟩, pool, true⟩
    let call : Insn := .method Opcode.invokeStatic (.index 6)
    call.effect pool = .ok ⟨3, 2⟩ ∧
      ∃ operands,
        (∀ values,
            call.Takes context 0 ⟨[], [.integer, .long, .null]⟩ values ↔ values = operands) ∧
          stackSlots operands = 3 := by
  intro pool context call
  have decoded : decode [0xB8, 0x00, 0x06] = .ok [(0, call)] := by decide +kernel
  have effectKnown : call.effect pool = .ok ⟨3, 2⟩ := by decide +kernel
  have stepped :
      call.step context 0 ⟨[], [.integer, .long, .null]⟩ = .ok ⟨[], [.double, .null]⟩ := by
    decide +kernel
  have fit : call.WidthsFit context.pool ⟨[], [.integer, .long, .null]⟩ :=
    ⟨⟨[1, 2], by decide +kernel, rfl⟩, by rintro access ⟨⟩⟩
  obtain ⟨effect, operands, effectFound, taken, _, counted, enough, _⟩ :=
    (step_agrees_with_effect decoded (List.mem_singleton.mpr rfl) (by decide +kernel)
      (by simp [NarrowDynamic, call])).1 _ _ stepped fit
  rw [show call.effect context.pool = .ok ⟨3, 2⟩ from effectKnown] at effectFound
  cases effectFound
  have few : stackSlots operands < 2 ^ 16 := Nat.lt_of_le_of_lt enough (by decide +kernel)
  exact ⟨effectKnown, operands, taken, (counted few).symm⟩

/-! ## Calls that take too much to be counted -/

/-- A pool with a static method `m` of some longs at 6. -/
def poolOfLongs (count : Nat) : Pool :=
  ⟨#[.unusable, .utf8 "A", .classRef 1, .utf8 "m",
    .utf8 (MethodType.mk (List.replicate count .long) none).descriptor, .nameAndType 3 4,
    .member .method 2 5], 7, ∅⟩

/-- A call of that method takes all the longs, and its effect counts sixteen bits of their slots. -/
theorem step_of_longs
    (count : Nat) :
    let context : StepContext := ⟨⟨"A", 0x0008, "m", "()V", 0⟩, poolOfLongs count, true⟩
    let call : Insn := .method Opcode.invokeStatic (.index 6)
    let longs : FrameState := ⟨[], List.replicate count .long⟩
    call.WidthsFit (poolOfLongs count) longs ∧
      call.step context 0 longs = .ok ⟨[], []⟩ ∧
        stackSlots longs.stack = count * 2 ∧
          call.effect (poolOfLongs count) = .ok (SlotMove.mk (count * 2) 0).effect := by
  intro context call longs
  generalize isType : MethodType.mk (List.replicate count .long) none = type
  have spellable : type.Spellable := by
    subst isType
    refine ⟨fun param member => ?_, nofun⟩
    rw [List.eq_of_mem_replicate member]
    trivial
  have typed := MethodType.ofDescriptor_descriptor spellable
  have found : (poolOfLongs count).member 6 = .ok ⟨"A", "m", type.descriptor⟩ := by
    subst isType
    rfl
  have resolved :
      resolveMember (poolOfLongs count) 0 (.index 6) = .ok ⟨"A", "m", type.descriptor⟩ := by
    subst isType
    rfl
  have sizes : type.params.map FieldType.size = List.replicate count 2 := by
    subst isType
    exact List.map_replicate
  have slots : longs.stack.map slots = List.replicate count 2 := List.map_replicate
  refine ⟨⟨⟨List.replicate count 2, ?_, ?_⟩, by rintro access ⟨⟩⟩, ?_, ?_, ?_⟩
  · simp [operandForms, call, found, callWidths, typed, sizes]
  · rw [List.length_replicate, List.take_of_length_le (by simp [longs]), slots]
  · have all : popMany type.params.length longs.stack = .ok [] :=
      popMany_eq_ok_iff.mpr (by simp [← isType, longs])
    simp only [call, step, context, resolved, Except.mapError, bind, Except.bind, invoke, typed,
      all]
    rw [← isType]
    rfl
  · rw [stackSlots_eq_sum, slots]
    simp
  · simp only [call, effect, found, Except.mapError, bind, Except.bind, callEffect, typed,
      MethodType.paramSlots_eq, MethodType.paramSize, sizes]
    simp [SlotMove.effect, MethodType.resultSlots, ← isType, pure, Except.pure]

/-- A call that takes the 65536 slots of 32768 longs off the stack has an effect of no slots. -/
theorem effect_of_vast_call :
    ∃ (pool : Pool) (context : StepContext) (call : Insn) (longs : FrameState),
      context.pool = pool ∧
        decode [0xB8, 0x00, 0x06] = .ok [(0, call)] ∧
          call.checkOperand pool = .ok () ∧
            call.NarrowDynamic pool ∧
              call.WidthsFit pool longs ∧
                call.step context 0 longs = .ok ⟨[], []⟩ ∧
                  stackSlots longs.stack = 65536 ∧ call.effect pool = .ok ⟨0, 0⟩ := by
  obtain ⟨fit, stepped, slots, effect⟩ := step_of_longs 32768
  exact ⟨_, _, _, _, rfl, by decide +kernel, rfl, by simp [NarrowDynamic], fit, stepped, slots,
    effect⟩

end Insn
end JvmClass
