import JvmClass.Frame.Analysis
import JvmClass.Proofs.Frame.Step
import JvmClass.Proofs.Insn.Located

namespace JvmClass

/-!
# The type analysis reaches a fixed point

Whatever is known at a position either waits in the queue or is settled: the
instruction was stepped through from exactly this state, and everything it leads
to covers what it gives.  Absorbing a state only widens, so a settled position
stays settled, and once the queue is empty every position is.
-/

/-- Setting a place of an array changes that place only. -/
theorem getD_setIfInBounds
    {α : Type}
    (values : Array α)
    (place other : Nat)
    (value default : α) :
    (values.setIfInBounds place value).getD other default =
      if place = other ∧ place < values.size then value else values.getD other default := by
  simp only [Array.getD_eq_getD_getElem?, Array.getElem?_setIfInBounds]
  by_cases same : place = other
  · subst same
    by_cases inside : place < values.size
    · simp [inside]
    · simp [inside]
  · simp [same]

/-- An array that holds one value everywhere gives that value. -/
theorem getD_toArray_const
    {α β : Type}
    (items : List α)
    (value : β)
    (place : Nat) :
    (items.map fun _ => value).toArray.getD place value = value := by
  simp only [Array.getD_eq_getD_getElem?, List.map_const', List.toArray_replicate,
    Array.getElem?_replicate]
  split <;> rfl

namespace FlowProgress

section Flow

variable {strict : Prop} {context : StepContext} {rules : TypeRules}
  {insns : List (Nat × Insn)} {handlers : List HandlerRange}

/-- An offset leads to an instruction whose state covers a state. -/
def Leads
    (rules : TypeRules)
    (code : LocatedCode)
    (states : Array (Option FrameState))
    (offset : UInt16)
    (incoming : FrameState) : Prop :=
  ∃ position held,
    code.positions[offset]? = some position ∧
      states.getD position none = some held ∧
        FrameState.Fits rules.hierarchy rules.declared[offset]? incoming held

/-- Every state was kept or widened. -/
def Widened
    (rules : TypeRules)
    (code : LocatedCode)
    (before after : Array (Option FrameState)) : Prop :=
  ∀ position offset insn old,
    code.insns[position]? = some (offset, insn) →
      before.getD position none = some old →
        ∃ new,
          after.getD position none = some new ∧
            ∀ state,
              FrameState.Fits rules.hierarchy rules.declared[offset]? state old →
                FrameState.Fits rules.hierarchy rules.declared[offset]? state new

/--
The instruction at a position was stepped through from a state, and everything
it leads to covers what it gives.
-/
def Settled
    (context : StepContext)
    (rules : TypeRules)
    (code : LocatedCode)
    (handlers : List HandlerRange)
    (progress : FlowProgress)
    (position : Nat)
    (before : FrameState) : Prop :=
  ∃ offset insn behind next,
    code.insns[position]? = some (offset, insn) ∧
      insn.step context offset before = .ok behind ∧
      successors code position offset insn = .ok next ∧
      (∀ successor ∈ next, Leads rules code progress.states successor behind) ∧
      (∀ range ∈ handlers,
        range.covers offset = true →
          1 ≤ progress.maxStack ∧
          Leads rules code progress.states range.handler
              ⟨before.locals, [range.caught]⟩ ∧
            Leads rules code progress.states range.handler
              ⟨behind.locals, [range.caught]⟩) ∧
      SlotType.stackSlots before.stack ≤ progress.maxStack ∧
      SlotType.stackSlots behind.stack ≤ progress.maxStack

/-- What holds all along an analysis, while one position may be stepped through. -/
structure Sound
    (strict : Prop)
    (context : StepContext)
    (rules : TypeRules)
    (code : LocatedCode)
    (handlers : List HandlerRange)
    (current : Option (Nat × FrameState))
    (progress : FlowProgress) : Prop where
  states_size : progress.states.size = code.insns.size
  waiting_size : progress.waiting.size = code.insns.size
  waiting :
    ∀ position,
      progress.waiting.getD position false = true →
        position ∈ progress.queue.toList
  holds :
    ∀ position offset insn held,
      code.insns[position]? = some (offset, insn) →
        progress.states.getD position none = some held →
          FrameState.Holds rules.declared[offset]? held ∧
            (strict → held.KnownStack)
  pending :
    ∀ position held,
      progress.states.getD position none = some held →
        position ∈ progress.queue.toList ∨
          Settled context rules code handlers progress position held ∨
            current = some (position, held)

/-! ## Widening -/

theorem Widened.refl
    (code : LocatedCode)
    (states : Array (Option FrameState)) :
    Widened rules code states states :=
  fun _ _ _ old _ held => ⟨old, held, fun _ fits => fits⟩

theorem Widened.trans
    {code : LocatedCode}
    {first second third : Array (Option FrameState)}
    (earlier : Widened rules code first second)
    (later : Widened rules code second third) :
    Widened rules code first third := by
  intro position offset insn old located held
  obtain ⟨middle, middleHeld, middleFits⟩ := earlier position offset insn old located held
  obtain ⟨new, newHeld, newFits⟩ := later position offset insn middle located middleHeld
  exact ⟨new, newHeld, fun state fits => newFits state (middleFits state fits)⟩

/-- The successors of an instruction are its targets and, where control falls through, the next. -/
theorem mem_of_successors
    {code : LocatedCode}
    {position : Nat}
    {offset : UInt16}
    {insn : Insn}
    {next : List UInt16}
    (found : successors code position offset insn = .ok next) :
    (∀ target ∈ insn.targets, UInt16.ofNat target ∈ next) ∧
      (insn.opcode.endsFlow = false →
        ∃ following, code.offsetAfter? position = some following ∧ following ∈ next) := by
  unfold successors at found
  simp only at found
  split at found
  · rename_i ends
    cases found
    exact ⟨fun target member => List.mem_map_of_mem member, by simp [ends]⟩
  · split at found
    · rename_i following placed
      cases found
      refine ⟨fun target member => ?_, fun _ => ⟨following, placed, by simp⟩⟩
      exact List.mem_append_left _ (List.mem_map_of_mem member)
    · cases found

/-- What an offset led to it still leads to. -/
theorem Leads.widened
    {before after : Array (Option FrameState)}
    {offset : UInt16}
    {incoming : FrameState}
    (leads : Leads rules (.ofInsns insns) before offset incoming)
    (widened : Widened rules (.ofInsns insns) before after) :
    Leads rules (.ofInsns insns) after offset incoming := by
  obtain ⟨position, held, means, heldAt, fits⟩ := leads
  obtain ⟨insn, located⟩ := LocatedCode.insn_of_positions means
  obtain ⟨new, newHeld, newFits⟩ := widened position offset insn held located heldAt
  exact ⟨position, new, means, newHeld, newFits incoming fits⟩

/-- A settled position stays settled. -/
theorem Settled.widened
    {before after : FlowProgress}
    {position : Nat}
    {state : FrameState}
    (settled : Settled context rules (.ofInsns insns) handlers before position state)
    (widened : Widened rules (.ofInsns insns) before.states after.states)
    (higher : before.maxStack ≤ after.maxStack) :
    Settled context rules (.ofInsns insns) handlers after position state := by
  obtain ⟨offset, insn, behind, next, located, stepped, followed, leads, caught,
    beforeNoted, behindNoted⟩ := settled
  refine ⟨offset, insn, behind, next, located, stepped, followed, ?_, ?_,
    Nat.le_trans beforeNoted higher, Nat.le_trans behindNoted higher⟩
  · intro successor member
    exact (leads successor member).widened widened
  · intro range member covers
    obtain ⟨noted, first, second⟩ := caught range member covers
    exact ⟨Nat.le_trans noted higher, first.widened widened, second.widened widened⟩

/-! ## Absorbing a state -/

theorem states_enqueue
    (progress : FlowProgress)
    (position : Nat) :
    (progress.enqueue position).states = progress.states := by
  unfold enqueue
  split <;> rfl

theorem maxStack_enqueue
    (progress : FlowProgress)
    (position : Nat) :
    (progress.enqueue position).maxStack = progress.maxStack := by
  unfold enqueue
  split <;> rfl

theorem size_waiting_enqueue
    (progress : FlowProgress)
    (position : Nat) :
    (progress.enqueue position).waiting.size = progress.waiting.size := by
  unfold enqueue
  split <;> simp

/-- What waited still waits. -/
theorem mem_queue_enqueue
    (progress : FlowProgress)
    {position other : Nat}
    (queued : other ∈ progress.queue.toList) :
    other ∈ (progress.enqueue position).queue.toList := by
  unfold enqueue
  split
  · exact queued
  · simp [queued]

/-- A position that was put into the queue waits. -/
theorem self_mem_queue_enqueue
    (progress : FlowProgress)
    (waiting :
      ∀ position,
        progress.waiting.getD position false = true →
          position ∈ progress.queue.toList)
    (position : Nat) :
    position ∈ (progress.enqueue position).queue.toList := by
  unfold enqueue
  split
  · rename_i waits
    exact waiting position waits
  · simp

/-- Positions marked as waiting are in the queue. -/
theorem waiting_enqueue
    (progress : FlowProgress)
    (waiting :
      ∀ position,
        progress.waiting.getD position false = true →
          position ∈ progress.queue.toList)
    (position other : Nat)
    (marked : (progress.enqueue position).waiting.getD other false = true) :
    other ∈ (progress.enqueue position).queue.toList := by
  by_cases same : position = other
  · exact same ▸ self_mem_queue_enqueue progress waiting position
  · refine mem_queue_enqueue progress (waiting other ?_)
    unfold enqueue at marked
    split at marked
    · exact marked
    · rwa [getD_setIfInBounds, if_neg (by tauto)] at marked

/-- What absorbing a state at a position has established. -/
structure Reached
    (strict : Prop)
    (context : StepContext)
    (rules : TypeRules)
    (code : LocatedCode)
    (handlers : List HandlerRange)
    (current : Option (Nat × FrameState))
    (before after : FlowProgress) : Prop where
  sound : Sound strict context rules code handlers current after
  widened : Widened rules code before.states after.states
  higher : before.maxStack ≤ after.maxStack

theorem Reached.refl
    {code : LocatedCode}
    {current : Option (Nat × FrameState)}
    {progress : FlowProgress}
    (sound : Sound strict context rules code handlers current progress) :
    Reached strict context rules code handlers current progress progress :=
  ⟨sound, .refl _ _, Nat.le_refl _⟩

theorem Reached.trans
    {code : LocatedCode}
    {current : Option (Nat × FrameState)}
    {first second third : FlowProgress}
    (earlier : Reached strict context rules code handlers current first second)
    (later : Reached strict context rules code handlers current second third) :
    Reached strict context rules code handlers current first third :=
  ⟨later.sound, earlier.widened.trans later.widened,
    Nat.le_trans earlier.higher later.higher⟩

/-- A new state at a position keeps the analysis sound once the position waits. -/
theorem reached_of_update
    {current : Option (Nat × FrameState)}
    {progress : FlowProgress}
    {position : Nat}
    {offset : UInt16}
    {insn : Insn}
    {incoming merged : FrameState}
    (sound : Sound strict context rules (.ofInsns insns) handlers current progress)
    (located : (LocatedCode.ofInsns insns).insns[position]? = some (offset, insn))
    (absorbed :
      FrameState.Absorbed strict rules offset (progress.states.getD position none) incoming merged) :
    Reached strict context rules (.ofInsns insns) handlers current progress
      (enqueue
        { progress with states := progress.states.setIfInBounds position (some merged) }
        position) := by
  let updated : FlowProgress :=
    { progress with states := progress.states.setIfInBounds position (some merged) }
  have inside : position < progress.states.size := by
    rw [sound.states_size]
    exact (Array.getElem?_eq_some_iff.mp located).1
  have widened :
      Widened rules (.ofInsns insns) progress.states
        (progress.states.setIfInBounds position (some merged)) := by
    intro other otherOffset otherInsn old otherLocated held
    rw [getD_setIfInBounds]
    by_cases same : position = other
    · subst same
      rw [located] at otherLocated
      cases otherLocated
      rw [if_pos ⟨rfl, inside⟩]
      exact ⟨merged, rfl, fun state fits => absorbed.earlier old state held fits⟩
    · rw [if_neg (by tauto)]
      exact ⟨old, held, fun _ fits => fits⟩
  refine ⟨?_, by rw [states_enqueue]; exact widened,
    Nat.le_of_eq (by rw [maxStack_enqueue])⟩
  constructor
  · rw [states_enqueue]
    simpa using sound.states_size
  · rw [size_waiting_enqueue]
    exact sound.waiting_size
  · exact waiting_enqueue updated sound.waiting position
  · intro other otherOffset otherInsn held otherLocated heldAt
    rw [states_enqueue, getD_setIfInBounds] at heldAt
    by_cases same : position = other
    · subst same
      rw [located] at otherLocated
      cases otherLocated
      rw [if_pos ⟨rfl, inside⟩] at heldAt
      cases heldAt
      exact ⟨absorbed.holds, absorbed.known⟩
    · rw [if_neg (by tauto)] at heldAt
      exact sound.holds other otherOffset otherInsn held otherLocated heldAt
  · intro other held heldAt
    by_cases same : position = other
    · exact .inl (same ▸ self_mem_queue_enqueue updated sound.waiting position)
    · rw [states_enqueue, getD_setIfInBounds, if_neg (by tauto)] at heldAt
      rcases sound.pending other held heldAt with queued | settled | isCurrent
      · exact .inl (mem_queue_enqueue updated queued)
      · refine .inr (.inl (settled.widened ?_ ?_))
        · rw [states_enqueue]
          exact widened
        · exact Nat.le_of_eq (by rw [maxStack_enqueue])
      · exact .inr (.inr isCurrent)

/-- Absorbing a state at a position keeps the analysis sound and covers the state. -/
theorem reached_of_reach
    {current : Option (Nat × FrameState)}
    {progress after : FlowProgress}
    {position : Nat}
    {offset : UInt16}
    {insn : Insn}
    {incoming : FrameState}
    (declaredKnown : FrameState.KnownDeclared strict rules)
    (sound : Sound strict context rules (.ofInsns insns) handlers current progress)
    (located : (LocatedCode.ofInsns insns).insns[position]? = some (offset, insn))
    (known : strict → incoming.KnownStack)
    (found : reach rules progress position offset incoming = .ok after) :
    Reached strict context rules (.ofInsns insns) handlers current progress after ∧
      ∃ held,
        after.states.getD position none = some held ∧
          FrameState.Fits rules.hierarchy rules.declared[offset]? incoming held := by
  unfold reach at found
  obtain ⟨merged, mergedFound, found⟩ := bind_eq_ok_iff.mp found
  have absorbed :=
    FrameState.absorbed_of_absorb declaredKnown mergedFound known
      fun old held => sound.holds position offset insn old located held
  by_cases unchanged :
      (progress.states.getD position none).any (FrameState.sameAs merged) = true
  · rw [if_pos unchanged] at found
    cases found
    cases heldAt : progress.states.getD position none with
    | none => simp [heldAt] at unchanged
    | some held =>
        have same : merged = held := by
          simp only [heldAt, Option.any_some, FrameState.sameAs, Bool.and_eq_true,
            beq_iff_eq] at unchanged
          cases merged
          cases held
          simp_all
        exact ⟨.refl sound, held, rfl, same ▸ absorbed.incoming⟩
  · rw [if_neg unchanged] at found
    cases found
    refine ⟨reached_of_update sound located absorbed, merged, ?_, absorbed.incoming⟩
    have inside : position < progress.states.size := by
      rw [sound.states_size]
      exact (Array.getElem?_eq_some_iff.mp located).1
    rw [states_enqueue, getD_setIfInBounds, if_pos ⟨rfl, inside⟩]

/-- Letting an offset absorb a state keeps the analysis sound, and the offset leads there. -/
theorem reached_of_flowTo
    {current : Option (Nat × FrameState)}
    {progress after : FlowProgress}
    {offset : UInt16}
    {incoming : FrameState}
    (declaredKnown : FrameState.KnownDeclared strict rules)
    (sound : Sound strict context rules (.ofInsns insns) handlers current progress)
    (known : strict → incoming.KnownStack)
    (found : flowTo (.ofInsns insns) rules progress offset incoming = .ok after) :
    Reached strict context rules (.ofInsns insns) handlers current progress after ∧
      Leads rules (.ofInsns insns) after.states offset incoming := by
  unfold flowTo at found
  split at found
  · cases found
  · rename_i position means
    obtain ⟨insn, located⟩ := LocatedCode.insn_of_positions means
    obtain ⟨reached, held, heldAt, fits⟩ :=
      reached_of_reach declaredKnown sound located known found
    exact ⟨reached, position, held, means, heldAt, fits⟩

/-- Letting several offsets absorb a state keeps the analysis sound, and all lead there. -/
theorem reached_of_flowTo_all
    {current : Option (Nat × FrameState)}
    {offsets : List UInt16}
    {progress after : FlowProgress}
    {incoming : FrameState}
    (declaredKnown : FrameState.KnownDeclared strict rules)
    (sound : Sound strict context rules (.ofInsns insns) handlers current progress)
    (known : strict → incoming.KnownStack)
    (found :
      offsets.foldlM
        (fun progress offset => flowTo (.ofInsns insns) rules progress offset incoming)
        progress = .ok after) :
    Reached strict context rules (.ofInsns insns) handlers current progress after ∧
      ∀ offset ∈ offsets, Leads rules (.ofInsns insns) after.states offset incoming := by
  induction offsets generalizing progress with
  | nil =>
      cases found
      exact ⟨.refl sound, by simp⟩
  | cons offset rest inductionHypothesis =>
      obtain ⟨middle, first, others⟩ := bind_eq_ok_iff.mp found
      obtain ⟨reached, leads⟩ := reached_of_flowTo declaredKnown sound known first
      obtain ⟨restReached, restLeads⟩ := inductionHypothesis reached.sound others
      refine ⟨reached.trans restReached, ?_⟩
      intro other member
      rcases List.mem_cons.mp member with rfl | inRest
      · exact leads.widened restReached.widened
      · exact restLeads other inRest

/-- Noting a higher stack keeps the analysis sound. -/
theorem reached_of_maxStack
    {current : Option (Nat × FrameState)}
    {progress : FlowProgress}
    (sound : Sound strict context rules (.ofInsns insns) handlers current progress)
    {height : Nat}
    (higher : progress.maxStack ≤ height) :
    Reached strict context rules (.ofInsns insns) handlers current progress
      { progress with maxStack := height } := by
  refine ⟨?_, .refl _ _, higher⟩
  refine ⟨sound.states_size, sound.waiting_size, sound.waiting, sound.holds, ?_⟩
  intro position held heldAt
  rcases sound.pending position held heldAt with queued | settled | isCurrent
  · exact .inl queued
  · exact .inr (.inl (settled.widened (.refl _ _) higher))
  · exact .inr (.inr isCurrent)

/-- Letting handlers absorb two states keeps the analysis sound, and all lead there. -/
theorem reached_of_flowToHandler_all
    {current : Option (Nat × FrameState)}
    {ranges : List HandlerRange}
    {progress after : FlowProgress}
    {before behind : FrameState}
    (declaredKnown : FrameState.KnownDeclared strict rules)
    (sound : Sound strict context rules (.ofInsns insns) handlers current progress)
    (found :
      ranges.foldlM (flowToHandler (.ofInsns insns) rules before behind) progress =
        .ok after) :
    Reached strict context rules (.ofInsns insns) handlers current progress after ∧
      ∀ range ∈ ranges,
        1 ≤ after.maxStack ∧
          Leads rules (.ofInsns insns) after.states range.handler
              ⟨before.locals, [range.caught]⟩ ∧
            Leads rules (.ofInsns insns) after.states range.handler
              ⟨behind.locals, [range.caught]⟩ := by
  induction ranges generalizing progress with
  | nil =>
      cases found
      exact ⟨.refl sound, by simp⟩
  | cons range rest inductionHypothesis =>
      obtain ⟨handled, stepped, others⟩ := bind_eq_ok_iff.mp found
      obtain ⟨middle, first, second⟩ := bind_eq_ok_iff.mp stepped
      have known (locals : List SlotType) :
          strict → (⟨locals, [range.caught]⟩ : FrameState).KnownStack := by
        simp [FrameState.KnownStack, HandlerRange.caught]
      have noted := reached_of_maxStack sound (Nat.le_max_left progress.maxStack 1)
      obtain ⟨firstReached, firstLeads⟩ :=
        reached_of_flowTo declaredKnown noted.sound (known _) first
      obtain ⟨secondReached, secondLeads⟩ :=
        reached_of_flowTo declaredKnown firstReached.sound (known _) second
      obtain ⟨restReached, restLeads⟩ := inductionHypothesis secondReached.sound others
      refine
        ⟨noted.trans (firstReached.trans (secondReached.trans restReached)), ?_⟩
      intro other member
      rcases List.mem_cons.mp member with rfl | inRest
      · refine
          ⟨?_, firstLeads.widened (secondReached.trans restReached).widened,
            secondLeads.widened restReached.widened⟩
        have higher := (firstReached.trans (secondReached.trans restReached)).higher
        simp only at higher
        omega
      · exact restLeads other inRest

/-! ## Stepping through queued instructions -/

/-- Taking a position off the queue leaves it to be stepped through. -/
theorem sound_of_pop
    {progress : FlowProgress}
    {position : Nat}
    {queue : Queue Nat}
    (sound : Sound strict context rules (.ofInsns insns) handlers none progress)
    (popped : progress.queue.pop? = some (position, queue)) :
    Sound strict context rules (.ofInsns insns) handlers
      ((progress.states.getD position none).map (position, ·))
      { progress with
        queue, waiting := progress.waiting.setIfInBounds position false } := by
  have order := Queue.pop?_eq_some popped
  constructor
  · exact sound.states_size
  · simpa using sound.waiting_size
  · intro other marked
    rw [getD_setIfInBounds] at marked
    have different : position ≠ other := by
      rintro rfl
      by_cases inside : position < progress.waiting.size
      · simp [inside] at marked
      · rw [if_neg (by tauto)] at marked
        simp [Array.getD, inside] at marked
    rw [if_neg (by tauto)] at marked
    have queued := sound.waiting other marked
    rw [order] at queued
    exact (List.mem_cons.mp queued).resolve_left different.symm
  · exact sound.holds
  · intro other held heldAt
    rcases sound.pending other held heldAt with queued | settled | impossible
    · rw [order] at queued
      rcases List.mem_cons.mp queued with rfl | inRest
      · have heldAt : progress.states.getD other none = some held := heldAt
        exact .inr (.inr (by simp [heldAt]))
      · exact .inl inRest
    · exact .inr (.inl settled)
    · cases impossible

/-- Once the position that is stepped through is settled nothing is left over. -/
theorem Sound.settle
    {position : Nat}
    {before : FrameState}
    {progress : FlowProgress}
    (sound : Sound strict context rules (.ofInsns insns) handlers (some (position, before)) progress)
    (settled : Settled context rules (.ofInsns insns) handlers progress position before) :
    Sound strict context rules (.ofInsns insns) handlers none progress := by
  refine ⟨sound.states_size, sound.waiting_size, sound.waiting, sound.holds, ?_⟩
  intro other held heldAt
  rcases sound.pending other held heldAt with queued | otherSettled | isCurrent
  · exact .inl queued
  · exact .inr (.inl otherSettled)
  · cases isCurrent
    exact .inr (.inl settled)

/-- Stepping through an instruction settles it. -/
theorem reached_of_visit
    {progress after : FlowProgress}
    {position : Nat}
    (declaredKnown : FrameState.KnownDeclared strict rules)
    (sound :
      Sound strict context rules (.ofInsns insns) handlers
        ((progress.states.getD position none).map (position, ·)) progress)
    (found : visit context rules (.ofInsns insns) handlers progress position = .ok after) :
    Reached strict context rules (.ofInsns insns) handlers none progress after := by
  unfold visit at found
  split at found
  · rename_i outside
    cases found
    have missing : progress.states.getD position none = none := by
      have beyond := Array.getElem?_eq_none_iff.mp outside
      rw [← sound.states_size] at beyond
      simp [Array.getD, Nat.not_lt.mpr beyond]
    rw [missing] at sound
    exact .refl sound
  · rename_i offset insn located
    cases heldAt : progress.states.getD position none with
    | none => simp [heldAt] at found
    | some before =>
        simp only [heldAt, Option.map_some] at found sound
        obtain ⟨behind, stepped, found⟩ := bind_eq_ok_iff.mp found
        obtain ⟨next, followed, found⟩ := bind_eq_ok_iff.mp found
        obtain ⟨middle, flowed, handled⟩ := bind_eq_ok_iff.mp found
        have beforeKnown := (sound.holds position offset insn before located heldAt).2
        have noted :=
          reached_of_maxStack sound
            (Nat.le_max_left progress.maxStack (SlotType.stackSlots before.stack))
        have notedBehind :=
          reached_of_maxStack noted.sound
            (Nat.le_max_left
              (max progress.maxStack (SlotType.stackSlots before.stack))
              (SlotType.stackSlots behind.stack))
        obtain ⟨flowReached, leads⟩ :=
          reached_of_flowTo_all declaredKnown notedBehind.sound
            (fun asked => Insn.knownStack_of_step stepped (beforeKnown asked)) flowed
        obtain ⟨handlersReached, caught⟩ :=
          reached_of_flowToHandler_all declaredKnown flowReached.sound handled
        have later := flowReached.trans handlersReached
        have reached := (noted.trans notedBehind).trans later
        have higher := later.higher
        simp only at higher
        refine ⟨reached.sound.settle ?_, reached.widened, reached.higher⟩
        refine ⟨offset, insn, behind, next, located, stepped, followed, ?_, ?_, by omega,
          by omega⟩
        · intro successor member
          exact (leads successor member).widened handlersReached.widened
        · intro range member covers
          exact caught range (List.mem_filter.mpr ⟨member, covers⟩)

/-- A run that empties the queue leaves every position settled. -/
theorem reached_of_run
    {steps : Nat}
    {progress after : FlowProgress}
    (declaredKnown : FrameState.KnownDeclared strict rules)
    (sound : Sound strict context rules (.ofInsns insns) handlers none progress)
    (found : run context rules (.ofInsns insns) handlers steps progress = .ok after) :
    Reached strict context rules (.ofInsns insns) handlers none progress after ∧
      after.queue.toList = [] := by
  induction steps generalizing progress with
  | zero =>
      unfold run at found
      split at found
      · rename_i empty
        cases found
        exact ⟨.refl sound, Queue.pop?_eq_none_iff.mp empty⟩
      · cases found
  | succ steps inductionHypothesis =>
      unfold run at found
      split at found
      · rename_i empty
        cases found
        exact ⟨.refl sound, Queue.pop?_eq_none_iff.mp empty⟩
      · rename_i position queue popped
        obtain ⟨middle, visited, others⟩ := bind_eq_ok_iff.mp found
        have first := reached_of_visit declaredKnown (sound_of_pop sound popped) visited
        obtain ⟨rest, empty⟩ := inductionHypothesis first.sound others
        exact ⟨⟨rest.sound, first.widened.trans rest.widened,
          Nat.le_trans first.higher rest.higher⟩, empty⟩

/-- Before anything is known the analysis is sound. -/
theorem sound_blank
    (maxStack : Nat) :
    Sound strict context rules (.ofInsns insns) handlers none
      ⟨(insns.map fun _ => (none : Option FrameState)).toArray, .ofList [],
        ((insns.map fun _ => (none : Option FrameState)).map fun _ => false).toArray,
        maxStack⟩ := by
  constructor
  · simp
  · simp
  · intro position marked
    rw [getD_toArray_const] at marked
    cases marked
  · intro position _ _ held _ heldAt
    rw [getD_toArray_const] at heldAt
    cases heldAt
  · intro position held heldAt
    rw [getD_toArray_const] at heldAt
    cases heldAt

end Flow

end FlowProgress
end JvmClass
