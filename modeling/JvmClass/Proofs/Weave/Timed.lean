import JvmClass.Proofs.Weave.Emitted

namespace JvmClass

/-!
# Depths of timed bodies

Both ways of timing insert what is stack-neutral.  Two longs on top of what a checked
body leaves on the stack fit the stack that is declared, and the time of entry is kept
behind the local variables of the body, where nothing else is stored.
-/

/-- Local variables behind those of a state are assigned all at once. -/
theorem DepthState.assign_widened_false
    (state : DepthState)
    (width : Nat) :
    ((state.widened (List.replicate width false)).assign state.assigned.length width).1 =
      state.widened (List.replicate width true) := by
  simp [assign, widened]

/-- What changes a field by the time stands at the start and in front of exits. -/
structure Expansion.Counting
    (expansion : Expansion)
    (field : Member)
    (clock : Clock) : Prop where
  entry : expansion.entry = Node.insns (Timer.changeField field clock Opcode.lsub).nodes
  ahead :
    ∀ item,
      expansion.ahead item = [] ∨
        expansion.ahead item = Node.insns (Timer.changeField field clock Opcode.ladd).nodes

/-- A body that counts in a field changes it by the time. -/
theorem Weaver.counting_expansion
    {weaver : Weaver Unit}
    {field : Member}
    {clock : Clock}
    {body : Body}
    (advised : weaver.advice = Timer.fieldCounter field clock) :
    (weaver.expansion () body).Counting field clock := by
  constructor
  · simp only [expansion, entryInsns, advised]
    rfl
  · intro item
    simp only [Expansion.ahead, expansion, inserted, exitInsns, advised]
    split
    · exact .inr rfl
    · exact .inl rfl

namespace Emission.Sound

variable
  {emission : Emission} {original : Array (Option DepthState)} {field : Member} {clock : Clock}
  (sound : emission.Sound)
  (finds : emission.Finds original)
  (fits : emission.Fits original)
  (stack :
    max 1 emission.code.maxStack.toNat + adviceStack ≤ emission.raw.maxStack.toNat)
  (long : field.descriptor = "J")

omit sound in
include fits stack in
/-- In front of each block there is room for two longs behind the local variables of the body. -/
theorem room_of_begins
    {extra : List Bool}
    {index : Nat}
    {state : DepthState}
    (begins : (emission.depths original extra).states index = some state) :
    state.depth.toNat + adviceStack ≤ emission.raw.maxStack.toNat ∧
      ∃ own,
        own.length = emission.code.maxLocals.toNat ∧ state.assigned = own ++ extra := by
  replace begins :
    Depths.carry original emission.decoded.insns.length emission.code.maxLocals.toNat extra index =
      some state := begins
  unfold Depths.carry at begins
  split at begins
  · obtain ⟨held, found, rfl⟩ := Option.map_eq_some_iff.mp begins
    obtain ⟨depth, count⟩ := fits index held found
    refine ⟨?_, held.assigned, count, rfl⟩
    rw [UInt16.le_iff_toNat_le] at depth
    rw [DepthState.depth_widened]
    omega
  · cases begins
    refine ⟨?_, _, List.length_replicate, rfl⟩
    show 1 + adviceStack ≤ emission.raw.maxStack.toNat
    omega

include sound

/-- The rows of an emission lie as what they were resolved to. -/
theorem forall₂_row
    {extra : List Bool}
    {start : Nat}
    {snippet : List Insn}
    (spots :
      ∀ position insn,
        snippet[position]? = some insn →
          emission.expansion.Spot (fun _ => True) (start + position) insn) :
    List.Forall₂ (LaidOut.LiesAs emission.start emission.grown emission.labels.place) snippet
      ((emission.depths original extra).row start snippet.length) :=
  (emission.depths original extra).forall₂_row sound.laid spots

include finds fits stack long

/-- What was found along a body is carried over to one that counts in a field. -/
theorem carried_of_counting
    (guarded : emission.expansion.Guarded emission.guards)
    (counting : emission.expansion.Counting field clock) :
    (emission.depths original
      (List.replicate (emission.raw.maxLocals.toNat - emission.code.maxLocals.toNat)
        false)).Carried
      (LaidOut.Finds emission.start emission.grown) emission.pool emission.type emission.code
      emission.body emission.decoded emission.tables emission.labels.place
      emission.raw.code.length original
      (List.replicate (emission.raw.maxLocals.toNat - emission.code.maxLocals.toNat) false)
      emission.guards := by
  generalize behind :
    List.replicate (emission.raw.maxLocals.toNat - emission.code.maxLocals.toNat) false = extra
  have rows {start : Nat} {combine : Opcode} {state : DepthState}
      (combines : combine = Opcode.ladd ∨ combine = Opcode.lsub)
      (room : state.depth.toNat + adviceStack ≤ emission.raw.maxStack.toNat)
      (spots :
        ∀ position insn,
          (Node.insns (Timer.changeField field clock combine).nodes)[position]? = some insn →
            emission.expansion.Spot (fun _ => True) (start + position) insn) :
      DepthState.Runs (emission.depths original extra).context state
        ((emission.depths original extra).row start
          (Node.insns (Timer.changeField field clock combine).nodes).length) state :=
    DepthState.runs_changeField sound.numbers (sound.forall₂_row spots) combines long room
  have larger : emission.code.maxStack ≤ emission.raw.maxStack := by
    rw [UInt16.le_iff_toNat_le]
    omega
  have entry :
      (emission.depths original extra).entry =
        (DepthState.onEntry emission.type emission.isStatic emission.code.maxLocals).1.widened
          extra := by
    rw [← behind]
    exact DepthState.onEntry_widened sound.fits sound.room
  have runs :
      DepthState.Runs (emission.depths original extra).context
        (emission.depths original extra).entry
        ((emission.depths original extra).row 0 emission.expansion.entry.length)
        (emission.depths original extra).entry := by
    rw [counting.entry]
    refine rows (.inr rfl) ?_ fun position insn listed => ?_
    · rw [entry, DepthState.onEntry_of_fits sound.fits, DepthState.depth_widened]
      show 0 + adviceStack ≤ emission.raw.maxStack.toNat
      omega
    · rw [Nat.zero_add]
      exact .entry (counting.entry ▸ listed)
  refine sound.carried finds (.inr ⟨fits, larger⟩) guarded (fun _ => fits) ⟨runs.runsClean, ?_⟩ ?_
  · rw [Depths.behind, expansion_depths, runs.through_eq]
    exact sound.begins_zero finds (entry ▸ .refl _)
  · intro index item state listed begins
    rcases counting.ahead item with nothing | changes
    · rw [nothing]
      exact .nil _
    · rw [changes]
      refine rows (.inl rfl) (room_of_begins fits stack begins).1 fun position insn inFront => ?_
      exact .inserted trivial listed (changes ▸ inFront)

omit finds fits long in
/-- On entry the time is stored behind the local variables of the body. -/
theorem runs_entry_of_keeping
    {slot : UInt16}
    {first : DepthState}
    (start :
      first = (DepthState.onEntry emission.type emission.isStatic emission.code.maxLocals).1)
    (keeping : emission.expansion.Keeping emission.code.maxLocals field clock slot) :
    DepthState.Runs (emission.depths original (List.replicate 2 true)).context
      (first.widened (List.replicate 2 false))
      ((emission.depths original (List.replicate 2 true)).row 0 emission.expansion.entry.length)
      (first.widened (List.replicate 2 true)) := by
  have onEntry := DepthState.onEntry_of_fits sound.fits
  have length : first.assigned.length = emission.code.maxLocals.toNat := by
    have fits := sound.fits
    rw [start, onEntry, List.length_append, List.length_replicate, List.length_replicate]
    omega
  have lies :=
    @forall₂_row _ original sound (List.replicate 2 true) 0 emission.expansion.entry
      fun position insn listed => by
        rw [Nat.zero_add]
        exact .entry listed
  have assigned := first.assign_widened_false 2
  rw [length, ← keeping.place] at assigned
  rw [← assigned]
  rw [keeping.entry] at lies ⊢
  refine DepthState.runs_entry sound.numbers lies ?_ ?_
  · rw [DepthState.assigned_widened, List.length_append, length, List.length_replicate,
      keeping.place]
  · rw [DepthState.depth_widened, start, onEntry]
    show 0 + adviceStack ≤ emission.raw.maxStack.toNat
    omega

/-- What was found along a body is carried over to one that keeps the time of entry. -/
theorem carried_of_keeping
    {slot : UInt16}
    (nothing : emission.guards = [])
    (guarded : emission.expansion.Guarded emission.guards)
    (keeping : emission.expansion.Keeping emission.code.maxLocals field clock slot)
    (locals : emission.raw.maxLocals.toNat = emission.code.maxLocals.toNat + 2) :
    (emission.depths original (List.replicate 2 true)).Carried
      (LaidOut.Finds emission.start emission.grown) emission.pool emission.type emission.code
      emission.body emission.decoded emission.tables emission.labels.place
      emission.raw.code.length original (List.replicate 2 true) emission.guards := by
  obtain ⟨first, start⟩ :
      ∃ first,
        first =
          (DepthState.onEntry emission.type emission.isStatic emission.code.maxLocals).1 :=
    ⟨_, rfl⟩
  have larger : emission.code.maxStack ≤ emission.raw.maxStack := by
    rw [UInt16.le_iff_toNat_le]
    omega
  have entry :
      (emission.depths original (List.replicate 2 true)).entry =
        first.widened (List.replicate 2 false) := by
    have widened := DepthState.onEntry_widened sound.fits sound.room
    rw [locals, Nat.add_sub_cancel_left, ← start] at widened
    exact widened
  have runs := @runs_entry_of_keeping _ original _ _ sound stack _ _ start keeping
  refine sound.carried finds (.inr ⟨fits, larger⟩) guarded (absurd nothing) ⟨?_, ?_⟩ ?_
  · rw [entry]
    exact runs.runsClean
  · rw [entry, Depths.behind, expansion_depths, runs.through_eq]
    exact sound.begins_zero finds (start ▸ .refl _)
  · intro index item state listed begins
    rcases keeping.ahead item (List.mem_of_getElem? listed) with nothing | ⟨_, elapsed⟩
    · rw [nothing]
      exact .nil _
    · obtain ⟨room, own, count, shape⟩ := room_of_begins fits stack begins
      have lies :=
        @forall₂_row _ original sound (List.replicate 2 true) (emission.expansion.start index)
          (emission.expansion.ahead item) fun position insn inFront =>
            .inserted trivial listed inFront
      rw [elapsed] at lies ⊢
      refine
        DepthState.runs_addElapsed sound.numbers lies long ?_ (fun other above below => ?_) room
      · rw [shape, List.length_append, count, List.length_replicate, keeping.place]
      · rw [keeping.place] at above below
        rw [shape, List.getElem?_append_right (count ▸ above), count,
          List.getElem?_replicate_of_lt (by omega)]

end Emission.Sound

end JvmClass
