import JvmClass.Proofs.Weave.Advised
import JvmClass.Proofs.Weave.Carried

namespace JvmClass

/-!
# Stack-neutral snippets

A snippet of a timer needs room for two longs above what it finds, and leaves the
stack as it found it.  The depth check finds nothing wrong with one as long as there
is that room, and as long as the time of entry was stored before it is loaded.
-/

/-! ## Instructions of snippets -/

/-- An instruction moves the stack, touches no local variable and does not return. -/
structure Insn.OnlyMoves
    (pool : Pool)
    (insn : Insn)
    (move : SlotMove) : Prop where
  silent : insn.access? = none
  stays : insn.opcode.isReturn = false
  effect : insn.effect pool = .ok move.effect

namespace DepthState

/-- The state with further slots on the stack. -/
def raised
    (slots : Nat)
    (state : DepthState) : DepthState :=
  { state with depth := state.depth + UInt16.ofNat slots }

@[simp] theorem assigned_raised
    (slots : Nat)
    (state : DepthState) :
    (state.raised slots).assigned = state.assigned :=
  rfl

@[simp] theorem raised_zero
    (state : DepthState) :
    state.raised 0 = state := by
  simp [raised]

/-- Slots for which there is room are counted. -/
theorem toNat_depth_raised
    {state : DepthState}
    {slots : Nat}
    (small : state.depth.toNat + slots < 2 ^ 16) :
    (state.raised slots).depth.toNat = state.depth.toNat + slots := by
  rw [raised, UInt16.toNat_add, UInt16.toNat_ofNat_of_lt' (show slots < 2 ^ 16 by omega),
    Nat.mod_eq_of_lt small]

variable {context : DepthContext} {state : DepthState} {insn : Insn}

/--
Above a state that leaves room for advice, an instruction that moves no more than that
much is stepped through without a finding.
-/
theorem step_raised
    {before after : DepthState}
    {pops pushes : Nat}
    (below : Nat)
    (touches : before.touchLocal insn = (after.raised (below + pops), []))
    (stays : returnFindings context insn = [])
    (effect : insn.effect context.pool = .ok (SlotMove.mk pops pushes).effect)
    (room : after.depth.toNat + adviceStack ≤ context.maxStack.toNat)
    (taken : below + pops ≤ adviceStack)
    (put : below + pushes ≤ adviceStack) :
    before.step context insn = (after.raised (below + pushes), []) := by
  have limited := context.maxStack.toNat_lt
  have behind :
      (after.raised (below + pops)).depth - UInt16.ofNat pops + UInt16.ofNat pushes =
        (after.raised (below + pushes)).depth := by
    simp only [raised, UInt16.ofNat_add, ← UInt16.add_assoc, UInt16.add_sub_cancel]
  have enough : (SlotMove.mk pops pushes).effect.pops ≤ (after.raised (below + pops)).depth := by
    rw [UInt16.le_iff_toNat_le, toNat_depth_raised (by omega)]
    exact Nat.le_trans (UInt16.toNat_ofNat' ▸ Nat.mod_le pops _) (by omega)
  have fits : (after.raised (below + pushes)).depth ≤ context.maxStack := by
    rw [UInt16.le_iff_toNat_le, toNat_depth_raised (by omega)]
    omega
  have moved :=
    (@moveStack_eq_nil_iff context _ insn).mpr ⟨_, effect, enough, fun _ => behind ▸ fits⟩
  rw [step, touches, stays]
  simp only [moveStack_of_effect effect enough, moved, SlotMove.effect, behind]
  rfl

/-- A row starts with a move that takes slots off the stack and puts others on it. -/
theorem Runs.move
    {insns : List Insn}
    {pops pushes : Nat}
    {last : DepthState}
    (below : Nat)
    (room : state.depth.toNat + adviceStack ≤ context.maxStack.toNat)
    (moves : insn.OnlyMoves context.pool ⟨pops, pushes⟩)
    (taken : below + pops ≤ adviceStack)
    (put : below + pushes ≤ adviceStack)
    (later : Runs context (state.raised (below + pushes)) insns last) :
    Runs context (state.raised (below + pops)) (insn :: insns) last := by
  refine .cons (step_raised below ?_ ?_ moves.effect room taken put) later
  · simp only [touchLocal, moves.silent]
  · simp [returnFindings, moves.stays]

/-- A row starts with loading a long that is assigned. -/
theorem Runs.load
    {insns : List Insn}
    {slot : UInt16}
    {last : DepthState}
    (below : Nat)
    (room : state.depth.toNat + adviceStack ≤ context.maxStack.toNat)
    (inside : slot.toNat + 2 ≤ state.assigned.length)
    (marked :
      ∀ other, slot.toNat ≤ other → other < slot.toNat + 2 → state.assigned[other]? = some true)
    (put : below + 2 ≤ adviceStack)
    (later : Runs context (state.raised (below + 2)) insns last) :
    Runs context (state.raised below) (.slot Opcode.lload slot :: insns) last := by
  have reads : (state.raised below).readFindings Opcode.lload slot.toNat 2 = [] :=
    readFindings_eq_nil_iff.mpr ⟨inside, marked⟩
  have touched :
      (state.raised below).touchLocal (.slot Opcode.lload slot) = (state.raised (below + 0), []) := by
    show (state.raised below, (state.raised below).readFindings Opcode.lload slot.toNat 2) = _
    rw [reads]
    rfl
  exact .cons (step_raised below touched rfl rfl room (by omega) put) later

/-- A row starts with storing a long where there is a place for it. -/
theorem Runs.store
    {insns : List Insn}
    {slot : UInt16}
    {last : DepthState}
    (room : state.depth.toNat + adviceStack ≤ context.maxStack.toNat)
    (inside : slot.toNat + 2 ≤ state.assigned.length)
    (later : Runs context (state.assign slot.toNat 2).1 insns last) :
    Runs context (state.raised 2) (.slot Opcode.lstore slot :: insns) last := by
  have touched :
      (state.raised 2).touchLocal (.slot Opcode.lstore slot) =
        ((state.assign slot.toNat 2).1.raised (0 + 2), []) := by
    have insideRaised : slot.toNat + 2 ≤ (state.raised 2).assigned.length := inside
    show (((state.raised 2).assign slot.toNat 2).1, [] ++ ((state.raised 2).assign slot.toNat 2).2) = _
    simp only [assign, if_pos insideRaised, if_pos inside]
    rfl
  have roomThere : (state.assign slot.toNat 2).1.depth.toNat + adviceStack ≤ context.maxStack.toNat := by
    rwa [depth_assign]
  have stepped :=
    @step_raised context _ _ _ 2 0 0 touched rfl rfl roomThere (by decide) (by decide)
  rw [Nat.zero_add, raised_zero] at stepped
  exact .cons stepped later

end DepthState

/-! ## Snippets of timers -/

/-- An instruction lies in a body as what it was resolved to. -/
def LaidOut.LiesAs
    (start grown : Pool)
    (place : Label → Nat)
    (insn located : Insn) : Prop :=
  ∃ resolved, Finds start grown insn resolved ∧ located = resolved.mapTargets place

/-- Instructions were resolved in a pool that had room for what they name. -/
structure LaidOut.Numbers
    (start grown last : Pool) : Prop where
  coherent : start.Coherent
  small : grown.size ≤ 2 ^ 16
  kept : Entry.Extends grown.entries last.entries

namespace LaidOut.Numbers

variable
  {start grown last : Pool} {place : Label → Nat} {insn located : Insn} {field : Member}
  {clock : Clock}
  (numbers : Numbers start grown last)
include numbers

omit numbers in
/-- An instruction that names nothing lies in a body as it is. -/
theorem eq_of_indexed
    (lies : LiesAs start grown place insn located)
    (indexed : insn.Indexed) :
    located = insn.mapTargets place := by
  obtain ⟨resolved, finds, rfl⟩ := lies
  rw [finds.1.eq_of_indexed indexed]

/-- Accessing a static field of type long moves a long. -/
theorem onlyMoves_fieldInsn
    {code : Opcode}
    (lies : LiesAs start grown place (Timer.fieldInsn code field) located)
    (stays : code.isReturn = false)
    (long : field.descriptor = "J")
    {move : SlotMove}
    (moves : Insn.fieldEffect code 2 = move.effect) :
    located.OnlyMoves last move := by
  obtain ⟨resolved, ⟨_, resolves⟩, rfl⟩ := lies
  have resolves := (resolves numbers.coherent numbers.small).extend numbers.kept
  obtain ⟨owner, name, descriptor⟩ := field
  obtain rfl : descriptor = "J" := long
  simp only [Timer.fieldInsn] at resolves
  generalize named : MemberRef.named owner name "J" = target at resolves
  cases resolves with
  | indexed isIndexed =>
      rw [← named] at isIndexed
      exact isIndexed.elim
  | @field code names index stands =>
      obtain ⟨rfl, rfl, same⟩ := MemberRef.named.inj named
      refine ⟨rfl, stays, ?_⟩
      rw [Insn.effect_mapTargets]
      refine bind_eq_ok_iff.mpr ⟨names, mapError_eq_ok_iff.mpr stands.2, ?_⟩
      rw [← same, ← moves]
      rfl

/-- Reading the clock pushes a long. -/
theorem onlyMoves_readClock
    (lies : LiesAs start grown place (Timer.readClock clock) located) :
    located.OnlyMoves last ⟨0, 2⟩ := by
  obtain ⟨resolved, ⟨_, resolves⟩, rfl⟩ := lies
  have resolves := (resolves numbers.coherent numbers.small).extend numbers.kept
  simp only [Timer.readClock] at resolves
  generalize named : MemberRef.named clock.owner clock.name Clock.descriptor = target at resolves
  cases resolves with
  | indexed isIndexed =>
      rw [← named] at isIndexed
      exact isIndexed.elim
  | @method code names index stands =>
      obtain ⟨_, _, same⟩ := MemberRef.named.inj named
      refine ⟨rfl, rfl, ?_⟩
      rw [Insn.effect_mapTargets]
      refine bind_eq_ok_iff.mpr ⟨names, mapError_eq_ok_iff.mpr stands.2, ?_⟩
      rw [← same]
      decide +kernel

omit numbers in
/-- Combining two longs leaves one. -/
theorem onlyMoves_combine
    {combine : Opcode}
    (lies : LiesAs start grown place (.plain combine) located)
    (combines : combine = Opcode.ladd ∨ combine = Opcode.lsub) :
    located.OnlyMoves last ⟨4, 2⟩ := by
  rw [eq_of_indexed lies trivial]
  rcases combines with rfl | rfl <;> exact ⟨rfl, rfl, rfl⟩

end LaidOut.Numbers

namespace DepthState

open LaidOut

variable
  {start grown : Pool} {place : Label → Nat} {field : Member} {clock : Clock}
  {context : DepthContext} {state : DepthState} {rows : List Insn}
  (numbers : Numbers start grown context.pool)
include numbers

/-- Changing a field by the time is stack-neutral. -/
theorem runs_changeField
    {combine : Opcode}
    (lies :
      List.Forall₂ (LiesAs start grown place)
        (Node.insns (Timer.changeField field clock combine).nodes) rows)
    (combines : combine = Opcode.ladd ∨ combine = Opcode.lsub)
    (long : field.descriptor = "J")
    (room : state.depth.toNat + adviceStack ≤ context.maxStack.toNat) :
    Runs context state rows state := by
  rcases lies with _ | ⟨getLies, _ | ⟨clockLies, _ | ⟨combineLies, _ | ⟨putLies, _ | _⟩⟩⟩⟩
  have getMoves : Insn.OnlyMoves context.pool _ ⟨0, 2⟩ :=
    numbers.onlyMoves_fieldInsn getLies rfl long rfl
  have clockMoves := numbers.onlyMoves_readClock clockLies
  have combineMoves : Insn.OnlyMoves context.pool _ ⟨4, 2⟩ :=
    LaidOut.Numbers.onlyMoves_combine combineLies combines
  have putMoves : Insn.OnlyMoves context.pool _ ⟨2, 0⟩ :=
    numbers.onlyMoves_fieldInsn putLies rfl long rfl
  rw [← raised_zero state]
  refine .move 0 room getMoves (by decide) (by decide) ?_
  refine .move 2 room clockMoves (by decide) (by decide) ?_
  refine .move 0 room combineMoves (by decide) (by decide) ?_
  exact .move 0 room putMoves (by decide) (by decide) (.nil _)

/-- Reading the clock and storing what it gives is stack-neutral, and assigns a long. -/
theorem runs_entry
    {slot : UInt16}
    (lies :
      List.Forall₂ (LiesAs start grown place)
        [Timer.readClock clock, .slot Opcode.lstore slot] rows)
    (inside : slot.toNat + 2 ≤ state.assigned.length)
    (room : state.depth.toNat + adviceStack ≤ context.maxStack.toNat) :
    Runs context state rows (state.assign slot.toNat 2).1 := by
  rcases lies with _ | ⟨clockLies, _ | ⟨storeLies, _ | _⟩⟩
  have clockMoves := numbers.onlyMoves_readClock clockLies
  rw [LaidOut.Numbers.eq_of_indexed storeLies trivial]
  nth_rewrite 1 [← raised_zero state]
  refine .move 0 room clockMoves (by decide) (by decide) ?_
  exact .store room inside (.nil _)

/-- Adding the time since the one that was stored is stack-neutral. -/
theorem runs_addElapsed
    {slot : UInt16}
    (lies :
      List.Forall₂ (LiesAs start grown place)
        (Node.insns (Timer.addElapsed field clock slot).nodes) rows)
    (long : field.descriptor = "J")
    (inside : slot.toNat + 2 ≤ state.assigned.length)
    (marked :
      ∀ other, slot.toNat ≤ other → other < slot.toNat + 2 → state.assigned[other]? = some true)
    (room : state.depth.toNat + adviceStack ≤ context.maxStack.toNat) :
    Runs context state rows state := by
  rcases lies with
    _ | ⟨clockLies, _ | ⟨loadLies, _ | ⟨subLies, _ | ⟨getLies, _ | ⟨addLies, _ |
      ⟨putLies, _ | _⟩⟩⟩⟩⟩⟩
  have clockMoves := numbers.onlyMoves_readClock clockLies
  have subMoves : Insn.OnlyMoves context.pool _ ⟨4, 2⟩ :=
    LaidOut.Numbers.onlyMoves_combine subLies (.inr rfl)
  have getMoves : Insn.OnlyMoves context.pool _ ⟨0, 2⟩ :=
    numbers.onlyMoves_fieldInsn getLies rfl long rfl
  have addMoves : Insn.OnlyMoves context.pool _ ⟨4, 2⟩ :=
    LaidOut.Numbers.onlyMoves_combine addLies (.inl rfl)
  have putMoves : Insn.OnlyMoves context.pool _ ⟨2, 0⟩ :=
    numbers.onlyMoves_fieldInsn putLies rfl long rfl
  rw [LaidOut.Numbers.eq_of_indexed loadLies trivial]
  rw [← raised_zero state]
  refine .move 0 room clockMoves (by decide) (by decide) ?_
  refine .load 2 room inside marked (by decide) ?_
  refine .move 0 room subMoves (by decide) (by decide) ?_
  refine .move 2 room getMoves (by decide) (by decide) ?_
  refine .move 0 room addMoves (by decide) (by decide) ?_
  exact .move 0 room putMoves (by decide) (by decide) (.nil _)

end DepthState

end JvmClass
