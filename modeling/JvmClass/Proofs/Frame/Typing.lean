import JvmClass.Proofs.Frame.Near

namespace JvmClass.FrameState

/-!
# Types along a body

The frames of a body give some of its instructions their types.  In front of each
other instruction are the types that the one before it leaves.
-/

/--
The types in front of each instruction of a body of which some are given theirs.
Nothing is known behind an instruction that control does not fall through.
-/
def typing
    (context : StepContext)
    (insns : List (Nat × Insn))
    (given : Nat → Option FrameState) : Nat → Option FrameState
  | 0 => given 0
  | position + 1 =>
      match given (position + 1) with
      | some state => some state
      | none => do
          let before ← typing context insns given position
          let (offset, insn) ← insns[position]?
          if insn.opcode.endsFlow then
            none
          else
            (insn.step context (UInt16.ofNat offset) before).toOption

/-- The types that are declared for the instruction at a position. -/
def declaredAt
    (declared : Std.TreeMap UInt16 FrameState)
    (insns : List (Nat × Insn))
    (position : Nat) : Option FrameState := do
  let (offset, _) ← insns[position]?
  declared[UInt16.ofNat offset]?

section Typing

variable
  {context : StepContext} {insns : List (Nat × Insn)} {given : Nat → Option FrameState}
  {position offset : Nat} {insn : Insn} {state before behind : FrameState}

theorem typing_of_given
    (found : given position = some state) :
    typing context insns given position = some state := by
  cases position with
  | zero => exact found
  | succ position => simp only [typing, found]

/-- What a step leaves are the types in front of the next instruction. -/
theorem typing_succ
    (free : given (position + 1) = none)
    (typed : typing context insns given position = some before)
    (placed : insns[position]? = some (offset, insn))
    (continues : insn.opcode.endsFlow = false)
    (stepped : insn.step context (UInt16.ofNat offset) before = .ok behind) :
    typing context insns given (position + 1) = some behind := by
  simp only [typing, free, typed, placed, Option.bind_eq_bind, Option.bind_some, continues, stepped,
    Bool.false_eq_true, if_false, Except.toOption]

/-- Types that are not given come from the instruction before. -/
theorem exists_step_of_typing
    (free : given (position + 1) = none)
    (typed : typing context insns given (position + 1) = some behind) :
    ∃ before offset insn,
      typing context insns given position = some before ∧
        insns[position]? = some (offset, insn) ∧
        insn.opcode.endsFlow = false ∧
        insn.step context (UInt16.ofNat offset) before = .ok behind := by
  simp only [typing, free, Option.bind_eq_bind, Option.bind_eq_some_iff] at typed
  obtain ⟨before, typedBefore, ⟨offset, insn⟩, placed, stepped⟩ := typed
  refine ⟨before, offset, insn, typedBefore, placed, ?_⟩
  cases continues : insn.opcode.endsFlow with
  | true => simp [continues] at stepped
  | false =>
      refine ⟨rfl, ?_⟩
      cases found : insn.step context (UInt16.ofNat offset) before with
      | error error => simp [continues, found, Except.toOption] at stepped
      | ok result => simp_all [Except.toOption]

theorem declaredAt_eq_some_iff
    {declared : Std.TreeMap UInt16 FrameState} :
    declaredAt declared insns position = some state ↔
      ∃ offset insn,
        insns[position]? = some (offset, insn) ∧ declared[UInt16.ofNat offset]? = some state := by
  simp [declaredAt, Option.bind_eq_some_iff]

theorem declaredAt_of_placed
    {declared : Std.TreeMap UInt16 FrameState}
    (placed : insns[position]? = some (offset, insn)) :
    declaredAt declared insns position = declared[UInt16.ofNat offset]? := by
  simp [declaredAt, placed]

end Typing

end JvmClass.FrameState
