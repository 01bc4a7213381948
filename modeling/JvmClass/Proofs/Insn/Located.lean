import JvmClass.Insn.Located
import Mathlib.Data.List.Induction

namespace JvmClass.LocatedCode

/-!
# Which instruction an offset means

An offset means the last instruction that lies at it.  Where no two instructions
share an offset, that is the instruction at the offset.
-/

/-- A position holds the last instruction that lies at an offset. -/
def IsLastAt
    (code : LocatedCode)
    (offset : UInt16)
    (position : Nat) : Prop :=
  (∃ insn, code.insns[position]? = some (offset, insn)) ∧
    ∀ later insn, position < later → code.insns[later]? ≠ some (offset, insn)

/-- Control can go from the instruction at a position to the one at another. -/
def Onward
    (code : LocatedCode)
    (position : Nat)
    (insn : Insn)
    (next : Nat) : Prop :=
  ∃ offset,
    code.positions[offset]? = some next ∧
      ((∃ target ∈ insn.targets, offset = UInt16.ofNat target) ∨
        insn.opcode.endsFlow = false ∧ code.offsetAfter? position = some offset)

/-- Control goes on to a position that a jump and the order of the body agree on. -/
theorem Onward.eq_of_agree
    {code : LocatedCode}
    {position next following : Nat}
    {insn : Insn}
    (onward : code.Onward position insn next)
    (jumps :
      ∀ target ∈ insn.targets, code.positions[UInt16.ofNat target]? = some following)
    (falls :
      insn.opcode.endsFlow = false →
        (code.offsetAfter? position).bind (code.positions[·]?) = some following) :
    next = following := by
  obtain ⟨offset, means, ⟨target, listed, rfl⟩ | ⟨continues, placed⟩⟩ := onward
  · exact Option.some.inj (means.symm.trans (jumps target listed))
  · have found := falls continues
    rw [placed] at found
    exact Option.some.inj (means.symm.trans found)

/-- The instructions of a body with their offsets in sixteen bits. -/
def located (insns : List (Nat × Insn)) : List (UInt16 × Insn) :=
  insns.map fun (offset, insn) => (UInt16.ofNat offset, insn)

@[simp] theorem toList_insns_ofInsns
    (insns : List (Nat × Insn)) :
    (ofInsns insns).insns.toList = located insns := by
  simp [ofInsns, located]

@[simp] theorem size_insns_ofInsns
    (insns : List (Nat × Insn)) :
    (ofInsns insns).insns.size = insns.length := by
  simp [ofInsns]

/-- An instruction and its offset by position. -/
theorem getElem?_insns_ofInsns
    (insns : List (Nat × Insn))
    (position : Nat) :
    (ofInsns insns).insns[position]? =
      insns[position]?.map fun (offset, insn) => (UInt16.ofNat offset, insn) := by
  simp [ofInsns]

theorem located_of_placed
    {insns : List (Nat × Insn)}
    {position offset : Nat}
    {insn : Insn}
    (placed : insns[position]? = some (offset, insn)) :
    (ofInsns insns).insns[position]? = some (UInt16.ofNat offset, insn) := by
  rw [getElem?_insns_ofInsns, placed]
  rfl

theorem placed_of_located
    {insns : List (Nat × Insn)}
    {position : Nat}
    {offset : UInt16}
    {insn : Insn}
    (located : (ofInsns insns).insns[position]? = some (offset, insn)) :
    ∃ place, insns[position]? = some (place, insn) ∧ offset = UInt16.ofNat place := by
  rw [getElem?_insns_ofInsns] at located
  obtain ⟨⟨place, _⟩, placed, shape⟩ := Option.map_eq_some_iff.mp located
  cases shape
  exact ⟨place, placed, rfl⟩

/-- A located instruction is one of the body. -/
theorem exists_placed
    {insns : List (Nat × Insn)}
    {position : Nat}
    {offset : UInt16}
    {insn : Insn}
    (located : (ofInsns insns).insns[position]? = some (offset, insn)) :
    ∃ place, (place, insn) ∈ insns := by
  obtain ⟨place, placed, _⟩ := placed_of_located located
  exact ⟨place, List.mem_of_getElem? placed⟩

/-- Numbering the offsets of a row leaves each with the last number it was given. -/
theorem getElem?_numbered
    (row : List (UInt16 × Insn))
    (offset : UInt16)
    (position : Nat) :
    let numbered :=
      row.foldl
        (fun (positions, next) (offset, _) => (positions.insert offset next, next + 1))
        ((∅ : Std.TreeMap UInt16 Nat), 0)
    numbered.2 = row.length ∧
      (numbered.1[offset]? = some position ↔
        (∃ insn, row[position]? = some (offset, insn)) ∧
          ∀ later insn, position < later → row[later]? ≠ some (offset, insn)) := by
  induction row using List.reverseRecOn with
  | nil => simp
  | append_singleton row last inductionHypothesis =>
      obtain ⟨lastOffset, lastInsn⟩ := last
      simp only [List.foldl_append, List.foldl_cons, List.foldl_nil] at inductionHypothesis ⊢
      obtain ⟨counted, numbered⟩ := inductionHypothesis
      refine ⟨by simp [counted], ?_⟩
      rw [Std.TreeMap.getElem?_insert, counted]
      by_cases same : lastOffset = offset
      · subst same
        simp only [Std.ReflCmp.compare_self, if_true, Option.some.injEq]
        constructor
        · rintro rfl
          refine ⟨⟨lastInsn, by simp⟩, ?_⟩
          intro later insn behind
          rw [List.getElem?_eq_none (by simp; omega)]
          simp
        · rintro ⟨⟨insn, found⟩, noLater⟩
          have inside : position < row.length + 1 := by
            have := (List.getElem?_eq_some_iff.mp found).1
            simpa using this
          by_contra different
          exact noLater row.length lastInsn (by omega) (by simp)
      · have different : compare lastOffset offset ≠ .eq :=
          fun equal => same (Std.LawfulEqOrd.eq_of_compare equal)
        rw [if_neg different, numbered]
        have places (place : Nat) (insn : Insn) :
            (row ++ [(lastOffset, lastInsn)])[place]? = some (offset, insn) ↔
              row[place]? = some (offset, insn) := by
          rw [List.getElem?_append]
          split
          · rfl
          · rename_i outside
            rw [List.getElem?_eq_none (l := row) (by omega)]
            simp only [reduceCtorEq, iff_false]
            intro found
            have member := List.mem_of_getElem? found
            simp only [List.mem_singleton, Prod.mk.injEq] at member
            exact same member.1.symm
        simp only [places, ne_eq]

/-- An offset means the last instruction that lies at it. -/
theorem positions_eq_some_iff
    {insns : List (Nat × Insn)}
    {offset : UInt16}
    {position : Nat} :
    (ofInsns insns).positions[offset]? = some position ↔
      (ofInsns insns).IsLastAt offset position := by
  have numbered := (getElem?_numbered (located insns) offset position).2
  simpa [ofInsns, IsLastAt, located] using numbered

/-- An offset that means a position is the offset of the instruction there. -/
theorem insn_of_positions
    {insns : List (Nat × Insn)}
    {offset : UInt16}
    {position : Nat}
    (found : (ofInsns insns).positions[offset]? = some position) :
    ∃ insn, (ofInsns insns).insns[position]? = some (offset, insn) :=
  (positions_eq_some_iff.mp found).1

theorem lt_of_positions
    {insns : List (Nat × Insn)}
    {offset : UInt16}
    {position : Nat}
    (found : (ofInsns insns).positions[offset]? = some position) :
    position < insns.length := by
  obtain ⟨insn, located⟩ := insn_of_positions found
  simpa using (Array.getElem?_eq_some_iff.mp located).1

/-- Where offsets do not repeat, an offset means the instruction that lies at it. -/
theorem positions_eq_of_nodup
    {insns : List (Nat × Insn)}
    (distinct : ((located insns).map Prod.fst).Nodup)
    {offset : UInt16}
    {position : Nat}
    {insn : Insn}
    (found : (ofInsns insns).insns[position]? = some (offset, insn)) :
    (ofInsns insns).positions[offset]? = some position := by
  refine positions_eq_some_iff.mpr ⟨⟨insn, found⟩, ?_⟩
  intro later laterInsn behind laterFound
  rw [← Array.getElem?_toList, toList_insns_ofInsns] at found laterFound
  have first : ((located insns).map Prod.fst)[position]? = some offset := by simp [found]
  have second : ((located insns).map Prod.fst)[later]? = some offset := by simp [laterFound]
  have inside : position < ((located insns).map Prod.fst).length :=
    (List.getElem?_eq_some_iff.mp first).1
  have same := (List.getElem?_inj inside distinct).mp (first.trans second.symm)
  omega

end JvmClass.LocatedCode
