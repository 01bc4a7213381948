import Std.Data.TreeMap
import JvmClass.Insn

namespace JvmClass

/-!
# Instructions by offset

A flow analysis works through instructions by their position in the body and
follows branches by offset.  This is the body laid out for both.
-/

/-- A body with its instructions by position and their positions by offset. -/
structure LocatedCode where
  insns : Array (UInt16 × Insn)
  positions : Std.TreeMap UInt16 Nat

namespace LocatedCode

/-- The code of a list of instructions with their offsets. -/
def ofInsns (insns : List (Nat × Insn)) : LocatedCode :=
  let located := insns.map fun (offset, insn) => (UInt16.ofNat offset, insn)
  let positions := located.foldl
    (fun (positions, next) (offset, _) => (positions.insert offset next, next + 1))
    ((∅ : Std.TreeMap UInt16 Nat), 0)
  ⟨located.toArray, positions.1⟩

/-- The offset of the instruction behind a position. -/
def offsetAfter? (code : LocatedCode) (position : Nat) : Option UInt16 :=
  code.insns[position + 1]?.map Prod.fst

end LocatedCode
end JvmClass
