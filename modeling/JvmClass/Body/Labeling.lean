import JvmClass.Insn

namespace JvmClass

/-!
# Numbering labels by offset

Decoding places a label at every offset that something refers to and numbers
the labels from zero by ascending offset.  The number of a label is therefore
the number of marked offsets below its own.
-/

/-- Which of the offsets of a body carry a label, and how many labels come before each. -/
structure Labeling where
  marked : Array Bool
  below : Array Label

namespace Labeling

/-- Which of the offsets up to `size` occur in a list. -/
def mark (size : Nat) (offsets : List Nat) : Array Bool :=
  offsets.foldl (fun marked offset => marked.setIfInBounds offset true)
    (Array.replicate (size + 1) false)

/-- How many marks come before each position, after `count` in the positions already seen. -/
def countBelow (count : Nat) (done : Array Nat) : List Bool → Array Nat
  | [] => done
  | mark :: rest => countBelow (count + mark.toNat) (done.push count) rest

/-- Labels at the offsets of a list, of which the last possible one is `size`. -/
def ofOffsets (size : Nat) (offsets : List Nat) : Labeling :=
  let marked := mark size offsets
  ⟨marked, countBelow 0 #[] marked.toList⟩

/-- The label at an offset, if the offset is marked. -/
def label? (labeling : Labeling) (offset : Nat) : Option Label :=
  if labeling.marked.getD offset false then labeling.below[offset]? else none

/-- The number of marked offsets below an offset, which is its label if it is marked. -/
def labelAt (labeling : Labeling) (offset : Nat) : Label :=
  labeling.below.getD offset 0

end Labeling
end JvmClass
