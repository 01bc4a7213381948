import JvmClass.Opcode

namespace JvmClass

/-!
# What plain opcodes do

An opcode without operands acts on the operand stack and on at most one of the
first four local variables.  `Opcode.action?` sorts these opcodes by what they do,
and the type analysis gives the actions their meaning.
-/

/-- The kinds of value that the instruction set tells apart. -/
inductive ValueKind where
  | int
  | long
  | float
  | double
  | reference
  deriving Repr, DecidableEq

/-- How many local variable or operand stack slots a value takes. -/
def ValueKind.width : ValueKind → Nat
  | .long | .double => 2
  | _ => 1

/-- What an opcode without operands does. -/
inductive Action where
  | nothing
  | pushNull
  | push (kind : ValueKind)
  | load (kind : ValueKind) (slot : UInt16)
  | store (kind : ValueKind) (slot : UInt16)
  /-- Replaces an array and an index by an element. -/
  | loadElement (kind : ValueKind)
  /-- Takes an array, an index and an element. -/
  | storeElement (kind : ValueKind)
  | pop
  | pop2
  | dup
  | dupX1
  | dupX2
  | dup2
  | dup2X1
  | dup2X2
  | swap
  /-- Replaces two values by one, all of one kind. -/
  | combine (kind : ValueKind)
  /-- Shifts a value by an `int` on top of it. -/
  | shift (kind : ValueKind)
  /-- Replaces a value by one of a kind that may differ. -/
  | convert (source target : ValueKind)
  /-- Replaces two values by an `int`. -/
  | compare (kind : ValueKind)
  | arrayLength
  /-- Returns from the method, with a value or without. -/
  | leave (result : Option ValueKind)
  | throw
  /-- Enters or leaves the monitor of an object. -/
  | monitor
  deriving Repr, DecidableEq

namespace Opcode

/-- Opcodes that come for every kind list the kinds in this order. -/
def kindAt : Nat → ValueKind
  | 0 => .int
  | 1 => .long
  | 2 => .float
  | 3 => .double
  | _ => .reference

/-- The elements of `byte`, `char` and `short` arrays count as `int`. -/
def elementKindAt (position : Nat) : ValueKind :=
  if position ≤ 4 then kindAt position else .int

/-- The conversions between primitive kinds, in the order of their opcodes. -/
def conversions : List Action :=
  [ .convert .int .long, .convert .int .float, .convert .int .double,
    .convert .long .int, .convert .long .float, .convert .long .double,
    .convert .float .int, .convert .float .long, .convert .float .double,
    .convert .double .int, .convert .double .long, .convert .double .float,
    .convert .int .int, .convert .int .int, .convert .int .int ]

/-- The opcodes that rearrange the top of the stack, in their order. -/
def rearrangements : List Action :=
  [ .pop, .pop2, .dup, .dupX1, .dupX2, .dup2, .dup2X1, .dup2X2, .swap ]

/-- The action of an opcode without operands. -/
def action? (opcode : Opcode) : Option Action :=
  let position (first : Opcode) : Nat := opcode.toNat - first.toNat
  if opcode = 0x00 then some .nothing
  else if opcode = 0x01 then some .pushNull
  else if opcode ≤ 0x08 then some (.push .int)
  else if opcode ≤ 0x0A then some (.push .long)
  else if opcode ≤ 0x0D then some (.push .float)
  else if opcode ≤ 0x0F then some (.push .double)
  else if opcode ≤ 0x19 then none
  else if opcode ≤ 0x2D then
    some (.load (kindAt (position 0x1A / 4)) (UInt16.ofNat (position 0x1A % 4)))
  else if opcode ≤ 0x35 then some (.loadElement (elementKindAt (position 0x2E)))
  else if opcode ≤ 0x3A then none
  else if opcode ≤ 0x4E then
    some (.store (kindAt (position 0x3B / 4)) (UInt16.ofNat (position 0x3B % 4)))
  else if opcode ≤ 0x56 then some (.storeElement (elementKindAt (position 0x4F)))
  else if opcode ≤ 0x5F then rearrangements[position 0x57]?
  else if opcode ≤ 0x73 then some (.combine (kindAt (position 0x60 % 4)))
  else if opcode ≤ 0x77 then
    some (.convert (kindAt (position 0x74)) (kindAt (position 0x74)))
  else if opcode ≤ 0x7D then some (.shift (kindAt (position 0x78 % 2)))
  else if opcode ≤ 0x83 then some (.combine (kindAt (position 0x7E % 2)))
  else if opcode = 0x84 then none
  else if opcode ≤ 0x93 then conversions[position 0x85]?
  else if opcode = 0x94 then some (.compare .long)
  else if opcode ≤ 0x96 then some (.compare .float)
  else if opcode ≤ 0x98 then some (.compare .double)
  else if opcode ≤ 0xAB then none
  else if opcode ≤ 0xB0 then some (.leave (some (kindAt (position 0xAC))))
  else if opcode = 0xB1 then some (.leave none)
  else if opcode = 0xBE then some .arrayLength
  else if opcode = 0xBF then some .throw
  else if opcode = 0xC2 ∨ opcode = 0xC3 then some .monitor
  else none

end Opcode
end JvmClass
