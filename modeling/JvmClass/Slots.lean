import JvmClass.Access
import JvmClass.Descriptor
import JvmClass.Insn

namespace JvmClass

/-!
# Local variables for inserted code

Code that is inserted into a method body may need local variables of its own.
An allocator hands out slots from a mark that starts above the parameters and
above every slot that the body declares, and only grows, so no slot is handed
out twice.
-/

/-- An access or a reservation that would share or exceed the slots there are. -/
structure SlotConflict where
  slot : UInt16
  width : Nat
  deriving Repr, DecidableEq

/-- The wording of a conflict. -/
def SlotConflict.message (conflict : SlotConflict) : String :=
  s!"local slot {conflict.slot} (width {conflict.width}) aliases a slot reserved by instrumentation"

/-- The first free slot and the ranges handed out so far, oldest first: a slot and a width each. -/
structure SlotAllocator where
  next : Nat
  reserved : List (Nat × Nat)
  deriving Repr, DecidableEq

namespace SlotAllocator

/-- An allocator that starts at a slot. -/
def startingAt (firstFree : Nat) : SlotAllocator :=
  ⟨firstFree, []⟩

/-- An allocator for a method, above its arguments and its declared local variables. -/
def forMethod (access : UInt16) (descriptor : String) (maxLocals : UInt16) :
    Except InvalidDescriptor SlotAllocator := do
  let type ← MethodType.ofDescriptor descriptor
  return startingAt (max maxLocals.toNat (type.argumentSlots (Access.isStatic access)).toNat)

/--
Asks for consecutive slots: the first of them, or why there are none, and the
allocator behind.  Slots are numbered with sixteen bits.
-/
def allot (allocator : SlotAllocator) (width : Nat) :
    Except SlotConflict UInt16 × SlotAllocator :=
  let slot := allocator.next
  if slot + width < 0x10000 then
    (.ok (UInt16.ofNat slot), ⟨slot + width, allocator.reserved ++ [(slot, width)]⟩)
  else
    (.error ⟨UInt16.ofNat slot, width⟩, allocator)

/-- Asks for consecutive slots, for those who have no use for the allocator if there are none. -/
def reserve (allocator : SlotAllocator) (width : Nat) :
    Except SlotConflict (UInt16 × SlotAllocator) :=
  match allocator.allot width with
  | (.ok slot, behind) => .ok (slot, behind)
  | (.error conflict, _) => .error conflict

/-- Whether an access shares a slot with a range. -/
def overlaps (access : SlotAccess) (range : Nat × Nat) : Bool :=
  access.index.toNat < range.1 + range.2 && range.1 < access.index.toNat + access.width

/-- Fails if an instruction of the body touches a slot that was handed out. -/
def checkAccess (allocator : SlotAllocator) (access : SlotAccess) : Except SlotConflict Unit :=
  if allocator.reserved.any (overlaps access) then
    .error ⟨access.index, access.width⟩
  else
    .ok ()

end SlotAllocator
end JvmClass
