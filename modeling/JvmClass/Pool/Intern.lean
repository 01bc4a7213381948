import Std.Data.TreeMap
import JvmClass.Pool

namespace JvmClass

/-!
# Interning constants

A pool remembers where each constant first stands.  Interning a constant gives
the number of an equal entry if there is one and appends an entry otherwise, so
numbers held by code that is left alone stay valid.  Numbers have sixteen bits;
a pool that outgrows them is refused when it is written.
-/

/-- A constant by its value, with every reference resolved. -/
inductive Constant where
  | utf8 (text : String)
  | classRef (name : String)
  | string (text : String)
  | integer (value : Int32)
  | long (value : Int64)
  | nameAndType (name descriptor : String)
  | member (kind : MemberKind) (member : Member)
  deriving Repr, DecidableEq

namespace Constant

/-- A number and the texts that together tell a constant from all others. -/
def key : Constant → Nat × List String
  | .utf8 text => (0, [text])
  | .classRef name => (1, [name])
  | .string text => (2, [text])
  | .nameAndType name descriptor => (3, [name, descriptor])
  | .member .field named => (4, [named.owner, named.name, named.descriptor])
  | .member .method named => (5, [named.owner, named.name, named.descriptor])
  | .member .interfaceMethod named => (6, [named.owner, named.name, named.descriptor])
  | .integer value => (2 * value.toBitVec.toNat + 7, [])
  | .long value => (2 * value.toBitVec.toNat + 8, [])

/-- Constants of one key are one constant. -/
theorem key_injective
    {constant other : Constant}
    (same : constant.key = other.key) :
    constant = other := by
  unfold key at same
  split at same <;> split at same <;>
    simp only [Prod.mk.injEq, List.cons.injEq, and_true, reduceCtorEq, and_false, false_and]
      at same <;>
    grind [Member, Int32.toBitVec_inj, Int64.toBitVec_inj, BitVec.toNat_inj]

/-- Constants are ordered by their keys. -/
def compareKeys : Constant → Constant → Ordering :=
  compareLex (compareOn fun constant => constant.key.1) (compareOn fun constant => constant.key.2)

instance : Ord Constant :=
  ⟨compareKeys⟩

instance : Std.TransOrd Constant :=
  inferInstanceAs (Std.TransCmp (compareLex (compareOn _) (compareOn _)))

instance : Std.LawfulEqOrd Constant where
  eq_of_compare same := by
    obtain ⟨number, texts⟩ := Ordering.then_eq_eq.mp same
    exact key_injective (Prod.ext (Std.LawfulEqOrd.eq_of_compare number)
      (Std.LawfulEqOrd.eq_of_compare texts))

end Constant

/-- The entries of a class and where each constant stands. -/
structure Pool where
  entries : Array Entry
  /-- How many entries were there before the first one was appended. -/
  firstSize : Nat
  index : Std.TreeMap Constant UInt16

namespace Pool

/-- The pool that holds the unusable entry only. -/
def empty : Pool :=
  ⟨#[.unusable], 1, ∅⟩

/-- The number of entries, the unusable ones included. -/
def size (pool : Pool) : Nat :=
  pool.entries.size

/-- Whether there is no entry but the unusable one. -/
def isEmpty (pool : Pool) : Bool :=
  pool.size ≤ 1

/-- How many entries were appended. -/
def appended (pool : Pool) : Nat :=
  pool.size - pool.firstSize

/-! ## Lookups -/

/-- The usable entry of a number. -/
def entry (pool : Pool) (index : UInt16) : Except ReadError Entry :=
  Entry.at? pool.entries index

/-- The text of a number. -/
def text (pool : Pool) (index : UInt16) : Except ReadError String :=
  Entry.textAt pool.entries index

/-- The name of the class of a number. -/
def className (pool : Pool) (index : UInt16) : Except ReadError String :=
  Entry.classNameAt pool.entries index

/-- The name and the descriptor of a number. -/
def nameAndType (pool : Pool) (index : UInt16) : Except ReadError (String × String) :=
  Entry.nameAndTypeAt pool.entries index

/-- The member of a number. -/
def member (pool : Pool) (index : UInt16) : Except ReadError Member :=
  Entry.memberAt pool.entries index

/-- The name and the descriptor of a constant or call site computed at run time. -/
def dynamic (pool : Pool) (index : UInt16) : Except ReadError (String × String) :=
  Entry.dynamicAt pool.entries index

/-! ## Adopting entries -/

/--
The constant that the entry of a number stands for, if constants of its kind are
interned.  Pairs and members are looked up by the number, which is not theirs
any more where numbers have wrapped.
-/
def constantOf (entries : Array Entry) (number : UInt16) :
    Entry → Except ReadError (Option Constant)
  | .utf8 text => .ok (some (.utf8 text))
  | .integer value => .ok (some (.integer value))
  | .long value => .ok (some (.long value))
  | .classRef name => do
      return some (.classRef (← Entry.textAt entries name))
  | .string text => do
      return some (.string (← Entry.textAt entries text))
  | .nameAndType _ _ => do
      let (name, descriptor) ← Entry.nameAndTypeAt entries number
      return some (.nameAndType name descriptor)
  | .member kind _ _ => do
      return some (.member kind (← Entry.memberAt entries number))
  | _ => .ok none

/-- Records where the constants of `rest` stand, of which the first has number `position`. -/
def indexEntries (entries : Array Entry) :
    Nat → List Entry → Std.TreeMap Constant UInt16 → Except ReadError (Std.TreeMap Constant UInt16)
  | _, [], index => .ok index
  | position, entry :: rest, index => do
      let number := UInt16.ofNat position
      match ← constantOf entries number entry with
      | some constant =>
          indexEntries entries (position + 1) rest (index.insertIfNew constant number)
      | none => indexEntries entries (position + 1) rest index

/-- Adopts entries whose references all lead to entries of the right kind. -/
def ofEntries (entries : Array Entry) : Except ReadError Pool := do
  entries.toList.forM (Entry.check entries)
  let index ← indexEntries entries 1 (entries.toList.drop 1) ∅
  return ⟨entries, entries.size, index⟩

/-! ## Interning -/

/-- Appends an entry, and behind a long or double the unusable one. -/
def append (pool : Pool) (constant : Constant) (entry : Entry) : UInt16 × Pool :=
  let number := UInt16.ofNat pool.size
  let entries := pool.entries.push entry
  let entries := if entry.isWide then entries.push .unusable else entries
  (number, { pool with entries, index := pool.index.insert constant number })

/-- The number of a constant, whose entry is built and appended if it is new. -/
def internWith (constant : Constant) (build : StateM Pool Entry) : StateM Pool UInt16 :=
  fun pool =>
    match pool.index[constant]? with
    | some number => (number, pool)
    | none =>
        let (entry, pool) := build pool
        pool.append constant entry

/-- The number of a text. -/
def internText (text : String) : StateM Pool UInt16 :=
  internWith (.utf8 text) (return .utf8 text)

/-- The number of a class. -/
def internClass (name : String) : StateM Pool UInt16 :=
  internWith (.classRef name) do
    return .classRef (← internText name)

/-- The number of a string constant. -/
def internString (text : String) : StateM Pool UInt16 :=
  internWith (.string text) do
    return .string (← internText text)

/-- The number of an `int` constant. -/
def internInteger (value : Int32) : StateM Pool UInt16 :=
  internWith (.integer value) (return .integer value)

/-- The number of a `long` constant. -/
def internLong (value : Int64) : StateM Pool UInt16 :=
  internWith (.long value) (return .long value)

/-- The number of a name with a descriptor. -/
def internNameAndType (name descriptor : String) : StateM Pool UInt16 :=
  internWith (.nameAndType name descriptor) do
    let name ← internText name
    let descriptor ← internText descriptor
    return .nameAndType name descriptor

/-- The number of a member reference. -/
def internMember (kind : MemberKind) (member : Member) : StateM Pool UInt16 :=
  internWith (.member kind member) do
    let owner ← internClass member.owner
    let nameAndType ← internNameAndType member.name member.descriptor
    return .member kind owner nameAndType

end Pool
end JvmClass
