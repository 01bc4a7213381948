import JvmClass.Proofs.Frame.Analysis
import JvmClass.Proofs.Frame.Typing
import JvmClass.Proofs.Slots
import JvmClass.Proofs.Weave.Placed

namespace JvmClass

/-!
# Types along expanded bodies

A checked body declares a frame wherever control does not just go on to the next
instruction.  The types along the expanded body that follow from those frames are
therefore the only ones that an analysis meets: where paths come together it takes
the declared types over, and everywhere else one path comes from the instruction
before.  So the analysis never asks for a common superclass.
-/

namespace Insn

/-- An instruction touches no local variable and calls no constructor. -/
def isQuiet : Insn → Bool
  | .method code _ => code == Opcode.invokeStatic
  | .interfaceMethod _ _ _ => false
  | insn => insn.access?.isNone

section Quiet

variable {insn resolved : Insn} {pool : Pool} {count : Nat}

theorem access?_of_isQuiet (quiet : insn.isQuiet = true) : insn.access? = none := by
  cases insn with
  | method | interfaceMethod => rfl
  | _ => exact Option.isNone_iff_eq_none.mp quiet

theorem not_constructs_of_isQuiet (quiet : insn.isQuiet = true) : ¬ Constructs pool insn count := by
  intro constructs
  cases constructs with
  | method hasReceiver _ _ _ => exact hasReceiver (by simpa [isQuiet] using quiet)
  | interfaceMethod _ _ _ => cases quiet

theorem Numbered.isQuiet_eq (numbered : insn.Numbered resolved) :
    resolved.isQuiet = insn.isQuiet := by
  cases numbered <;> rfl

@[simp] theorem isQuiet_mapTargets (rename : Label → Label) (insn : Insn) :
    (insn.mapTargets rename).isQuiet = insn.isQuiet := by
  cases insn <;> rfl

@[simp] theorem access?_mapTargets (rename : Label → Label) (insn : Insn) :
    (insn.mapTargets rename).access? = insn.access? := by
  cases insn <;> rfl

theorem constructs_of_mapTargets
    {rename : Label → Label}
    (constructs : Constructs pool (insn.mapTargets rename) count) :
    Constructs pool insn count := by
  cases insn with
  | method | interfaceMethod => exact constructs
  | _ => cases constructs

end Quiet

end Insn

open FrameState

/-- An expansion of a checked body at offsets, and what an analysis of it goes by. -/
structure Course where
  expansion : Expansion
  pool : Pool
  isStatic : Bool
  type : MethodType
  code : CodeAttribute Attribute
  decoded : Body.Decoded
  written : List (Nat × Insn)
  context : StepContext
  rules : TypeRules
  entry : FrameState
  /-- The type of a value that is kept behind the local variables of the body. -/
  keeps : Option SlotType

namespace Course

section Definitions

variable (course : Course)

/-- The number of instructions of the body. -/
def length : Nat :=
  course.decoded.insns.length

/-- The types that are given: declared ones, those on entry and those of the handler behind. -/
def given (position : Nat) : Option FrameState :=
  match declaredAt course.rules.declared course.written position with
  | some state => some state
  | none =>
      if position = 0 then some course.entry
      else if position = course.expansion.start course.length then
        some ⟨[], [.object throwableName]⟩
      else none

theorem given_eq_none
    {position : Nat}
    (free : declaredAt course.rules.declared course.written position = none)
    (positive : position ≠ 0)
    (inside : position ≠ course.expansion.start course.length) :
    course.given position = none := by
  simp only [given, free, if_neg positive, if_neg inside]

theorem given_zero (free : declaredAt course.rules.declared course.written 0 = none) :
    course.given 0 = some course.entry := by
  simp only [given, free, if_true]

/-- The types in front of each instruction. -/
def types : Nat → Option FrameState :=
  typing course.context course.written course.given

/-- The local variables with expected types; behind the body there are none. -/
def bound (position : Nat) : Nat :=
  if position < course.expansion.start course.length then course.code.maxLocals.toNat else 0

/-- The type of the value that is kept at a position, as it is along the body. -/
def kept (position : Nat) : Option SlotType :=
  if course.expansion.start 0 ≤ position ∧ position < course.expansion.start course.length then
    course.keeps
  else none

/-- Paths through the body come to the block of a position, or it is none of the body's. -/
def Live (position : Nat) : Prop :=
  ∃ insn,
    course.expansion.Spot
      (Expansion.Among course.pool course.isStatic course.type course.code course.decoded.insns)
      position insn

/-- In front of a position the value that is kept was loaded. -/
inductive Loaded : Nat → Prop
  | intro
      {index place : Nat}
      {item : Origin × Insn}
      {slot : UInt16}
      (listed : course.expansion.items[index]? = some item)
      (inFront : (course.expansion.ahead item)[place]? = some (.slot Opcode.lload slot)) :
      Loaded (course.expansion.start index + (place + 1))

/-- A state is as near to the expected types as all that an analysis meets at a position. -/
inductive Suits (position : Nat) (state expected : FrameState) : Prop
  | near
      (unloaded : ¬ course.Loaded position)
      (near : Near (course.bound position) (course.kept position) state expected)
  | loaded
      {type : SlotType}
      (loaded : course.Loaded position)
      (keeps : course.keeps = some type)
      (near : NearLoaded course.code.maxLocals.toNat type state expected)

/-- A state that an analysis may have at a position. -/
structure Accepts (position : Nat) (state : FrameState) : Prop where
  live : course.Live position
  suits : ∃ expected, course.types position = some expected ∧ course.Suits position state expected

/-- A state that the instruction at a position may be reached with. -/
structure Feeds (position : Nat) (state : FrameState) : Prop where
  live : course.Live position
  arrives :
    ∀ declared,
      declaredAt course.rules.declared course.written position = some declared →
        Arrives (course.bound position) (course.kept position) state
  accepts :
    declaredAt course.rules.declared course.written position = none →
      course.Accepts position state

/-- What is inserted in front of an instruction is quiet, but may load the kept value to use it. -/
structure Snippet (insns : List Insn) : Prop where
  each :
    ∀ place insn,
      insns[place]? = some insn →
        insn.isQuiet = true ∨
          ∃ slot type,
            insn = .slot Opcode.lload slot ∧
              slot.toNat = course.code.maxLocals.toNat ∧
              course.keeps = some type ∧ insns[place + 1]? = some (.plain Opcode.lsub)

/-- What is inserted at the start is quiet, but may store the value that is kept in the end. -/
structure Enters : Prop where
  nonempty : course.keeps.isSome = true → course.expansion.entry ≠ []
  each :
    ∀ place insn,
      course.expansion.entry[place]? = some insn →
        (insn.isQuiet = true ∧
            (place + 1 < course.expansion.entry.length ∨ course.keeps = none)) ∨
          ∃ slot type,
            insn = .slot Opcode.lstore slot ∧
              slot.toNat = course.code.maxLocals.toNat ∧
              place + 1 = course.expansion.entry.length ∧
              course.keeps = some type ∧
              ∀ state, course.types place = some state → ∀ value ∈ state.stack.head?, value = type

/-- The conditions under which the types along a course are the only ones that are met. -/
structure Regular
    (resolves : Insn → Insn → Prop)
    (body : Body)
    (tables : Body.Tables)
    (place : Label → Nat)
    (size : Nat)
    (guards : List Handler)
    (ranges : List HandlerRange) : Prop where
  lies :
    course.expansion.Lies resolves course.pool course.isStatic course.type course.code body
      course.decoded tables place course.written size
  /-- Types are declared in front of blocks only, and taken over as they are. -/
  declared :
    ∀ position state,
      declaredAt course.rules.declared course.written position = some state →
        Fixes course.code.maxLocals.toNat state ∧
          ∃ index < course.length, position = course.expansion.start index
  /-- Where the body declares a frame, types are declared. -/
  anchored :
    ∀ (index offset : Nat) (insn : Insn),
      course.decoded.insns[index]? = some (offset, insn) →
        UInt16.ofNat offset ∈ Verify.declaredOffsets course.code →
          ∃ state,
            declaredAt course.rules.declared course.written (course.expansion.start index) =
              some state
  ranges : ∀ range ∈ ranges, ∃ handler ∈ body.handlers ++ guards, range.IsOf place handler
  /-- The handlers around the body cover all its blocks and stand behind them. -/
  guards :
    ∀ guard ∈ guards,
      guard.catchType = none ∧
        Node.StandsAt guard.start (course.expansion.tagged.map Prod.snd)
          (course.expansion.start 0) ∧
        Node.StandsAt guard.stop (course.expansion.tagged.map Prod.snd)
          (course.expansion.start course.length) ∧
        Node.StandsAt guard.handler (course.expansion.tagged.map Prod.snd)
          (course.expansion.start course.length) ∧
        course.length < course.expansion.items.length
  /-- Behind the body nothing but what leaves it is left. -/
  closing :
    ∀ (index : Nat) (item : Origin × Insn),
      course.length ≤ index →
        course.expansion.items[index]? = some item →
          item.2.isQuiet = true ∧ item.2.targets = [] ∧ item.2.opcode.endsFlow = true ∧
            ∀ insn ∈ course.expansion.ahead item, insn.isQuiet = true
  enters : course.Enters
  snippets :
    ∀ (index : Nat) (item : Origin × Insn),
      course.expansion.items[index]? = some item → course.Snippet (course.expansion.ahead item)
  known : ∀ type ∈ course.keeps, type.isUninitialized = false ∧ type ≠ .unmerged
  /-- While a value is kept, constructors are called on objects without a class only. -/
  constructs :
    course.keeps.isSome = true →
      ∀ (index : Nat) (item : Origin × Insn) (state : FrameState) (count : Nat),
        Verify.Visited course.pool course.isStatic course.type course.code course.decoded.insns
            index →
          course.expansion.items[index]? = some item →
            course.types (course.expansion.start index + (course.expansion.ahead item).length) =
                some state →
              Insn.Constructs course.context.pool item.2 count →
                ∃ receiver,
                  state.stack[count]? = some receiver ∧ receiver.isUninitialized = true

end Definitions

section Positions

variable {course : Course} {index position : Nat} {item : Origin × Insn} {state expected : FrameState}

theorem bound_eq (inside : position < course.expansion.start course.length) :
    course.bound position = course.code.maxLocals.toNat :=
  if_pos inside

theorem bound_of_not_lt (behind : course.expansion.start course.length ≤ position) :
    course.bound position = 0 ∧ course.kept position = none :=
  ⟨if_neg (by omega), if_neg (by omega)⟩

theorem kept_eq
    (notBefore : course.expansion.start 0 ≤ position)
    (inside : position < course.expansion.start course.length) :
    course.kept position = course.keeps :=
  if_pos ⟨notBefore, inside⟩

theorem kept_of_lt (before : position < course.expansion.start 0) :
    course.kept position = none :=
  if_neg (by omega)

/-- A live position lies at the start, or in a block that paths come to. -/
theorem cases_of_live (live : course.Live position) :
    position < course.expansion.entry.length ∨
      ∃ index place item,
        Expansion.Among course.pool course.isStatic course.type course.code course.decoded.insns
            index ∧
          course.expansion.items[index]? = some item ∧
          place ≤ (course.expansion.ahead item).length ∧
          position = course.expansion.start index + place := by
  obtain ⟨insn, spot⟩ := live
  cases spot with
  | entry listed => exact .inl (List.getElem?_eq_some_iff.mp listed).1
  | inserted isAmong listed inFront =>
      have inside := (List.getElem?_eq_some_iff.mp inFront).1
      exact .inr ⟨_, _, _, isAmong, listed, Nat.le_of_lt inside, rfl⟩
  | kept isAmong listed => exact .inr ⟨_, _, _, isAmong, listed, Nat.le_refl _, rfl⟩

/-- In a block the kept value was loaded exactly behind the instruction that loads it. -/
theorem loaded_iff
    {place : Nat}
    (listed : course.expansion.items[index]? = some item)
    (inside : place ≤ (course.expansion.ahead item).length) :
    course.Loaded (course.expansion.start index + place) ↔
      ∃ before slot,
        place = before + 1 ∧
          (course.expansion.ahead item)[before]? = some (.slot Opcode.lload slot) := by
  constructor
  · generalize same : course.expansion.start index + place = position
    rintro ⟨otherListed, inFront⟩
    have here := (List.getElem?_eq_some_iff.mp inFront).1
    obtain rfl := Expansion.index_eq listed inside otherListed here same
    cases listed.symm.trans otherListed
    exact ⟨_, _, by omega, inFront⟩
  · rintro ⟨before, slot, rfl, inFront⟩
    exact .intro listed inFront

theorem not_loaded_of_le (front : position ≤ course.expansion.start 0) :
    ¬ course.Loaded position := by
  rintro @⟨index, _, _, _, _, _⟩
  have : course.expansion.entry.length ≤ course.expansion.start index := Expansion.le_start
  simp only [Expansion.start_zero] at front
  omega

theorem not_loaded_start
    (listed : course.expansion.items[index]? = some item) :
    ¬ course.Loaded (course.expansion.start index) := by
  intro loaded
  obtain ⟨_, _, impossible, _⟩ := (loaded_iff listed (Nat.zero_le _)).mp (show course.Loaded (_ + 0) from loaded)
  omega

/-- A near state feeds the instruction that its types are expected at. -/
theorem feeds_of_near
    (live : course.Live position)
    (typed : course.types position = some expected)
    (unloaded : ¬ course.Loaded position)
    (near : Near (course.bound position) (course.kept position) state expected) :
    course.Feeds position state :=
  ⟨live, fun _ _ => near.arrives, fun _ => ⟨live, expected, typed, .near unloaded near⟩⟩

/-- Where types are declared any state is fed that has local variables enough. -/
theorem feeds_of_arrives
    {declared : FrameState}
    (live : course.Live position)
    (found : declaredAt course.rules.declared course.written position = some declared)
    (arrives : Arrives (course.bound position) (course.kept position) state) :
    course.Feeds position state :=
  ⟨live, fun _ _ => arrives, fun free => by rw [found] at free; cases free⟩

end Positions

namespace Regular

variable
  {course : Course} {resolves : Insn → Insn → Prop} {body : Body} {tables : Body.Tables}
  {place : Label → Nat} {size : Nat} {guards : List Handler} {ranges : List HandlerRange}
  {index position offset : Nat} {insn item : Insn} {listedItem : Origin × Insn}
  {state behind expected next : FrameState}

section Zones

variable (regular : course.Regular resolves body tables place size guards ranges)
include regular

theorem length_le : course.length ≤ course.expansion.items.length :=
  regular.lies.length_le_items

theorem length_pos : 0 < course.length := by
  obtain ⟨_, _, _, placed⟩ := regular.lies.checked.visited_zero
  exact (List.getElem?_eq_some_iff.mp placed).1

theorem start_lt_end (inside : index < course.length) :
    course.expansion.start index < course.expansion.start course.length :=
  Expansion.start_lt inside regular.length_le

/-- A position of a block of the body. -/
theorem inside_iff
    {ahead : Nat}
    (listed : course.expansion.items[index]? = some listedItem)
    (inside : ahead ≤ (course.expansion.ahead listedItem).length) :
    course.expansion.start index + ahead < course.expansion.start course.length ↔
      index < course.length := by
  have := Expansion.start_le_iff listed inside regular.length_le
  omega

/-- Declared types stand in front of a block of the body. -/
theorem not_loaded_of_declared
    (found : declaredAt course.rules.declared course.written position = some state) :
    ¬ course.Loaded position := by
  obtain ⟨_, index, inside, rfl⟩ := regular.declared position state found
  have short : index < course.expansion.items.length := by
    have := regular.length_le
    omega
  exact not_loaded_start (List.getElem?_eq_getElem short)

theorem declaredAt_eq_none
    (notStart : ∀ index < course.length, position ≠ course.expansion.start index) :
    declaredAt course.rules.declared course.written position = none := by
  refine Option.eq_none_iff_forall_ne_some.mpr fun state found => ?_
  obtain ⟨_, index, inside, same⟩ := regular.declared position state found
  exact notStart index inside same

/-- Behind an instruction that control falls through are the types that it leaves. -/
theorem feeds_behind
    (placed : course.written[position]? = some (offset, insn))
    (continues : insn.opcode.endsFlow = false)
    (typed : course.types position = some expected)
    (stepped : insn.step course.context (UInt16.ofNat offset) expected = .ok next)
    (live : course.Live (position + 1))
    (inside : position + 1 ≠ course.expansion.start course.length)
    (suits : course.Suits (position + 1) behind next) :
    course.Feeds (position + 1) behind := by
  refine ⟨live, fun declared found => ?_, fun free => ⟨live, next, ?_, suits⟩⟩
  · cases suits with
    | near _ near => exact near.arrives
    | loaded loaded _ _ => exact absurd loaded (regular.not_loaded_of_declared found)
  · refine typing_succ ?_ typed placed continues stepped
    simp only [given, free, if_neg (Nat.succ_ne_zero position), if_neg inside]

end Zones

end Regular

end Course

end JvmClass
