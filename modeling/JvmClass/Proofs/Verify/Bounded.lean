import JvmClass.Proofs.Verify.Certified
import JvmClass.Proofs.Verify.Paths

namespace JvmClass

/-!
# How deep the stack gets

A check reports a stack that is too deep only where an instruction makes it so.
Every path begins with an empty stack, so on its way above the limit it would
pass such an instruction, with two exceptions.  A handler begins with one slot on
the stack, which is above the limit if the limit is zero, and then the stack of
the handler is not looked at until it has been emptied.  And depths are counted
with sixteen bits, so an instruction can take a path from below a limit of 65534
or 65535 to a stack of 65536 slots, which counts as empty.  Apart from these the
depth of a path is what the check counts, and does not depend on the path.
-/

/-! ## What one instruction adds -/

/-- No opcode puts more than two slots on the stack beyond those that it takes off. -/
theorem Opcode.pushes_le
    {code : Opcode}
    {effect : StackEffect}
    (found : code.plainEffect? = some effect ∨ code.slotEffect? = some effect) :
    effect.pushes.toNat ≤ effect.pops.toNat + 2 := by
  have each :
      ∀ effect ∈ code.plainEffect?.toList ++ code.slotEffect?.toList,
        effect.pushes.toNat ≤ effect.pops.toNat + 2 := by
    clear found
    obtain ⟨⟨value⟩⟩ := code
    revert value
    decide +kernel
  exact each effect (List.mem_append.mpr (found.imp Option.mem_toList.mpr Option.mem_toList.mpr))

namespace Insn

theorem pushes_le_of_callEffect
    {descriptor : String}
    {receiver : UInt16}
    {effect : StackEffect}
    (found : callEffect descriptor receiver = .ok effect) :
    effect.pushes.toNat ≤ 2 := by
  obtain ⟨type, _, returned⟩ := bind_eq_ok_iff.mp found
  cases returned
  exact type.toNat_resultSlots_le

theorem pushes_fieldEffect_le
    (code : Opcode)
    (type : FieldType) :
    (fieldEffect code (UInt16.ofNat type.size)).pushes.toNat ≤ 2 := by
  have size : (UInt16.ofNat type.size).toNat ≤ 2 := by
    rw [UInt16.toNat_ofNat']
    exact Nat.le_trans (Nat.mod_le _ _) type.size_le
  unfold fieldEffect
  repeat' split
  all_goals first | exact size | exact Nat.zero_le 2

/-- An instruction puts no more than two slots on the stack beyond those that it takes off. -/
theorem pushes_le_of_effect
    {pool : Pool}
    {insn : Insn}
    {effect : StackEffect}
    (found : insn.effect pool = .ok effect) :
    effect.pushes.toNat ≤ effect.pops.toNat + 2 := by
  have few {effect : StackEffect} (small : effect.pushes.toNat ≤ 2) :
      effect.pushes.toNat ≤ effect.pops.toNat + 2 :=
    Nat.le_trans small (Nat.le_add_left _ _)
  cases insn with
  | plain code =>
      simp only [Insn.effect] at found
      split at found
      · rename_i effects
        cases found
        exact Opcode.pushes_le (.inl effects)
      · cases found
  | slot code index =>
      simp only [Insn.effect] at found
      split at found
      · rename_i effects
        cases found
        exact Opcode.pushes_le (.inr effects)
      · cases found
  | field code ref =>
      cases ref with
      | named => cases found
      | index index =>
          obtain ⟨member, _, found⟩ := bind_eq_ok_iff.mp found
          obtain ⟨type, _, found⟩ := bind_eq_ok_iff.mp found
          cases found
          exact few (pushes_fieldEffect_le code type)
  | method code ref =>
      cases ref with
      | named => cases found
      | index index =>
          obtain ⟨member, _, found⟩ := bind_eq_ok_iff.mp found
          exact few (pushes_le_of_callEffect found)
  | interfaceMethod code index count =>
      obtain ⟨member, _, found⟩ := bind_eq_ok_iff.mp found
      exact few (pushes_le_of_callEffect found)
  | callSite code index =>
      obtain ⟨called, _, found⟩ := bind_eq_ok_iff.mp found
      exact few (pushes_le_of_callEffect found)
  | jump code target =>
      simp only [Insn.effect, jumpEffect] at found
      repeat' split at found
      all_goals cases found
      all_goals exact few (Nat.zero_le 2)
  | load code value =>
      simp only [Insn.effect] at found
      split at found
      · cases found
        exact few (Nat.le_refl 2)
      · cases value with
        | text =>
            cases found
            exact few (show 1 ≤ 2 by decide)
        | index index =>
            obtain ⟨entry, _, found⟩ := bind_eq_ok_iff.mp found
            split at found
            · cases found
            · cases found
              exact few (show 1 ≤ 2 by decide)
  | immediate code value =>
      simp only [Insn.effect, Except.ok.injEq] at found
      subst found
      split <;> exact few (show 1 ≤ 2 by decide)
  | classRef code index =>
      simp only [Insn.effect, Except.ok.injEq] at found
      subst found
      split <;> exact few (show 1 ≤ 2 by decide)
  | multiArray code index dimensions =>
      cases found
      exact few (show 1 ≤ 2 by decide)
  | increment => cases found; exact few (Nat.zero_le 2)
  | tableSwitch => cases found; exact few (Nat.zero_le 2)
  | lookupSwitch => cases found; exact few (Nat.zero_le 2)

end Insn

namespace Verify

/-! ## Bounds on paths -/

/-- A path has come to a handler and has not emptied the stack since. -/
inductive Handling
    (pool : Pool)
    (body : CodeAttribute Attribute)
    (insns : List (Nat × Insn))
    (first : PathPoint) : PathPoint → Prop
  | caught
      {point : PathPoint}
      {insn : Insn}
      {entry : HandlerEntry}
      (path : Relation.ReflTransGen (PathStep pool body insns) first point)
      (placed : (point.offset, insn) ∈ insns)
      (member : entry ∈ body.handlers)
      (starts : entry.start.toNat ≤ point.offset)
      (stops : point.offset < entry.stop.toNat) :
      Handling pool body insns first ⟨entry.handler.toNat, 1, point.written⟩
  | onward
      {point next : PathPoint}
      (handling : Handling pool body insns first point)
      (step : PathStep pool body insns point next)
      (filled : 0 < next.depth) :
      Handling pool body insns first next

/-- A path has put more slots on the stack than sixteen bits can count. -/
def Carried
    (pool : Pool)
    (body : CodeAttribute Attribute)
    (insns : List (Nat × Insn))
    (first point : PathPoint) : Prop :=
  ∃ peak,
    Relation.ReflTransGen (PathStep pool body insns) first peak ∧
      2 ^ 16 ≤ peak.depth ∧ Relation.ReflTransGen (PathStep pool body insns) peak point

/-- An instruction where a path has come to keeps the stack within its limit, before and behind. -/
structure PathPoint.Within
    (maxStack : UInt16)
    (point : PathPoint)
    (effect : StackEffect) : Prop where
  before : point.depth ≤ maxStack.toNat
  behind : effect.after point.depth ≤ maxStack.toNat

/--
All paths from a point stay within the limit, except in a handler where the limit
is zero, and from where they go beyond what sixteen bits can count.
-/
def BoundedPaths
    (pool : Pool)
    (body : CodeAttribute Attribute)
    (insns : List (Nat × Insn))
    (first : PathPoint) : Prop :=
  ∀ point,
    Relation.ReflTransGen (PathStep pool body insns) first point →
      ∃ insn effect,
        (point.offset, insn) ∈ insns ∧
          insn.effect pool = .ok effect ∧
            (point.Within body.maxStack effect ∨
              body.maxStack = 0 ∧ Handling pool body insns first point ∨
              0xFFFE ≤ body.maxStack ∧
                (Carried pool body insns first point ∨ 2 ^ 16 ≤ effect.after point.depth))

/-- What can be said about all paths of a body that begin at a point. -/
structure SafePaths
    (pool : Pool)
    (body : CodeAttribute Attribute)
    (insns : List (Nat × Insn))
    (first : PathPoint) : Prop where
  /-- There is an instruction wherever a path comes, and it finds what it needs. -/
  allowed :
    ∀ point,
      Relation.ReflTransGen (PathStep pool body insns) first point →
        ∃ insn, (point.offset, insn) ∈ insns ∧ point.Allows pool body.maxLocals insn
  /-- Sixteen bits of the depth at an instruction do not depend on the path. -/
  counted :
    ∀ point other,
      Relation.ReflTransGen (PathStep pool body insns) first point →
        Relation.ReflTransGen (PathStep pool body insns) first other →
          point.offset = other.offset → UInt16.ofNat point.depth = UInt16.ofNat other.depth
  /-- The depth itself does not, unless the limit is zero or one of the two highest. -/
  depth :
    0 < body.maxStack →
      body.maxStack < 0xFFFE →
        ∀ point other,
          Relation.ReflTransGen (PathStep pool body insns) first point →
            Relation.ReflTransGen (PathStep pool body insns) first other →
              point.offset = other.offset → point.depth = other.depth

/-- The ways in which a path gets above its limit without a finding. -/
inductive Unnoticed
    (pool : Pool)
    (body : CodeAttribute Attribute)
    (insns : List (Nat × Insn))
    (first point : PathPoint) : Prop
  | caught
      (zero : body.maxStack = 0)
      (handling : Handling pool body insns first point) :
      Unnoticed pool body insns first point
  | carried
      (high : 0xFFFE ≤ body.maxStack)
      (carried : Carried pool body insns first point) :
      Unnoticed pool body insns first point

/-- What was not noticed is not noticed until the stack is empty. -/
theorem Unnoticed.onward
    {pool : Pool}
    {body : CodeAttribute Attribute}
    {insns : List (Nat × Insn)}
    {first point next : PathPoint}
    (unnoticed : Unnoticed pool body insns first point)
    (step : PathStep pool body insns point next)
    (filled : 0 < next.depth) :
    Unnoticed pool body insns first next := by
  cases unnoticed with
  | caught zero handling => exact .caught zero (handling.onward step filled)
  | carried high carried =>
      obtain ⟨peak, toPeak, many, behind⟩ := carried
      exact .carried high ⟨peak, toPeak, many, behind.tail step⟩

/-! ## Steps without a finding -/

/-- A step without a finding takes what there is and does not take the stack above its limit. -/
theorem limited_of_step
    (context : DepthContext)
    {before : DepthState}
    {insn : Insn}
    {effect : StackEffect}
    (moves : insn.effect context.pool = .ok effect)
    (clean : (before.step context insn).2 = []) :
    effect.pops ≤ before.depth ∧
      (before.depth ≤ context.maxStack →
        before.depth - effect.pops + effect.pushes ≤ context.maxStack) := by
  simp only [DepthState.step, List.append_eq_nil_iff] at clean
  obtain ⟨found, foundMoves, limited⟩ := DepthState.moveStack_eq_nil_iff.mp clean.2
  cases moves.symm.trans foundMoves
  rwa [DepthState.depth_touchLocal] at limited

namespace Checked

variable
  {pool : Pool} {isStatic framed : Bool} {type : MethodType} {body : CodeAttribute Attribute}
  {insns : List (Nat × Insn)} {point : PathPoint}

/--
No instruction on a path through a checked body takes the stack from within its
limit to above it, unless to more slots than sixteen bits can count.
-/
theorem after_le_or_carries
    {insn : Insn}
    {effect : StackEffect}
    (checked : Checked pool isStatic type body framed insns)
    (path : Relation.ReflTransGen (PathStep pool body insns) (.entry type isStatic) point)
    (placed : (point.offset, insn) ∈ insns)
    (moves : insn.effect pool = .ok effect)
    (within : point.depth ≤ body.maxStack.toNat) :
    effect.after point.depth ≤ body.maxStack.toNat ∨
      0xFFFE ≤ body.maxStack ∧ 2 ^ 16 ≤ effect.after point.depth := by
  obtain ⟨_, fixpoint⟩ := DepthProgress.fixpoint_of_checkInsns checked.nonempty checked.clean
  obtain ⟨position, other, state, held⟩ := checked.exists_held path
  obtain ⟨otherPosition, otherPlaced⟩ := List.mem_iff_getElem?.mp placed
  obtain rfl := position_eq_of_offset checked.decodes held.placed otherPlaced
  cases held.placed.symm.trans otherPlaced
  obtain ⟨_, _, located, clean, _⟩ := fixpoint.settled position state held.held
  rw [LocatedCode.getElem?_insns_ofInsns, held.placed, Option.map_some] at located
  cases located
  have limited := body.maxStack.toNat_lt
  have depth : state.depth.toNat = point.depth := by
    rw [held.depth, UInt16.toNat_ofNat_of_lt' (show point.depth < 2 ^ 16 by omega)]
  have few := Insn.pushes_le_of_effect moves
  obtain ⟨enough, limit⟩ := limited_of_step ⟨pool, body.maxStack, type.result⟩ moves clean
  have below := limit (by rwa [UInt16.le_iff_toNat_le, depth])
  rw [UInt16.le_iff_toNat_le, UInt16.toNat_add, UInt16.toNat_sub_of_le _ _ enough, depth] at below
  rw [UInt16.le_iff_toNat_le, depth] at enough
  simp only [StackEffect.after, UInt16.le_iff_toNat_le, UInt16.reduceToNat]
  by_cases small : point.depth - effect.pops.toNat + effect.pushes.toNat < 2 ^ 16
  · rw [Nat.mod_eq_of_lt small] at below
    exact .inl below
  · omega

/-- A path stays within its limit unless it gets above it unnoticed. -/
theorem depth_le_of_path
    (checked : Checked pool isStatic type body framed insns)
    (path : Relation.ReflTransGen (PathStep pool body insns) (.entry type isStatic) point) :
    point.depth ≤ body.maxStack.toNat ∨
      Unnoticed pool body insns (.entry type isStatic) point := by
  induction path with
  | refl => exact .inl (Nat.zero_le _)
  | @tail point next earlier step inductionHypothesis =>
      -- Behind an instruction the stack is above the limit only if it was so before.
      have onward {insn : Insn} {effect : StackEffect} (placed : (point.offset, insn) ∈ insns)
          (moves : insn.effect pool = .ok effect) (behind : next.depth = effect.after point.depth) :
          next.depth ≤ body.maxStack.toNat ∨
            Unnoticed pool body insns (.entry type isStatic) next := by
        rcases inductionHypothesis with within | unnoticed
        · rcases checked.after_le_or_carries earlier placed moves within with below | ⟨high, many⟩
          · exact .inl (behind ▸ below)
          · exact .inr (.carried high ⟨next, earlier.tail step, behind ▸ many, .refl⟩)
        · rcases Nat.eq_zero_or_pos next.depth with empty | filled
          · exact .inl (empty ▸ Nat.zero_le _)
          · exact .inr (unnoticed.onward step filled)
      cases step with
      | branch placed moves member => exact onward placed moves rfl
      | fall placed moves continues => exact onward (List.mem_of_getElem? placed) moves rfl
      | caught placed member starts stops =>
          by_cases zero : body.maxStack = 0
          · exact .inr (.caught zero (.caught earlier placed member starts stops))
          · have positive : body.maxStack.toNat ≠ 0 := fun none => zero (UInt16.toNat_inj.mp none)
            exact .inl (Nat.pos_of_ne_zero positive)

/-- All paths through a checked body are bounded. -/
theorem boundedPaths
    (checked : Checked pool isStatic type body framed insns) :
    BoundedPaths pool body insns (.entry type isStatic) := by
  intro point path
  obtain ⟨_, fixpoint⟩ := DepthProgress.fixpoint_of_checkInsns checked.nonempty checked.clean
  obtain ⟨position, insn, state, held⟩ := checked.exists_held path
  obtain ⟨effect, moves, _⟩ := (allows_of_held fixpoint held).operands
  have placed : (point.offset, insn) ∈ insns := List.mem_of_getElem? held.placed
  refine ⟨insn, effect, placed, moves, ?_⟩
  rcases checked.depth_le_of_path path with before | ⟨zero, handling⟩ | ⟨high, carried⟩
  · rcases checked.after_le_or_carries path placed moves before with behind | ⟨high, many⟩
    · exact .inl ⟨before, behind⟩
    · exact .inr (.inr ⟨high, .inr many⟩)
  · exact .inr (.inl ⟨zero, handling⟩)
  · exact .inr (.inr ⟨high, .inl carried⟩)

/-- All paths through a checked body are safe. -/
theorem safePaths
    (checked : Checked pool isStatic type body framed insns) :
    SafePaths pool body insns (.entry type isStatic) := by
  obtain ⟨_, fixpoint⟩ := DepthProgress.fixpoint_of_checkInsns checked.nonempty checked.clean
  have counted :
      ∀ point other,
        Relation.ReflTransGen (PathStep pool body insns) (.entry type isStatic) point →
          Relation.ReflTransGen (PathStep pool body insns) (.entry type isStatic) other →
            point.offset = other.offset → UInt16.ofNat point.depth = UInt16.ofNat other.depth := by
    intro point other path otherPath sameOffset
    obtain ⟨position, insn, state, held⟩ := checked.exists_held path
    obtain ⟨otherPosition, otherInsn, otherState, otherHeld⟩ := checked.exists_held otherPath
    have same := position_eq_of_offset checked.decodes held.placed (sameOffset ▸ otherHeld.placed)
    subst same
    have sameState := held.held.symm.trans otherHeld.held
    cases sameState
    exact held.depth.symm.trans otherHeld.depth
  refine ⟨?_, counted, ?_⟩
  · intro point path
    obtain ⟨position, insn, state, held⟩ := checked.exists_held path
    exact ⟨insn, List.mem_of_getElem? held.placed, allows_of_held fixpoint held⟩
  · intro positive low point other path otherPath sameOffset
    have small {point : PathPoint}
        (path : Relation.ReflTransGen (PathStep pool body insns) (.entry type isStatic) point) :
        point.depth < 2 ^ 16 := by
      have limited := body.maxStack.toNat_lt
      rcases checked.depth_le_of_path path with within | ⟨zero, _⟩ | ⟨high, _⟩
      · omega
      · exact absurd (zero ▸ positive) (UInt16.lt_irrefl _)
      · exact absurd high (UInt16.not_le.mpr low)
    have same := congrArg UInt16.toNat (counted point other path otherPath sameOffset)
    rwa [UInt16.toNat_ofNat_of_lt' (small path), UInt16.toNat_ofNat_of_lt' (small otherPath)]
      at same

end Checked

/-! ## Checked methods -/

/--
In a method that a check finds nothing wrong with, every path from the first
instruction is safe.
-/
theorem safePaths_of_checkMethod
    {bytes : Bytes}
    {file : ClassFile}
    {method : MemberInfo}
    {body : CodeAttribute Attribute}
    (read : ClassFile.ofBytes bytes = .ok file)
    (member : method ∈ file.methods)
    (found : firstBody? method.attributes = some body)
    (clean : checkMethod file.pool (StackMap.firstVersion ≤ file.major) method = []) :
    ∃ descriptor type insns,
      file.pool.text method.descriptor = .ok descriptor ∧
        MethodType.ofDescriptor descriptor = .ok type ∧
          Insn.decode body.code = .ok insns ∧
            SafePaths file.pool body insns (.entry type (Access.isStatic method.access)) := by
  obtain ⟨descriptor, type, insns, described, typed, decoded, checked⟩ :=
    exists_checked_of_checkMethod read member found clean
  exact ⟨descriptor, type, insns, described, typed, decoded, checked.safePaths⟩

/-- A loop that counts its argument down, with a handler around it. -/
def countdown : Bytes :=
  [ 0xCA, 0xFE, 0xBA, 0xBE, 0x00, 0x00, 0x00, 0x34, 0x00, 0x09, 0x01, 0x00, 0x01, 0x41, 0x07, 0x00,
    0x01, 0x01, 0x00, 0x10, 0x6A, 0x61, 0x76, 0x61, 0x2F, 0x6C, 0x61, 0x6E, 0x67, 0x2F, 0x4F, 0x62,
    0x6A, 0x65, 0x63, 0x74, 0x07, 0x00, 0x03, 0x01, 0x00, 0x04, 0x43, 0x6F, 0x64, 0x65, 0x01, 0x00,
    0x01, 0x6D, 0x01, 0x00, 0x04, 0x28, 0x49, 0x29, 0x56, 0x01, 0x00, 0x0D, 0x53, 0x74, 0x61, 0x63,
    0x6B, 0x4D, 0x61, 0x70, 0x54, 0x61, 0x62, 0x6C, 0x65, 0x00, 0x21, 0x00, 0x02, 0x00, 0x04, 0x00,
    0x00, 0x00, 0x00, 0x00, 0x01, 0x00, 0x09, 0x00, 0x06, 0x00, 0x07, 0x00, 0x01, 0x00, 0x05, 0x00,
    0x00, 0x00, 0x2F, 0x00, 0x01, 0x00, 0x01, 0x00, 0x00, 0x00, 0x0D, 0x1A, 0x99, 0x00, 0x09, 0x84,
    0x00, 0xFF, 0xA7, 0xFF, 0xF9, 0xB1, 0x57, 0xB1, 0x00, 0x01, 0x00, 0x00, 0x00, 0x0B, 0x00, 0x0B,
    0x00, 0x00, 0x00, 0x01, 0x00, 0x08, 0x00, 0x00, 0x00, 0x08, 0x00, 0x03, 0x00, 0x09, 0x40, 0x07,
    0x00, 0x04, 0x00, 0x00 ]

/-- The paths that go round the loop any number of times and those into the handler are safe. -/
theorem safePaths_of_countdown :
    ∃ file method body,
      ClassFile.ofBytes countdown = .ok file ∧
        method ∈ file.methods ∧
          firstBody? method.attributes = some body ∧
            checkMethod file.pool (StackMap.firstVersion ≤ file.major) method = [] ∧
              ∃ descriptor type insns,
                file.pool.text method.descriptor = .ok descriptor ∧
                  MethodType.ofDescriptor descriptor = .ok type ∧
                    Insn.decode body.code = .ok insns ∧
                      SafePaths file.pool body insns
                        (.entry type (Access.isStatic method.access)) := by
  have outcome :
      (ClassFile.ofBytes countdown).toOption.map (fun file =>
          file.methods.map fun method =>
            ((firstBody? method.attributes).map fun body => body.handlers.length,
              checkMethod file.pool (StackMap.firstVersion ≤ file.major) method)) =
        some [(some 1, [])] := by
    decide +kernel
  cases read : ClassFile.ofBytes countdown with
  | error => simp [read, Except.toOption] at outcome
  | ok file =>
      simp only [read, Except.toOption, Option.map_some, Option.some.injEq,
        List.map_eq_singleton_iff, Prod.mk.injEq] at outcome
      obtain ⟨method, methods, handlers, clean⟩ := outcome
      obtain ⟨body, found, _⟩ := Option.map_eq_some_iff.mp handlers
      have member : method ∈ file.methods := by simp [methods]
      exact ⟨file, method, body, rfl, member, found, clean,
        safePaths_of_checkMethod read member found clean⟩

/-! ## A loop that counts too far -/

/-- A body that puts `count` longs on the stack and then jumps. -/
def longLoop (count : Nat) : CodeAttribute Attribute :=
  ⟨0xFFFF, 0, List.replicate count 0x09 ++ [0xA7, 0x80, 0x00], [], []⟩

/-- The instructions of such a body. -/
def longLoopInsns (count : Nat) : List (Nat × Insn) :=
  (List.range' 0 count).map (fun offset => (offset, .plain 0x09)) ++ [(count, .jump Opcode.goto 0)]

section LongLoop

open DepthProgress

variable {count : Nat}

theorem decodes_longs
    {size offset : Nat}
    {behind : Bytes}
    {insns : List (Nat × Insn)}
    (later : Insn.Decodes size (offset + count) behind insns) :
    Insn.Decodes size offset (List.replicate count 0x09 ++ behind)
      ((List.range' offset count).map (fun place => (place, .plain 0x09)) ++ insns) := by
  induction count generalizing offset with
  | zero => exact later
  | succ count inductionHypothesis =>
      refine @Insn.Decodes.cons _ _ [0x09] _ _ _ (fun _ => rfl) (inductionHypothesis ?_)
      rwa [List.length_singleton, Nat.add_assoc, Nat.add_comm 1 count]

theorem length_longLoop (count : Nat) : (longLoop count).code.length = count + 3 := by
  simp [longLoop]

theorem placed_long
    {position : Nat}
    (inside : position < count) :
    (longLoopInsns count)[position]? = some (position, .plain 0x09) := by
  rw [longLoopInsns, List.getElem?_append_left (by simpa using inside)]
  simp [inside]

theorem placed_jump (count : Nat) :
    (longLoopInsns count)[count]? = some (count, .jump Opcode.goto 0) := by
  rw [longLoopInsns, List.getElem?_append_right (by simp)]
  simp

/-- Behind a long there is another one or the jump. -/
theorem exists_placed_longLoop
    {position : Nat}
    (inside : position < count) :
    ∃ insn, (longLoopInsns count)[position + 1]? = some (position + 1, insn) := by
  rcases Nat.lt_or_eq_of_le (Nat.succ_le_of_lt inside) with more | rfl
  · exact ⟨_, placed_long more⟩
  · exact ⟨_, placed_jump _⟩

/-- Behind 32768 longs the jump leads back to the first of them. -/
theorem decodes_longLoop :
    Insn.Decodes (longLoop 32768).code.length 0 (longLoop 32768).code (longLoopInsns 32768) := by
  rw [length_longLoop]
  exact decodes_longs (@Insn.Decodes.cons _ _ [0xA7, 0x80, 0x00] _ _ _ (fun _ => rfl) (.nil _))

/-- What a body that allows 65535 slots finds behind an instruction that takes none off. -/
theorem step_of_pushes
    {pool : Pool}
    {insn : Insn}
    {pushes : UInt16}
    (depth : UInt16)
    (moves : insn.effect pool = .ok ⟨0, pushes⟩)
    (untouched : insn.access? = none)
    (stays : insn.opcode.isReturn = false) :
    (⟨depth, []⟩ : DepthState).step ⟨pool, 0xFFFF, none⟩ insn = (⟨depth + pushes, []⟩, []) := by
  have room (deep : UInt16) : ¬ 0xFFFF < deep :=
    UInt16.not_lt.mpr (UInt16.le_iff_toNat_le.mpr (Nat.le_of_lt_succ deep.toNat_lt))
  have enough : ¬ depth < 0 := UInt16.not_lt_zero
  simp [DepthState.step, DepthState.touchLocal, DepthState.returnFindings, DepthState.moveStack,
    untouched, stays, moves, room, enough]

/-- The depths that the check counts along the loop. -/
def longLoopStates (count : Nat) : Array (Option DepthState) :=
  ((List.range (count + 1)).map fun position => some ⟨UInt16.ofNat (position * 2), []⟩).toArray

theorem getD_longLoopStates
    {position : Nat}
    (inside : position ≤ count) :
    (longLoopStates count).getD position none = some ⟨UInt16.ofNat (position * 2), []⟩ := by
  simp [longLoopStates, Array.getD_eq_getD_getElem?, Nat.lt_succ_of_le inside]

theorem positions_longLoop
    {position : Nat}
    {insn : Insn}
    (placed : (longLoopInsns 32768)[position]? = some (position, insn)) :
    (LocatedCode.ofInsns (longLoopInsns 32768)).positions[UInt16.ofNat position]? = some position :=
  decodes_longLoop.positions_eq (by rw [length_longLoop]; decide) placed

/-- A long leads on with two slots more. -/
theorem settled_long
    (pool : Pool)
    {position : Nat}
    (inside : position < 32768) :
    Settled ⟨pool, 0xFFFF, none⟩ (.ofInsns (longLoopInsns 32768)) [] (longLoopStates 32768) position
      ⟨UInt16.ofNat (position * 2), []⟩ := by
  have step := @step_of_pushes pool (.plain 0x09) 2 (UInt16.ofNat (position * 2)) rfl rfl rfl
  refine ⟨_, _, LocatedCode.located_of_placed (placed_long inside), by rw [step],
    List.forall_mem_nil _, List.forall_mem_nil _, fun _ => ?_⟩
  obtain ⟨insn, placed⟩ := exists_placed_longLoop inside
  refine ⟨UInt16.ofNat (position + 1), ?_, position + 1, _, positions_longLoop placed,
    getD_longLoopStates inside, ?_⟩
  · rw [LocatedCode.offsetAfter?, LocatedCode.located_of_placed placed, Option.map_some]
  · rw [step, Nat.succ_mul, UInt16.ofNat_add]
    exact .refl _

/-- The jump leads to the first long, since the 65536 slots behind the last one count as none. -/
theorem settled_jump (pool : Pool) :
    Settled ⟨pool, 0xFFFF, none⟩ (.ofInsns (longLoopInsns 32768)) [] (longLoopStates 32768) 32768
      ⟨UInt16.ofNat (32768 * 2), []⟩ := by
  have step := @step_of_pushes pool (.jump Opcode.goto 0) 0 (UInt16.ofNat (32768 * 2)) rfl rfl rfl
  refine ⟨_, _, LocatedCode.located_of_placed (placed_jump 32768), by rw [step],
    List.forall_mem_nil _, fun target member => ?_, fun continues => absurd continues (by decide)⟩
  obtain rfl : target = 0 := List.mem_singleton.mp member
  have first := positions_longLoop (placed_long (show 0 < 32768 by decide))
  refine ⟨0, _, first, getD_longLoopStates (Nat.zero_le _), ?_⟩
  rw [step]
  exact .refl _

theorem fixpoint_longLoop (pool : Pool) :
    Fixpoint ⟨pool, 0xFFFF, none⟩ (longLoopInsns 32768) [] ⟨0, []⟩ (longLoopStates 32768) := by
  refine ⟨⟨⟨0, []⟩, getD_longLoopStates (Nat.zero_le _), .refl _⟩, fun position state found => ?_⟩
  rcases Nat.lt_trichotomy position 32768 with inside | rfl | outside
  · obtain rfl := Option.some.inj ((getD_longLoopStates (Nat.le_of_lt inside)).symm.trans found)
    exact settled_long pool inside
  · obtain rfl := Option.some.inj ((getD_longLoopStates (Nat.le_refl _)).symm.trans found)
    exact settled_jump pool
  · rw [longLoopStates, Array.getD_eq_getD_getElem?, Array.getElem?_eq_none] at found
    · cases found
    · simpa using Nat.succ_le_of_lt outside

theorem path_longs
    (pool : Pool)
    {position : Nat}
    (inside : position ≤ 32768) :
    Relation.ReflTransGen (PathStep pool (longLoop 32768) (longLoopInsns 32768)) ⟨0, 0, []⟩
      ⟨position, position * 2, []⟩ := by
  induction position with
  | zero => exact .refl
  | succ position inductionHypothesis =>
      have step :=
        @PathStep.fall pool (longLoop 32768) _ ⟨position, position * 2, []⟩ _ ⟨0, 2⟩ _
          (placed_long inside) rfl rfl
      refine (inductionHypothesis (Nat.le_of_lt inside)).tail ?_
      have next : (longLoopInsns 32768)[position + 1]?.map Prod.fst = some (position + 1) := by
        obtain ⟨_, placed⟩ := exists_placed_longLoop inside
        rw [placed, Option.map_some]
      rw [next] at step
      rwa [Nat.succ_mul]

/-- Nothing is found wrong with the body. -/
theorem checkBody_longLoop
    (pool : Pool) :
    checkBody pool 0x0008 "()V" (longLoop 32768) false = [] :=
  have typed : MethodType.ofDescriptor "()V" = .ok ⟨[], none⟩ := by decide +kernel
  checkBody_eq_nil_of_fixpoint typed (Insn.decode_eq_ok_iff.mpr decodes_longLoop)
    (by simp [longLoopInsns]) (Nat.le_refl _) (fixpoint_longLoop pool) nofun

/-- The jump of the body leads back to its start, with all the longs. -/
theorem branch_longLoop
    (pool : Pool) :
    PathStep pool (longLoop 32768) (longLoopInsns 32768) ⟨32768, 65536, []⟩ ⟨0, 65536, []⟩ :=
  @PathStep.branch _ _ _ ⟨32768, 65536, []⟩ (.jump Opcode.goto 0) ⟨0, 0⟩ 0
    (List.mem_of_getElem? (placed_jump 32768)) rfl (List.mem_cons_self ..)

/--
A path that has gone round comes to the first instruction with 65536 slots, where
every path begins with none, and the check finds nothing wrong.
-/
theorem exists_apart_of_longLoop :
    ∃ (file : ClassFile) (method : MemberInfo) (body : CodeAttribute Attribute) (type : MethodType)
      (insns : List (Nat × Insn)) (point other : PathPoint),
      checkFile file = [] ∧
        method ∈ file.methods ∧
          firstBody? method.attributes = some body ∧
            file.pool.text method.descriptor = .ok "()V" ∧
              MethodType.ofDescriptor "()V" = .ok type ∧
                Insn.decode body.code = .ok insns ∧
                  Relation.ReflTransGen (PathStep file.pool body insns)
                      (.entry type (Access.isStatic method.access)) point ∧
                    Relation.ReflTransGen (PathStep file.pool body insns)
                        (.entry type (Access.isStatic method.access)) other ∧
                      point.offset = other.offset ∧ point.depth ≠ other.depth := by
  let pool : Pool := ⟨#[.unusable, .utf8 "m", .utf8 "()V"], 3, ∅⟩
  let method : MemberInfo := ⟨0x0008, 1, 2, [.code (longLoop 32768)]⟩
  have name : pool.text 1 = .ok "m" := rfl
  have described : pool.text 2 = .ok "()V" := rfl
  have clean : checkMethod pool false method = [] := by
    simp only [checkMethod, name, described, firstBody?, method, List.findSome?_cons,
      checkBody_longLoop, List.map_nil]
  have entry : PathPoint.entry ⟨[], none⟩ (Access.isStatic method.access) = ⟨0, 0, []⟩ := by
    have static : Access.isStatic method.access = true := by decide
    rw [static]
    rfl
  refine ⟨⟨0, 49, pool, 0x0021, 0, 0, [], [], [method], []⟩, method, longLoop 32768, ⟨[], none⟩,
    longLoopInsns 32768, ⟨0, 0, []⟩, ⟨0, 65536, []⟩, ?_, List.mem_singleton_self _, rfl, described,
    by decide +kernel, Insn.decode_eq_ok_iff.mpr decodes_longLoop, entry ▸ .refl,
    entry ▸ (path_longs pool (Nat.le_refl _)).tail (branch_longLoop pool), rfl, by decide⟩
  exact List.flatMap_eq_nil_iff.mpr fun _ member => List.mem_singleton.mp member ▸ clean

end LongLoop

/-! ## Limits of checked methods -/

/--
In a method that a check finds nothing wrong with, the stack is within its limit
on every path, before and behind each instruction, except in a handler where the
limit is zero, and beyond 65535 slots where the limit is one of the two highest.
-/
theorem boundedPaths_of_checkMethod
    {bytes : Bytes}
    {file : ClassFile}
    {method : MemberInfo}
    {body : CodeAttribute Attribute}
    (read : ClassFile.ofBytes bytes = .ok file)
    (member : method ∈ file.methods)
    (found : firstBody? method.attributes = some body)
    (clean : checkMethod file.pool (StackMap.firstVersion ≤ file.major) method = []) :
    ∃ descriptor type insns,
      file.pool.text method.descriptor = .ok descriptor ∧
        MethodType.ofDescriptor descriptor = .ok type ∧
          Insn.decode body.code = .ok insns ∧
            BoundedPaths file.pool body insns (.entry type (Access.isStatic method.access)) := by
  obtain ⟨descriptor, type, insns, described, typed, decoded, checked⟩ :=
    exists_checked_of_checkMethod read member found clean
  exact ⟨descriptor, type, insns, described, typed, decoded, checked.boundedPaths⟩

/-- The paths round the loop and into the handler are bounded by one slot. -/
theorem boundedPaths_of_countdown :
    ∃ file method body,
      ClassFile.ofBytes countdown = .ok file ∧
        method ∈ file.methods ∧
          firstBody? method.attributes = some body ∧
            checkMethod file.pool (StackMap.firstVersion ≤ file.major) method = [] ∧
              body.maxStack = 1 ∧
                ∃ descriptor type insns,
                  file.pool.text method.descriptor = .ok descriptor ∧
                    MethodType.ofDescriptor descriptor = .ok type ∧
                      Insn.decode body.code = .ok insns ∧
                        BoundedPaths file.pool body insns
                          (.entry type (Access.isStatic method.access)) := by
  have outcome :
      (ClassFile.ofBytes countdown).toOption.map (fun file =>
          file.methods.map fun method =>
            ((firstBody? method.attributes).map CodeAttribute.maxStack,
              checkMethod file.pool (StackMap.firstVersion ≤ file.major) method)) =
        some [(some 1, [])] := by
    decide +kernel
  cases read : ClassFile.ofBytes countdown with
  | error => simp [read, Except.toOption] at outcome
  | ok file =>
      simp only [read, Except.toOption, Option.map_some, Option.some.injEq,
        List.map_eq_singleton_iff, Prod.mk.injEq] at outcome
      obtain ⟨method, methods, limit, clean⟩ := outcome
      obtain ⟨body, found, limited⟩ := Option.map_eq_some_iff.mp limit
      have member : method ∈ file.methods := by simp [methods]
      exact ⟨file, method, body, rfl, member, found, clean, limited,
        boundedPaths_of_checkMethod read member found clean⟩

/-- A method that declares no stack and drops what it catches. -/
def stackless : Bytes :=
  [ 0xCA, 0xFE, 0xBA, 0xBE, 0x00, 0x00, 0x00, 0x34, 0x00, 0x09, 0x01, 0x00, 0x01, 0x41, 0x07, 0x00,
    0x01, 0x01, 0x00, 0x10, 0x6A, 0x61, 0x76, 0x61, 0x2F, 0x6C, 0x61, 0x6E, 0x67, 0x2F, 0x4F, 0x62,
    0x6A, 0x65, 0x63, 0x74, 0x07, 0x00, 0x03, 0x01, 0x00, 0x04, 0x43, 0x6F, 0x64, 0x65, 0x01, 0x00,
    0x01, 0x6D, 0x01, 0x00, 0x03, 0x28, 0x29, 0x56, 0x01, 0x00, 0x0D, 0x53, 0x74, 0x61, 0x63, 0x6B,
    0x4D, 0x61, 0x70, 0x54, 0x61, 0x62, 0x6C, 0x65, 0x00, 0x21, 0x00, 0x02, 0x00, 0x04, 0x00, 0x00,
    0x00, 0x00, 0x00, 0x01, 0x00, 0x09, 0x00, 0x06, 0x00, 0x07, 0x00, 0x01, 0x00, 0x05, 0x00, 0x00,
    0x00, 0x24, 0x00, 0x00, 0x00, 0x00, 0x00, 0x00, 0x00, 0x04, 0x00, 0xB1, 0x57, 0xB1, 0x00, 0x01,
    0x00, 0x00, 0x00, 0x01, 0x00, 0x02, 0x00, 0x00, 0x00, 0x01, 0x00, 0x08, 0x00, 0x00, 0x00, 0x06,
    0x00, 0x01, 0x42, 0x07, 0x00, 0x04, 0x00, 0x00 ]

/-- The handler begins above the limit, and the check finds nothing wrong. -/
theorem exists_over_of_stackless :
    ∃ file method body type insns point,
      ClassFile.ofBytes stackless = .ok file ∧
        check stackless = [] ∧
          method ∈ file.methods ∧
            firstBody? method.attributes = some body ∧
              file.pool.text method.descriptor = .ok "()V" ∧
                MethodType.ofDescriptor "()V" = .ok type ∧
                  Insn.decode body.code = .ok insns ∧
                    Relation.ReflTransGen (PathStep file.pool body insns)
                        (.entry type (Access.isStatic method.access)) point ∧
                      body.maxStack.toNat < point.depth := by
  have outcome :
      (ClassFile.ofBytes stackless).toOption.map (fun file =>
          file.methods.map fun method =>
            (firstBody? method.attributes).map fun body =>
              (body.maxStack, body.handlers, body.code)) =
        some [some (0, [⟨0, 1, 2, 0⟩],
          [0x00, Opcode.voidReturn, Opcode.pop, Opcode.voidReturn])] := by
    decide +kernel
  have described :
      (ClassFile.ofBytes stackless).toOption.map (fun file =>
          file.methods.map fun method => (file.pool.text method.descriptor).toOption) =
        some [some "()V"] := by
    decide +kernel
  have clean : check stackless = [] := by decide +kernel
  have decoded :
      Insn.decode [0x00, Opcode.voidReturn, Opcode.pop, Opcode.voidReturn] =
        .ok [(0, .plain 0x00), (1, .plain Opcode.voidReturn), (2, .plain Opcode.pop),
          (3, .plain Opcode.voidReturn)] := by
    rfl
  cases read : ClassFile.ofBytes stackless with
  | error => simp [read, Except.toOption] at outcome
  | ok file =>
      simp only [read, Except.toOption, Option.map_some, Option.some.injEq,
        List.map_eq_singleton_iff] at outcome
      obtain ⟨method, methods, content⟩ := outcome
      simp only [read, Except.toOption, Option.map_some, Option.some.injEq, methods,
        List.map_singleton, List.cons.injEq, and_true] at described
      obtain ⟨body, found, content⟩ := Option.map_eq_some_iff.mp content
      obtain ⟨limit, handlers, code⟩ := by simpa only [Prod.mk.injEq] using content
      have member : method ∈ file.methods := by simp [methods]
      have caught : (⟨0, 1, 2, 0⟩ : HandlerEntry) ∈ body.handlers := by simp [handlers]
      rw [← code] at decoded
      refine ⟨file, method, body, ⟨[], none⟩, _, _, rfl, clean, member, found,
        toOption_eq_some_iff.mp described, by decide +kernel, decoded,
        .single (.caught (List.mem_cons_self ..) caught (Nat.zero_le _) Nat.one_pos), ?_⟩
      rw [limit]
      exact Nat.one_pos

end Verify
end JvmClass
