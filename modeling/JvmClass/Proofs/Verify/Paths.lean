import JvmClass.Proofs.ClassModel.Read
import JvmClass.Proofs.Verify.Fixpoint
import Mathlib.Logic.Relation

namespace JvmClass

/-!
# What a check says about all paths

A check visits every instruction a bounded number of times, and still what it
finds nothing wrong with is right along every path, however often the path goes
round a loop.  A path counts all the slots on its stack, the check sixteen bits
of their number.
-/

/-- The slots that an access covers. -/
def SlotAccess.slots (access : SlotAccess) : List Nat :=
  List.range' access.index.toNat access.width

namespace Insn

/-- The slots that an instruction reads; `iinc` reads and writes. -/
def readSlots (insn : Insn) : List Nat :=
  match insn.access? with
  | none => []
  | some access => if access.isStore && insn.opcode ≠ Opcode.iinc then [] else access.slots

/-- The slots that an instruction writes. -/
def writtenSlots (insn : Insn) : List Nat :=
  match insn.access? with
  | none => []
  | some access => if access.isStore then access.slots else []

end Insn

/-- The slots on a stack behind an instruction, from those in front of it. -/
def StackEffect.after (effect : StackEffect) (depth : Nat) : Nat :=
  depth - effect.pops.toNat + effect.pushes.toNat

namespace Verify

/-- Where a path has come to: an offset, the depth there and the slots it has written. -/
structure PathPoint where
  offset : Nat
  depth : Nat
  written : List Nat

/-- Where every path of a method begins. -/
def PathPoint.entry (type : MethodType) (isStatic : Bool) : PathPoint :=
  ⟨0, 0, List.range (type.argumentSize isStatic)⟩

/-- One step of a path through a body with these instructions. -/
inductive PathStep
    (pool : Pool)
    (body : CodeAttribute Attribute)
    (insns : List (Nat × Insn)) : PathPoint → PathPoint → Prop
  /-- An instruction transfers control to one of its targets. -/
  | branch
      {point : PathPoint}
      {insn : Insn}
      {effect : StackEffect}
      {target : Nat}
      (placed : (point.offset, insn) ∈ insns)
      (moves : insn.effect pool = .ok effect)
      (member : target ∈ insn.targets) :
      PathStep pool body insns point
        ⟨target, effect.after point.depth, point.written ++ insn.writtenSlots⟩
  /-- Control goes on to what lies behind an instruction, be it the end of the body. -/
  | fall
      {point : PathPoint}
      {insn : Insn}
      {effect : StackEffect}
      {position : Nat}
      (placed : insns[position]? = some (point.offset, insn))
      (moves : insn.effect pool = .ok effect)
      (continues : insn.opcode.endsFlow = false) :
      PathStep pool body insns point
        ⟨(insns[position + 1]?.map Prod.fst).getD body.code.length,
          effect.after point.depth, point.written ++ insn.writtenSlots⟩
  /-- An exception is thrown before an instruction has done anything. -/
  | caught
      {point : PathPoint}
      {insn : Insn}
      {entry : HandlerEntry}
      (placed : (point.offset, insn) ∈ insns)
      (member : entry ∈ body.handlers)
      (starts : entry.start.toNat ≤ point.offset)
      (stops : point.offset < entry.stop.toNat) :
      PathStep pool body insns point ⟨entry.handler.toNat, 1, point.written⟩

/-- An instruction finds what it needs where a path has come to. -/
structure PathPoint.Allows
    (pool : Pool)
    (maxLocals : UInt16)
    (point : PathPoint)
    (insn : Insn) : Prop where
  operands : ∃ effect, insn.effect pool = .ok effect ∧ effect.pops.toNat ≤ point.depth
  inside : ∀ slot ∈ insn.readSlots ++ insn.writtenSlots, slot < maxLocals.toNat
  written : ∀ slot ∈ insn.readSlots, slot ∈ point.written

/-! ## Paths along a fixed point -/

section Held

open DepthProgress

variable
  {context : DepthContext}
  {body : CodeAttribute Attribute}
  {insns : List (Nat × Insn)}
  {states : Array (Option DepthState)}

/-- The state at an instruction promises no more than a path that has come there provides. -/
structure PathPoint.Held
    (insns : List (Nat × Insn))
    (states : Array (Option DepthState))
    (count : Nat)
    (point : PathPoint)
    (position : Nat)
    (insn : Insn)
    (state : DepthState) : Prop where
  placed : insns[position]? = some (point.offset, insn)
  held : states.getD position none = some state
  depth : state.depth = UInt16.ofNat point.depth
  count : state.assigned.length = count
  written : ∀ slot : Nat, state.assigned[slot]? = some true → slot ∈ point.written

/-- The offset of an instruction tells where it stands. -/
theorem position_eq_of_offset
    {size position other offset : Nat}
    {bytes : Bytes}
    {insn otherInsn : Insn}
    (decodes : Insn.Decodes size 0 bytes insns)
    (placed : insns[position]? = some (offset, insn))
    (otherPlaced : insns[other]? = some (offset, otherInsn)) :
    position = other := by
  have distinct : (insns.map Prod.fst).Nodup := decodes.placed.1.imp Nat.ne_of_lt
  have first : (insns.map Prod.fst)[position]? = some offset := by simp [placed]
  have second : (insns.map Prod.fst)[other]? = some offset := by simp [otherPlaced]
  exact (List.getElem?_inj (List.getElem?_eq_some_iff.mp first).1 distinct).mp
    (first.trans second.symm)

/-- Offsets of a body that is short enough fit their field. -/
theorem offset_lt_of_decodes
    {size position offset : Nat}
    {bytes : Bytes}
    {insn : Insn}
    (decodes : Insn.Decodes size 0 bytes insns)
    (short : bytes.length < 2 ^ 16)
    (placed : insns[position]? = some (offset, insn)) :
    offset < 2 ^ 16 := by
  have inside := decodes.placed.2 offset (List.mem_map_of_mem (List.mem_of_getElem? placed))
  omega

/-- What is not more than a state counts is not more than there is on a path. -/
theorem PathPoint.Held.toNat_le
    {count position : Nat}
    {point : PathPoint}
    {insn : Insn}
    {state : DepthState}
    {slots : UInt16}
    (held : point.Held insns states count position insn state)
    (enough : slots ≤ state.depth) :
    slots.toNat ≤ point.depth := by
  rw [held.depth, UInt16.le_iff_toNat_le, UInt16.toNat_ofNat'] at enough
  exact Nat.le_trans enough (Nat.mod_le _ _)

/-- A path that goes where a fixed point leads meets a state there. -/
theorem exists_held_of_leads
    {size count offset depth : Nat}
    {bytes : Bytes}
    {incoming : DepthState}
    {written : List Nat}
    (decodes : Insn.Decodes size 0 bytes insns)
    (short : bytes.length < 2 ^ 16)
    (leads : Leads (.ofInsns insns) states (UInt16.ofNat offset) incoming)
    (small : offset < 2 ^ 16)
    (counted : incoming.depth = UInt16.ofNat depth)
    (length : incoming.assigned.length = count)
    (marked : ∀ slot : Nat, incoming.assigned[slot]? = some true → slot ∈ written) :
    ∃ position insn state,
      PathPoint.Held insns states count ⟨offset, depth, written⟩ position insn state := by
  obtain ⟨position, state, means, held, weaker⟩ := leads
  obtain ⟨insn, located⟩ := LocatedCode.insn_of_positions means
  obtain ⟨place, placed, sameOffset⟩ := LocatedCode.placed_of_located located
  have placeSmall := offset_lt_of_decodes decodes short placed
  have same : place = offset := by
    have numbers := congrArg UInt16.toNat sameOffset.symm
    rwa [UInt16.toNat_ofNat_of_lt' placeSmall, UInt16.toNat_ofNat_of_lt' small] at numbers
  subst same
  exact ⟨position, _, state, placed, held, weaker.depth.trans counted,
    weaker.count.trans length,
    fun slot isMarked => marked slot (weaker.assigned slot isMarked)⟩

/-- What a step without a finding marks, the instruction writes or was marked before. -/
theorem mem_written_of_cleanStep
    {insn : Insn}
    {before behind : DepthState}
    {written : List Nat}
    (clean : DepthState.CleanStep context.pool insn before behind)
    (marked : ∀ slot : Nat, before.assigned[slot]? = some true → slot ∈ written)
    (slot : Nat)
    (isMarked : behind.assigned[slot]? = some true) :
    slot ∈ written ++ insn.writtenSlots := by
  rcases clean.assigned slot isMarked with old | ⟨access, touched, isStore, from_, until_⟩
  · exact List.mem_append_left _ (marked slot old)
  · refine List.mem_append_right _ ?_
    simp only [Insn.writtenSlots, touched, isStore, if_true, SlotAccess.slots, List.mem_range'_1]
    exact ⟨from_, until_⟩

/-- One step of a path goes from a state of a fixed point to another. -/
theorem exists_held_of_step
    {entry : DepthState}
    {count position : Nat}
    {bytes : Bytes}
    {point next : PathPoint}
    {insn : Insn}
    {state : DepthState}
    (decodes : Insn.Decodes bytes.length 0 bytes insns)
    (short : bytes.length < 2 ^ 16)
    (fixpoint : Fixpoint context insns body.handlers entry states)
    (held : point.Held insns states count position insn state)
    (step : PathStep context.pool body insns point next) :
    ∃ position insn state, next.Held insns states count position insn state := by
  obtain ⟨offset, _, located, clean, caught, targets, falls⟩ :=
    fixpoint.settled position state held.held
  rw [LocatedCode.getElem?_insns_ofInsns, held.placed, Option.map_some] at located
  cases located
  have cleanStep := DepthState.cleanStep_of_step clean
  have marked := mem_written_of_cleanStep cleanStep held.written
  have length : (state.step context insn).1.assigned.length = count := by
    rw [DepthState.length_step, held.count]
  have offsetSmall := offset_lt_of_decodes decodes short held.placed
  -- The instruction that a step names is the one that the state belongs to.
  have sameInsn {other : Insn} {otherPosition : Nat}
      (placed : insns[otherPosition]? = some (point.offset, other)) :
      otherPosition = position ∧ other = insn := by
    have same := position_eq_of_offset decodes placed held.placed
    subst same
    rw [held.placed] at placed
    cases placed
    exact ⟨rfl, rfl⟩
  have behindDepth {effect : StackEffect} (moves : insn.effect context.pool = .ok effect) :
      (state.step context insn).1.depth = UInt16.ofNat (effect.after point.depth) := by
    obtain ⟨found, foundMoves, enough, behind⟩ := cleanStep.depth
    rw [moves] at foundMoves
    cases foundMoves
    rw [behind, held.depth, StackEffect.after, UInt16.ofNat_add,
      UInt16.ofNat_sub (held.toNat_le enough), UInt16.ofNat_toNat, UInt16.ofNat_toNat]
  cases step with
  | @branch other effect target placed moves member =>
      obtain ⟨otherPosition, otherPlaced⟩ := List.mem_iff_getElem?.mp placed
      obtain ⟨_, rfl⟩ := sameInsn otherPlaced
      have inside := (decodes.wellFormed _ placed).2 target member
      exact exists_held_of_leads decodes short (targets target member)
        (Nat.lt_trans inside short) (behindDepth moves) length marked
  | @fall other effect otherPosition placed moves continues =>
      obtain ⟨rfl, rfl⟩ := sameInsn placed
      obtain ⟨behindOffset, behind, leads⟩ := falls continues
      rw [LocatedCode.offsetAfter?, LocatedCode.getElem?_insns_ofInsns, Option.map_map] at behind
      obtain ⟨⟨place, behindInsn⟩, behindPlaced, rfl⟩ := Option.map_eq_some_iff.mp behind
      have placeSmall := offset_lt_of_decodes decodes short behindPlaced
      rw [behindPlaced, Option.map_some, Option.getD_some]
      exact exists_held_of_leads decodes short leads placeSmall (behindDepth moves) length marked
  | @caught other handler placed member starts stops =>
      have covers : handler.covers (UInt16.ofNat point.offset) = true :=
        (HandlerEntry.covers_ofNat_iff offsetSmall).mpr ⟨starts, stops⟩
      have leads := caught handler member covers
      rw [← UInt16.ofNat_toNat (x := handler.handler)] at leads
      exact exists_held_of_leads decodes short leads handler.handler.toNat_lt rfl held.count
        held.written

/-- Along every path the states of a fixed point promise no more than the path provides. -/
theorem exists_held_of_path
    {entry : DepthState}
    {count : Nat}
    {bytes : Bytes}
    {first point : PathPoint}
    (decodes : Insn.Decodes bytes.length 0 bytes insns)
    (short : bytes.length < 2 ^ 16)
    (fixpoint : Fixpoint context insns body.handlers entry states)
    (firstHeld : ∃ position insn state, first.Held insns states count position insn state)
    (path : Relation.ReflTransGen (PathStep context.pool body insns) first point) :
    ∃ position insn state, point.Held insns states count position insn state := by
  induction path with
  | refl => exact firstHeld
  | tail _ step inductionHypothesis =>
      obtain ⟨position, insn, state, held⟩ := inductionHypothesis
      exact exists_held_of_step decodes short fixpoint held step

/-- The instruction that a state of a fixed point belongs to finds what it needs. -/
theorem allows_of_held
    {entry : DepthState}
    {maxLocals : UInt16}
    {position : Nat}
    {point : PathPoint}
    {insn : Insn}
    {state : DepthState}
    (fixpoint : Fixpoint context insns body.handlers entry states)
    (held : point.Held insns states maxLocals.toNat position insn state) :
    point.Allows context.pool maxLocals insn := by
  obtain ⟨offset, _, located, clean, _⟩ := fixpoint.settled position state held.held
  rw [LocatedCode.getElem?_insns_ofInsns, held.placed, Option.map_some] at located
  cases located
  have cleanStep := DepthState.cleanStep_of_step clean
  obtain ⟨effect, moves, enough, _⟩ := cleanStep.depth
  refine ⟨⟨effect, moves, held.toNat_le enough⟩, ?_, ?_⟩
  · intro slot touched
    obtain ⟨access, accessed, from_, until_⟩ :
        ∃ access,
          insn.access? = some access ∧
            access.index.toNat ≤ slot ∧ slot < access.index.toNat + access.width := by
      simp only [Insn.readSlots, Insn.writtenSlots, List.mem_append] at touched
      cases accessed : insn.access? with
      | none => simp [accessed] at touched
      | some access =>
          simp only [accessed, SlotAccess.slots] at touched
          refine ⟨access, rfl, ?_⟩
          rcases touched with read | written
          · split at read
            · cases read
            · exact List.mem_range'_1.mp read
          · split at written
            · exact List.mem_range'_1.mp written
            · cases written
    have inside := cleanStep.inside access accessed
    rw [held.count] at inside
    omega
  · intro slot read
    simp only [Insn.readSlots] at read
    cases accessed : insn.access? with
    | none => simp [accessed] at read
    | some access =>
        simp only [accessed] at read
        split at read
        · cases read
        · rename_i reads
          obtain ⟨from_, until_⟩ := List.mem_range'_1.mp read
          refine held.written slot (cleanStep.read access accessed ?_ slot from_ until_)
          simp only [ne_eq, Bool.and_eq_true, decide_eq_true_eq, not_and, Decidable.not_not] at reads
          cases isStore : access.isStore with
          | false => exact .inl rfl
          | true => exact .inr (reads isStore)

end Held

/-! ## Checked methods -/

/-- A body that was read is not empty and not too long. -/
theorem headFits_of_firstBody
    {pool : Pool}
    {attributes : List Attribute}
    {body : CodeAttribute Attribute}
    (fits : Attribute.TableFits pool attributes)
    (found : firstBody? attributes = some body) :
    Attribute.HeadFits body := by
  obtain ⟨item, member, isBody⟩ := List.exists_of_findSome?_eq_some found
  cases fits.fits item member with
  | leaf _ isLeaf =>
      cases item with
      | code content => exact isLeaf.elim
      | _ => cases isBody
  | body _ head _ _ =>
      cases isBody
      exact head

/-- A check of a body that finds nothing wrong has followed its instructions. -/
theorem checkInsns_eq_nil_of_checkBody
    {pool : Pool}
    {access : UInt16}
    {descriptor : String}
    {framed : Bool}
    {body : CodeAttribute Attribute}
    (clean : checkBody pool access descriptor body framed = []) :
    ∃ type insns,
      MethodType.ofDescriptor descriptor = .ok type ∧
        Insn.decode body.code = .ok insns ∧
          insns ≠ [] ∧ checkInsns pool (Access.isStatic access) type body framed insns = [] := by
  unfold checkBody at clean
  cases typed : MethodType.ofDescriptor descriptor with
  | error => simp [typed] at clean
  | ok type =>
      cases decoded : Insn.decode body.code with
      | error => simp [typed, decoded] at clean
      | ok insns =>
          cases insns with
          | nil => simp [typed, decoded] at clean
          | cons first rest =>
              simp only [typed, decoded, List.map_eq_nil_iff, List.reverse_eq_nil_iff] at clean
              exact ⟨type, first :: rest, rfl, rfl, by simp, clean⟩

/-- A check of a method that finds nothing wrong has followed its instructions. -/
theorem checkInsns_eq_nil_of_checkMethod
    {pool : Pool}
    {framed : Bool}
    {method : MemberInfo}
    {body : CodeAttribute Attribute}
    (found : firstBody? method.attributes = some body)
    (clean : checkMethod pool framed method = []) :
    ∃ descriptor type insns,
      pool.text method.descriptor = .ok descriptor ∧
        MethodType.ofDescriptor descriptor = .ok type ∧
          Insn.decode body.code = .ok insns ∧
            insns ≠ [] ∧
              checkInsns pool (Access.isStatic method.access) type body framed insns = [] := by
  unfold checkMethod at clean
  split at clean
  · rename_i name descriptor _ described
    simp only [found, List.map_eq_nil_iff] at clean
    obtain ⟨type, insns, followed⟩ := checkInsns_eq_nil_of_checkBody clean
    exact ⟨descriptor, type, insns, described, followed⟩
  · cases clean

/-- The slots that are marked on entry are those of the arguments. -/
theorem mem_range_of_onEntry
    {type : MethodType}
    {isStatic : Bool}
    {maxLocals : UInt16}
    (fits : type.argumentSize isStatic ≤ maxLocals.toNat)
    (slot : Nat)
    (marked : (DepthState.onEntry type isStatic maxLocals).1.assigned[slot]? = some true) :
    slot ∈ List.range (type.argumentSize isStatic) := by
  rw [DepthState.onEntry_of_fits fits] at marked
  rw [List.mem_range]
  by_contra outside
  rw [List.getElem?_append_right (by simpa using outside), List.getElem?_replicate] at marked
  simp at marked

/-- A body of these instructions in which a check finds nothing wrong. -/
structure Checked
    (pool : Pool)
    (isStatic : Bool)
    (type : MethodType)
    (body : CodeAttribute Attribute)
    (framed : Bool)
    (insns : List (Nat × Insn)) : Prop where
  decodes : Insn.Decodes body.code.length 0 body.code insns
  short : body.code.length < 2 ^ 16
  nonempty : insns ≠ []
  clean : checkInsns pool isStatic type body framed insns = []

/-- Every path through a checked body meets the states that the check ended with. -/
theorem Checked.exists_held
    {pool : Pool}
    {isStatic framed : Bool}
    {type : MethodType}
    {body : CodeAttribute Attribute}
    {insns : List (Nat × Insn)}
    {point : PathPoint}
    (checked : Checked pool isStatic type body framed insns)
    (path : Relation.ReflTransGen (PathStep pool body insns) (.entry type isStatic) point) :
    ∃ position insn state,
      point.Held insns (DepthProgress.solved pool isStatic type body insns).states
        body.maxLocals.toNat position insn state := by
  obtain ⟨fits, fixpoint⟩ := DepthProgress.fixpoint_of_checkInsns checked.nonempty checked.clean
  have decodes := checked.decodes
  refine exists_held_of_path decodes checked.short fixpoint ?_ path
  obtain ⟨state, held, weaker⟩ := fixpoint.first
  cases insns with
  | nil => exact absurd rfl checked.nonempty
  | cons first rest =>
      have marked slot isMarked := mem_range_of_onEntry fits slot (weaker.assigned slot isMarked)
      refine ⟨0, first.2, state, ?_, held, ?_, ?_, marked⟩
      · rw [List.getElem?_cons_zero, PathPoint.entry, ← decodes.offset_first]
      · rw [weaker.depth, DepthState.onEntry_of_fits fits]
        rfl
      · rw [weaker.count, DepthState.onEntry_of_fits fits]
        simp
        omega

/-- A method that a check finds nothing wrong with has a checked body. -/
theorem exists_checked_of_checkMethod
    {bytes : Bytes}
    {file : ClassFile}
    {method : MemberInfo}
    {body : CodeAttribute Attribute}
    (read : ClassFile.ofBytes bytes = .ok file)
    (member : method ∈ file.methods)
    (found : firstBody? method.attributes = some body)
    (clean : checkMethod file.pool (StackMap.firstVersion ≤ file.major) method = []) :
    ∃ descriptor type insns,
      file.pool.text method.descriptor = .ok descriptor ∧
        MethodType.ofDescriptor descriptor = .ok type ∧
          Insn.decode body.code = .ok insns ∧
            Checked file.pool (Access.isStatic method.access) type body
              (StackMap.firstVersion ≤ file.major) insns := by
  have regular := ClassFile.regular_of_reads (ClassFile.ofBytes_eq_ok_iff.mp read)
  have head := headFits_of_firstBody (regular.methods method member) found
  obtain ⟨descriptor, type, insns, described, typed, decoded, nonempty, insnsClean⟩ :=
    checkInsns_eq_nil_of_checkMethod found clean
  exact ⟨descriptor, type, insns, described, typed, decoded, Insn.decode_eq_ok_iff.mp decoded,
    Nat.lt_of_le_of_lt head.short (by decide), nonempty, insnsClean⟩

end Verify
end JvmClass
