import JvmClass.Proofs.Slots
import JvmClass.Proofs.Steps
import JvmClass.Proofs.Weave.Stages
import Mathlib.Algebra.Group.Nat.Defs

namespace JvmClass

/-!
# Slots of several stages

Every stage starts its allocator above what the body declares, and passes the
declared size on as it is.  So the slots of a stage are above those of the body,
and all stages hand out their slots from the same one on.
-/

/-- The ranges of slots that were handed out for a part. -/
def WovenPart.reserved : WovenPart → List (Nat × Nat)
  | .entry reserved _ => reserved
  | _ => []

/-- The ranges of slots that were handed out for a woven body. -/
def WovenBody.reserved (woven : WovenBody) : List (Nat × Nat) :=
  woven.parts.flatMap WovenPart.reserved

/-- Advice that takes slots only by reserving some. -/
def Advice.Reserves {Memory : Type} (advice : Advice Memory) : Prop :=
  ∀ (memory : Memory) (slots : SlotAllocator),
    ∃ widths : List Nat,
      (∀ width ∈ widths, 0 < width) ∧ (advice.enter memory slots).2.1 = slots.allotAll widths

namespace Timer

theorem reserves_localScoped
    (field : Member)
    (clock : Clock) :
    (localScoped field clock).Reserves := by
  intro memory slots
  refine ⟨[2], by simp, ?_⟩
  simp only [localScoped, SlotAllocator.allotAll, List.foldl_cons, List.foldl_nil]
  rcases slots.allot 2 with ⟨_ | _, behind⟩ <;> rfl

end Timer

namespace Weaver

variable {Memory : Type} (weaver : Weaver Memory)

/-! ## What one stage hands out -/

/-- The ranges that the snippet for the start takes. -/
def taken (state : WeaveState Memory) : List (Nat × Nat) :=
  (weaver.advice.enter state.memory state.slots).2.1.reserved.drop state.slots.reserved.length

theorem reserved_enter
    (state : WeaveState Memory) :
    (weaver.enter state).2.flatMap WovenPart.reserved = weaver.taken state := by
  unfold enter
  cases weaver.detection <;> simp [WovenPart.reserved, taken]

theorem reserved_ensureEntered
    (state : WeaveState Memory) :
    (weaver.ensureEntered state).2.flatMap WovenPart.reserved =
        (if state.entered then [] else weaver.taken state) ∧
      (weaver.ensureEntered state).1.entered = true := by
  unfold ensureEntered
  split
  · exact ⟨rfl, ‹_›⟩
  · refine ⟨weaver.reserved_enter state, ?_⟩
    unfold enter
    cases weaver.detection <;> rfl

theorem reserved_closeGuard
    (state : WeaveState Memory) :
    (weaver.closeGuard state).2.flatMap WovenPart.reserved = [] ∧
      (weaver.closeGuard state).1.entered = state.entered := by
  unfold closeGuard
  split <;> exact ⟨rfl, rfl⟩

theorem reserved_passFrames
    (state : WeaveState Memory) :
    (passFrames state).2.flatMap WovenPart.reserved = [] ∧
      (passFrames state).1.entered = state.entered := by
  unfold passFrames
  split <;> exact ⟨rfl, rfl⟩

theorem reserved_passNode
    (state : WeaveState Memory)
    (node : Node) :
    (weaver.passNode state node).2.flatMap WovenPart.reserved =
        (if state.entered then [] else weaver.taken state) ∧
      (weaver.passNode state node).1.entered = true := by
  obtain ⟨entering, entered⟩ := weaver.reserved_ensureEntered state
  rw [← entering]
  cases node with
  | insn insn =>
      simp only [passNode]
      split <;> simp [entered, exit, WovenPart.reserved]
  | label _ | line _ _ => simp [passNode, entered, WovenPart.reserved]

theorem reserved_finish
    (state : WeaveState Memory)
    (maxStack maxLocals : UInt16) :
    (weaver.finish state maxStack maxLocals).2.flatMap WovenPart.reserved =
        (if state.entered then [] else weaver.taken state) ∧
      (weaver.finish state maxStack maxLocals).1.entered = true := by
  obtain ⟨entering, entered⟩ := weaver.reserved_ensureEntered state
  rw [← entering]
  simp [finish, reserved_closeGuard, reserved_passFrames, entered, raisedSizes, WovenPart.reserved]

/--
Between the sizes at both ends of a body, the slots of the snippet for the start
are taken once: before or with the part that the snippet comes with.
-/
theorem reserved_steps
    {state : WeaveState Memory}
    {events : List BodyEvent}
    (unsized : events.filterMap BodyEvent.sizes? = []) :
    let after := weaver.steps state events
    (after.1.entered = true ∧
        after.2.flatMap WovenPart.reserved =
          if state.entered then [] else weaver.taken state) ∨
      after.1.entered = false ∧ state.entered = false ∧
        after.1.memory = state.memory ∧ after.1.slots = state.slots ∧
          after.2.flatMap WovenPart.reserved = [] := by
  induction events generalizing state with
  | nil =>
      cases entered : state.entered with
      | true => exact .inl ⟨entered, rfl⟩
      | false => exact .inr ⟨entered, rfl, rfl, rfl, rfl⟩
  | cons event events inductionHypothesis =>
      rw [List.filterMap_eq_nil_iff, List.forall_mem_cons, ← List.filterMap_eq_nil_iff] at unsized
      have rest := @inductionHypothesis (weaver.step state event).1 unsized.2
      simp only [steps, List.flatMap_append]
      cases event with
      | code _ _ _ | maxima _ _ => cases unsized.1
      | node node =>
          obtain ⟨reserved, entered⟩ := weaver.reserved_passNode state node
          simp only [step, entered, if_true, Bool.true_eq_false, false_and, and_false, or_false]
            at rest
          refine .inl ⟨rest.1, ?_⟩
          simp only [step]
          rw [reserved, rest.2, List.append_nil]
      | _ => exact rest

/-- No sizes are told between the two ends of a body. -/
theorem unsized_steps
    {state : WeaveState Memory}
    {events : List BodyEvent}
    (unsized : events.filterMap BodyEvent.sizes? = []) :
    WovenPart.Unsized (weaver.steps state events).2 := by
  induction events generalizing state with
  | nil => exact rfl
  | cons event events inductionHypothesis =>
      rw [List.filterMap_eq_nil_iff, List.forall_mem_cons, ← List.filterMap_eq_nil_iff] at unsized
      refine .append ?_ (inductionHypothesis unsized.2)
      cases event with
      | code _ _ _ | maxima _ _ => cases unsized.1
      | node node => exact (weaver.inner_passNode state node).unsized
      | _ => exact rfl

end Weaver

/-! ## Whole bodies -/

/-- The events of a body that declares some local variables: sizes at both ends and nowhere else. -/
def WholeBody (maxLocals : UInt16) (events : List BodyEvent) : Prop :=
  ∃ (maxStack : UInt16) (freeLabel : Label) (inner : List BodyEvent) (sizes : UInt16 × UInt16),
    events = .code maxStack maxLocals freeLabel :: (inner ++ [.maxima sizes.1 sizes.2]) ∧
      inner.filterMap BodyEvent.sizes? = []

theorem wholeBody_events
    (body : Body) :
    WholeBody body.maxLocals body.events := by
  refine ⟨body.maxStack, body.nextLabel, _, (body.maxStack, body.maxLocals), rfl, ?_⟩
  simp [BodyEvent.sizes?]

namespace Weaver

variable {Memory : Type} (weaver : Weaver Memory)

/-- The sizes are the last part of a woven body. -/
theorem exists_finish_eq_append
    (state : WeaveState Memory)
    (maxStack maxLocals : UInt16) :
    ∃ (front : List WovenPart) (sizes : UInt16 × UInt16),
      (weaver.finish state maxStack maxLocals).2 = front ++ [.sizes sizes.1 sizes.2] ∧
        WovenPart.Unsized front := by
  have entering := weaver.inner_ensureEntered state
  have closing := weaver.inner_closeGuard (weaver.ensureEntered state).1
  have declared (state : WeaveState Memory) : WovenPart.Unsized (passFrames state).2 := by
    unfold passFrames
    split <;> exact rfl
  exact ⟨_, (_, _), rfl, (entering.append closing).unsized.append (declared _)⟩

/-- A whole body stays one, and the size that it declares at its start stays the same. -/
theorem wholeBody_weave
    (memory : Memory)
    {maxLocals : UInt16}
    {events : List BodyEvent}
    (whole : WholeBody maxLocals events) :
    WholeBody maxLocals (weaver.weave memory events).events := by
  obtain ⟨maxStack, freeLabel, inner, sizes, rfl, unsized⟩ := whole
  simp only [weave, weaveFrom_eq_steps, steps, step, steps_append]
  generalize weaver.begin (.start memory) maxLocals freeLabel = begun
  obtain ⟨front, raised, last, frontUnsized⟩ :=
    weaver.exists_finish_eq_append (weaver.steps begun inner).1 sizes.1 sizes.2
  refine ⟨maxStack, weaver.labelAfter freeLabel,
    ((weaver.steps begun inner).2 ++ front).flatMap WovenPart.events, raised, ?_,
    (weaver.unsized_steps unsized).append frontUnsized⟩
  simp [last, WovenBody.events, WovenPart.events]

/-- The ranges handed out for a whole body are those that the snippet for its start takes. -/
theorem reserved_weave
    (memory : Memory)
    {maxLocals : UInt16}
    {events : List BodyEvent}
    {slots : SlotAllocator}
    (whole : WholeBody maxLocals events)
    (allocator : SlotAllocator.forMethod weaver.access weaver.descriptor maxLocals = .ok slots) :
    (weaver.weave memory events).reserved =
      (weaver.advice.enter memory slots).2.1.reserved.drop slots.reserved.length := by
  obtain ⟨maxStack, freeLabel, inner, sizes, rfl, unsized⟩ := whole
  let begun := weaver.begin (.start memory) maxLocals freeLabel
  have taken :
      weaver.taken begun =
        (weaver.advice.enter memory slots).2.1.reserved.drop slots.reserved.length := by
    simp [begun, begin, allocator, Weaver.taken, WeaveState.start]
  have waiting : begun.entered = false := by
    simp [begun, begin, allocator, WeaveState.start]
  rw [← taken]
  simp only [weave, weaveFrom_eq_steps, steps, step, steps_append, WovenBody.reserved,
    List.flatMap_append, List.flatMap_cons, List.flatMap_nil, List.reverse_nil, List.nil_append,
    List.append_nil, reserved_finish, WovenPart.reserved]
  rcases @reserved_steps _ weaver begun _ unsized with
    ⟨entered, reserved⟩ | ⟨stillWaiting, -, memory, slots, reserved⟩
  · rw [waiting] at reserved
    simp [begun, entered, reserved]
  · simp [begun, stillWaiting, Weaver.taken, memory, slots, reserved]

/-- The snippet for the start works on an allocator for the method. -/
theorem slots_begun
    (memory : Memory)
    {body : Body}
    {slots : SlotAllocator}
    (allocator :
      SlotAllocator.forMethod weaver.access weaver.descriptor body.maxLocals = .ok slots) :
    (weaver.begun memory body).slots = slots := by
  simp [Weaver.begun, begin, allocator]

theorem slots_enteredState
    (memory : Memory)
    {body : Body}
    {slots : SlotAllocator}
    (allocator :
      SlotAllocator.forMethod weaver.access weaver.descriptor body.maxLocals = .ok slots) :
    (weaver.enteredState memory body).slots = (weaver.advice.enter memory slots).2.1 ∧
      (weaver.enteredState memory body).memory = (weaver.advice.enter memory slots).2.2 := by
  rw [← weaver.slots_begun memory allocator]
  unfold enteredState enter
  cases weaver.detection <;> simp

/-- Weaving that does not fail gets its slots, and refuses no instruction of the body. -/
theorem accepts_of_weave
    {memory : Memory}
    {body : Body}
    (passed : (weaver.weave memory body.events).failure = none) :
    (∃ slots,
        SlotAllocator.forMethod weaver.access weaver.descriptor body.maxLocals = .ok slots ∧
          (weaver.advice.enter memory slots).1.failure = none) ∧
      ∀ insn ∈ Node.insns body.nodes,
        slotFailure (weaver.enteredState memory body) insn = none := by
  simp only [weave_events, Option.or_eq_none_iff] at passed
  obtain ⟨⟨atStart, inside⟩, -⟩ := passed
  have begun :
      (weaver.begun memory body).failure = none ∧
        (weaver.advice.enter memory (weaver.begun memory body).slots).1.failure = none := by
    rw [← Option.or_eq_none_iff, ← atStart]
    simp only [enteredState, enter, memory_begun]
    cases weaver.detection <;> rfl
  constructor
  · simp only [Weaver.begun, begin] at begun
    cases allocator : SlotAllocator.forMethod weaver.access weaver.descriptor body.maxLocals with
    | error => simp [allocator, WeaveState.fail, WeaveState.start] at begun
    | ok slots =>
        rw [allocator] at begun
        exact ⟨slots, rfl, begun.2⟩
  · intro insn member
    obtain ⟨node, listed, found⟩ := List.mem_filterMap.mp member
    have accepted := List.findSome?_eq_none_iff.mp inside node listed
    cases node with
    | insn other =>
        cases found
        exact (Option.or_eq_none_iff.mp accepted).1
    | label _ | line _ _ => cases found

/-- Weaving that keeps the time and does not fail takes two slots above everything else. -/
theorem exists_reserved_of_weave
    {weaver : Weaver (Option UInt16)}
    {field : Member}
    {clock : Clock}
    {body : Body}
    (advised : weaver.advice = Timer.localScoped field clock)
    (passed : (weaver.weave none body.events).failure = none) :
    ∃ type first,
      MethodType.ofDescriptor weaver.descriptor = .ok type ∧
        SlotAllocator.forMethod weaver.access weaver.descriptor body.maxLocals =
            .ok (.startingAt first) ∧
          first =
              max body.maxLocals.toNat (type.argumentSlots (Access.isStatic weaver.access)).toNat ∧
            first + 2 < 2 ^ 16 ∧
              weaver.advice.enter none (.startingAt first) =
                (.ofInsns [Timer.readClock clock, .slot Opcode.lstore (UInt16.ofNat first)],
                  ⟨first + 2, [(first, 2)]⟩, some (UInt16.ofNat first)) := by
  obtain ⟨⟨slots, allocator, entered⟩, -⟩ := weaver.accepts_of_weave passed
  obtain ⟨type, typed, started⟩ := bind_eq_ok_iff.mp allocator
  obtain rfl := Except.ok.inj started
  generalize firstFree :
    max body.maxLocals.toNat (type.argumentSlots (Access.isStatic weaver.access)).toNat = first
    at allocator entered
  have small : first + 2 < 0x10000 := by
    by_contra large
    simp only [advised, Timer.localScoped, SlotAllocator.allot, SlotAllocator.startingAt, large,
      if_false, Snippet.failed, reduceCtorEq] at entered
  refine ⟨type, first, typed, allocator, firstFree.symm, small, ?_⟩
  simp only [advised, Timer.localScoped, SlotAllocator.allot, SlotAllocator.startingAt, small,
    if_true, List.nil_append]

end Weaver

/-! ## Several stages -/

/-- The first slot above the arguments of a method and above what its body declares. -/
def MethodHeader.firstFree (header : MethodHeader) (type : MethodType) (body : Body) : Nat :=
  max body.maxLocals.toNat (type.argumentSlots (Access.isStatic header.access)).toNat

/-- The accesses of the instructions of a body. -/
def Body.accesses (body : Body) : List SlotAccess :=
  (Node.insns body.nodes).filterMap Insn.access?

namespace Stage

/-- The ranges that a stage hands out behind some others. -/
def reservedBehind (header : MethodHeader) (earlier : List Stage) (stage : Stage)
    (body : Body) : List (Nat × Nat) :=
  (stage.weave header (delivered header earlier body.events)).reserved

/-- How stages in a row use the slots of a method. -/
structure SlotUse (header : MethodHeader) (body : Body) (stages : List Stage) : Prop where
  /-- Of two ranges of a stage, the earlier one ends before the later one starts. -/
  apart :
    ∀ {earlier later : List Stage} {stage : Stage}, stages = earlier ++ stage :: later →
      (reservedBehind header earlier stage body).Pairwise fun first second =>
        first.1 + first.2 ≤ second.1
  /-- No stage hands out a slot that the body uses. -/
  unused :
    ∀ {earlier later : List Stage} {stage : Stage}, stages = earlier ++ stage :: later →
      ∀ range ∈ reservedBehind header earlier stage body,
        ∀ slot, InRange slot range → ∀ access ∈ body.accesses, ¬access.Touches slot
  /-- The first stage refuses no instruction of the body. -/
  accepted :
    ∀ {later : List Stage} {stage : Stage}, stages = stage :: later →
      ∀ insn ∈ Node.insns body.nodes,
        Weaver.slotFailure ((stage.weaver header).enteredState stage.memory body) insn = none
  /-- Any two stages that hand out slots hand out one in common. -/
  shared :
    ∃ slot, ∀ {earlier later : List Stage} {stage : Stage}, stages = earlier ++ stage :: later →
      reservedBehind header earlier stage body ≠ [] →
        ∃ range ∈ reservedBehind header earlier stage body, InRange slot range

section SlotUse

variable {header : MethodHeader} {type : MethodType} {body : Body}

theorem wholeBody_delivered
    (stages : List Stage)
    {maxLocals : UInt16}
    {events : List BodyEvent}
    (whole : WholeBody maxLocals events) :
    WholeBody maxLocals (delivered header stages events) := by
  induction stages generalizing events with
  | nil => exact whole
  | cons stage stages inductionHypothesis =>
      exact inductionHypothesis ((stage.weaver header).wholeBody_weave stage.memory whole)

theorem forMethod_of_ofDescriptor
    (typed : MethodType.ofDescriptor header.descriptor = .ok type) :
    SlotAllocator.forMethod header.access header.descriptor body.maxLocals =
      .ok (.startingAt (header.firstFree type body)) := by
  rw [SlotAllocator.forMethod, typed]
  rfl

/-- What a stage hands out does not depend on the stages before it. -/
theorem reservedBehind_eq
    (typed : MethodType.ofDescriptor header.descriptor = .ok type)
    (earlier : List Stage)
    (stage : Stage) :
    reservedBehind header earlier stage body =
      (stage.advice.enter stage.memory (.startingAt (header.firstFree type body))).2.1.reserved := by
  have whole : WholeBody body.maxLocals (delivered header earlier body.events) :=
    wholeBody_delivered earlier (wholeBody_events body)
  exact (stage.weaver header).reserved_weave stage.memory whole (forMethod_of_ofDescriptor typed)

/-- What a stage hands out lies without gaps above the arguments and the declared variables. -/
theorem exists_tiles_reservedBehind
    (typed : MethodType.ofDescriptor header.descriptor = .ok type)
    (earlier : List Stage)
    {stage : Stage}
    (reserving : stage.advice.Reserves) :
    ∃ next,
      SlotAllocator.Tiles (header.firstFree type body)
        (reservedBehind header earlier stage body) next := by
  obtain ⟨widths, positive, after⟩ :=
    reserving stage.memory (.startingAt (header.firstFree type body))
  rw [reservedBehind_eq typed, after]
  exact ⟨_, SlotAllocator.tiles_startingAt _ positive⟩

/--
Stages that reserve slots leave those of the body alone, and the first one lets
every instruction of the body pass; but all of them start at the same slot.
-/
theorem slotUse_of_reserves
    {stages : List Stage}
    (typed : MethodType.ofDescriptor header.descriptor = .ok type)
    (below :
      ∀ access ∈ body.accesses, access.index.toNat + access.width ≤ body.maxLocals.toNat)
    (reserving : ∀ stage ∈ stages, stage.advice.Reserves) :
    SlotUse header body stages := by
  have tiles {earlier later : List Stage} {stage : Stage}
      (place : stages = earlier ++ stage :: later) :
      ∃ next,
        SlotAllocator.Tiles (header.firstFree type body)
          (reservedBehind header earlier stage body) next :=
    exists_tiles_reservedBehind typed earlier
      (reserving stage (by rw [place]; exact List.mem_append_right _ (List.mem_cons_self ..)))
  have above : body.maxLocals.toNat ≤ header.firstFree type body := Nat.le_max_left ..
  have unused {earlier later : List Stage} {stage : Stage}
      (place : stages = earlier ++ stage :: later)
      (range : Nat × Nat)
      (member : range ∈ reservedBehind header earlier stage body)
      (slot : Nat)
      (inRange : InRange slot range)
      (access : SlotAccess)
      (accessed : access ∈ body.accesses) :
      ¬access.Touches slot := by
    obtain ⟨next, tiled⟩ := tiles place
    have start := (tiled.bounds.2 range member).1
    have stop := below access accessed
    unfold InRange at inRange
    unfold SlotAccess.Touches InRange
    omega
  refine {
    apart := fun place => (tiles place).elim fun _ tiled => tiled.pairwise
    unused := unused
    accepted := ?_
    shared := ⟨header.firstFree type body, ?_⟩ }
  · intro later stage place insn member
    have slots :
        ((stage.weaver header).enteredState stage.memory body).slots.reserved =
          reservedBehind header [] stage body := by
      rw [reservedBehind_eq typed,
        ((stage.weaver header).slots_enteredState stage.memory (forMethod_of_ofDescriptor typed)).1]
      rfl
    unfold Weaver.slotFailure
    cases accessed : insn.access? with
    | none => rfl
    | some access =>
        obtain ⟨next, tiled⟩ := @tiles [] later stage place
        rw [← slots] at tiled
        have free :
            ∀ range ∈ ((stage.weaver header).enteredState stage.memory body).slots.reserved,
              ∀ slot, InRange slot range → ¬access.Touches slot := by
          rw [slots]
          exact fun range taken slot inRange =>
            @unused [] later stage place range taken slot inRange access
              (List.mem_filterMap.mpr ⟨insn, member, accessed⟩)
        have passes :=
          (SlotAllocator.checkAccess_eq_ok_iff (Insn.width_pos_of_access? accessed)
            fun range taken => (tiled.bounds.2 range taken).2.1).mpr free
        simp only [passes]
  · intro earlier later stage place nonempty
    obtain ⟨next, tiled⟩ := tiles place
    cases ranges : reservedBehind header earlier stage body with
    | nil => exact absurd ranges nonempty
    | cons range others =>
        rw [ranges] at tiled
        obtain ⟨starts, positive, -⟩ := tiled
        exact ⟨range, List.mem_cons_self .., by unfold InRange; omega⟩

end SlotUse

/-- A stage that keeps the time of entry in a local variable. -/
def keeping : Stage where
  Memory := Option UInt16
  memory := none
  advice := Timer.localScoped ⟨"A", "timer", "J"⟩ .milliseconds
  detection := .explicit

/-- Two stages that keep the time share the slots of the body that does nothing but jump. -/
theorem slotUse_of_spinning :
    SlotUse .spinning .spinning [keeping, keeping] := by
  have typed :
      MethodType.ofDescriptor MethodHeader.spinning.descriptor = .ok ⟨[], none⟩ := by
    simp [MethodHeader.spinning, MethodType.ofDescriptor, MethodType.parseParams?]
  refine slotUse_of_reserves typed (by decide) ?_
  simp only [List.mem_cons, List.not_mem_nil, or_false, or_self, forall_eq]
  exact Timer.reserves_localScoped _ _

/-- The second of the two hands out what the first did, and refuses what the first inserted. -/
theorem conflict_of_spinning :
    reservedBehind .spinning [] keeping .spinning = [(0, 2)] ∧
      reservedBehind .spinning [keeping] keeping .spinning = [(0, 2)] ∧
        (keeping.weave .spinning (delivered .spinning [keeping] Body.spinning.events)).failure =
          some (.slotConflict ⟨0, 2⟩) := by
  decide +kernel

end Stage
end JvmClass
