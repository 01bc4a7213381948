import JvmClass.Proofs.ClassModel.Bodies
import JvmClass.Proofs.Instrument.Kept
import JvmClass.Proofs.Verify.Bounded
import JvmClass.Proofs.Verify.Computed
import JvmClass.Proofs.Weave.Closed
import JvmClass.Proofs.Weave.Course
import JvmClass.Proofs.Weave.Slots

namespace JvmClass

/-!
# Slots of one run after the other

A run that keeps the time in a local variable raises the number of local variables
above the slots that it takes, and the next run reads that number.  The
instructions that were there before stay in the body with their slots.
-/

/-! ## Accesses of a body that was written -/

theorem Insn.Numbered.access?_eq
    {insn resolved : Insn}
    (numbered : insn.Numbered resolved) :
    resolved.access? = insn.access? := by
  cases numbered <;> rfl

namespace Body

/-- Wherever a body lies, its instructions touch the same slots. -/
theorem accesses_eq_of_layout
    {body : Body}
    {place : Label → Nat}
    {insns : List (Nat × Insn)}
    {size : Nat}
    (layout : Layout Insn.Numbered body.nodes place insns size) :
    body.accesses = insns.filterMap (·.2.access?) := by
  have listed := layout.listed
  rw [accesses]
  generalize Node.insns body.nodes = own at listed
  clear layout
  induction listed with
  | nil => rfl
  | @cons insn located _ _ first _ inductionHypothesis =>
      obtain ⟨resolved, numbered, same⟩ := first
      have touched : located.2.access? = insn.access? := by
        rw [same, Insn.access?_mapTargets, numbered.access?_eq]
      rw [List.filterMap_cons, List.filterMap_cons, touched, inductionHypothesis]

/-- A body that was read touches the slots that its bytecode does. -/
theorem accesses_eq_of_decodesTo
    {pool : Pool}
    {raw : CodeAttribute Attribute}
    {body : Body}
    {decoded : Decoded}
    {tables : Tables}
    (decodes : DecodesTo pool raw body decoded tables) :
    body.accesses = decoded.insns.filterMap (·.2.access?) := by
  rw [accesses, decodes.nodes_eq, Node.insns_ofSteps, DecodesTo.readSteps, stepsOf, List.map_map,
    List.filterMap_map]
  exact List.filterMap_congr fun located _ => Insn.access?_mapTargets _ _

/-- The second body has all local variables of the first, and its instructions touch more slots. -/
structure Within
    (body after : Body) : Prop where
  maxLocals : body.maxLocals.toNat ≤ after.maxLocals.toNat
  accesses : body.accesses ⊆ after.accesses

theorem Within.trans
    {body middle after : Body}
    (first : body.Within middle)
    (second : middle.Within after) :
    body.Within after :=
  ⟨Nat.le_trans first.maxLocals second.maxLocals, fun _ member => second.accesses (first.accesses member)⟩

end Body

/-- A closed body that was written is read with its instructions and its local variables. -/
theorem Method.RereadAs.exists_within
    {context : WriteContext}
    {method again : Method}
    {body : Body}
    (reread : RereadAs context method again)
    (held : method.body = some body)
    (closed : Node.Closed body.nodes) :
    ∃ bodyAgain, again.body = some bodyAgain ∧ body.Within bodyAgain := by
  obtain ⟨_, _, raw, _, read, bodyAgain, assembled, _, sameLocals, sameCode, decoded, kept⟩ :=
    reread.body body held
  obtain ⟨_, insns, layout, rawDecoded, enough⟩ := Body.exists_layout_of_assemble closed assembled
  obtain ⟨insnsAgain, _, decodes⟩ := Body.ofAttribute_eq_ok_iff.mp decoded
  have othersDecoded := Body.Decoded.decode_of_ofCode decodes.code
  rw [sameCode, rawDecoded] at othersDecoded
  cases othersDecoded
  refine ⟨bodyAgain, kept, ?_, ?_⟩
  · rw [decodes.shape, sameLocals]
    exact enough
  · rw [Body.accesses_eq_of_layout layout, Body.accesses_eq_of_decodesTo decodes]
    exact List.Subset.refl _

/-! ## Bodies that the time is kept in -/

/-- An instruction of a body is one of the expanded body. -/
theorem Expansion.mem_insns_tagged
    {expansion : Expansion}
    {insn : Insn}
    (regular : expansion.Regular)
    (member : insn ∈ Node.insns expansion.nodes) :
    insn ∈ Node.insns (expansion.tagged.map Prod.snd) := by
  obtain ⟨index, listed⟩ := List.mem_iff_getElem?.mp member
  have spot : expansion.Spot (fun _ => True) _ insn := .kept trivial (getElem?_items regular listed)
  exact List.mem_of_getElem? (getElem?_of_spot regular spot)

namespace Weaver

/-- A woven body has the instructions of the body, and its local variables if the slots do not run out. -/
theorem within_wovenBody
    {Memory : Type}
    {weaver : Weaver Memory}
    {memory : Memory}
    {body : Body}
    (straight : weaver.advice.Straight)
    (small : (weaver.enteredState memory body).slots.next < 2 ^ 16) :
    body.Within (weaver.wovenBody memory body) := by
  refine ⟨maxLocals_le_wovenBody small, List.filterMap_subset _ fun insn member => ?_⟩
  rw [nodes_wovenBody memory body straight]
  exact Expansion.mem_insns_tagged (regular_expansion memory body straight) member

/-- The slots that the time of entry is kept in, for a body of a method. -/
structure TakesPair
    (weaver : Weaver (Option UInt16))
    (body : Body)
    (type : MethodType)
    (first : Nat) : Prop where
  typed : MethodType.ofDescriptor weaver.descriptor = .ok type
  reserved : (weaver.weave none body.events).reserved = [(first, 2)]
  aboveLocals : body.maxLocals.toNat ≤ first
  aboveArguments : (type.argumentSlots (Access.isStatic weaver.access)).toNat ≤ first
  /-- No instruction of the body touches one of the slots. -/
  unused : ∀ access ∈ body.accesses, ∀ slot, InRange slot (first, 2) → ¬access.Touches slot
  maxLocals : (weaver.wovenBody none body).maxLocals.toNat = first + 2
  within : body.Within (weaver.wovenBody none body)

/-- Weaving that keeps the time and does not fail takes two slots above everything else. -/
theorem exists_takesPair_of_weave
    {weaver : Weaver (Option UInt16)}
    {field : Member}
    {clock : Clock}
    {body : Body}
    (advised : weaver.advice = Timer.localScoped field clock)
    (passed : (weaver.weave none body.events).failure = none) :
    ∃ type first, weaver.TakesPair body type first := by
  obtain ⟨-, accepted⟩ := weaver.accepts_of_weave passed
  obtain ⟨type, first, typed, allocator, firstFree, small, entered⟩ :=
    Weaver.exists_reserved_of_weave advised passed
  have taken : (weaver.advice.enter none (.startingAt first)).2.1 = ⟨first + 2, [(first, 2)]⟩ := by
    rw [entered]
  have slots : (weaver.enteredState none body).slots = ⟨first + 2, [(first, 2)]⟩ :=
    (weaver.slots_enteredState none allocator).1.trans taken
  have straight : weaver.advice.Straight := by
    rw [advised]
    exact Timer.straight_localScoped field clock
  refine ⟨type, first, typed, ?_, by omega, by omega, ?_, ?_, ?_⟩
  · rw [weaver.reserved_weave none (wholeBody_events body) allocator, taken]
    rfl
  · intro access accessed
    obtain ⟨insn, member, found⟩ := List.mem_filterMap.mp accessed
    have passes := accepted insn member
    simp only [slotFailure, found, slots] at passes
    split at passes
    · rename_i checked
      have positive : ∀ range ∈ [(first, 2)], 0 < range.2 := by simp
      exact
        (SlotAllocator.checkAccess_eq_ok_iff (Insn.width_pos_of_access? found) positive).mp checked
          (first, 2) (List.mem_singleton_self _)
    · cases passes
  · have raised : max body.maxLocals.toNat (first + 2) = first + 2 := by omega
    simp only [wovenBody, slots, raised]
    exact UInt16.toNat_ofNat_of_lt' small
  · exact within_wovenBody straight (slots ▸ small)

end Weaver

/-! ## Allocators -/

/-- A reservation that fails changes nothing, and an access is refused exactly if it shares a slot. -/
structure SlotAllocator.Exact (allocator : SlotAllocator) : Prop where
  unchanged :
    ∀ width conflict, (allocator.allot width).1 = .error conflict →
      (allocator.allot width).2 = allocator
  refused :
    ∀ access : SlotAccess, 0 < access.width →
      (allocator.checkAccess access = .error ⟨access.index, access.width⟩ ↔
        ∃ range ∈ allocator.reserved, ∃ slot, access.Touches slot ∧ InRange slot range)

/-- However slots are reserved, the allocator stays exact. -/
theorem SlotAllocator.exact_allotAll
    (first : Nat)
    {widths : List Nat}
    (positive : ∀ width ∈ widths, 0 < width) :
    ((startingAt first).allotAll widths).Exact := by
  refine ⟨fun width conflict failed => allot_eq_of_error failed, fun access accessWidth => ?_⟩
  have tiles := tiles_startingAt first positive
  exact checkAccess_eq_error_iff accessWidth fun range taken => (tiles.bounds.2 range taken).2.1

/-! ## Runs -/

namespace Instrument

/-- Whatever is done about conflicts of frames, a class is written in one way or another. -/
theorem exists_options_of_write
    {config : TimerConfig}
    {known : Hierarchy}
    {output : ClassModel}
    {written : Bytes}
    {conflicts : List Defect}
    (wrote : write config known output = .ok (written, conflicts)) :
    ∃ options hierarchy, output.writeWith options hierarchy = .ok written := by
  unfold write at wrote
  split at wrote
  · rename_i encoded
    cases wrote
    exact ⟨_, _, encoded⟩
  · split at wrote
    · obtain ⟨_, encoded, same⟩ := bind_eq_ok_iff.mp wrote
      cases same
      exact ⟨_, _, encoded⟩
    · cases wrote
  · cases wrote

/-- A run on a class, a method of the class with its body, and what the run gave. -/
structure LocalRun where
  config : TimerConfig
  bytes : Bytes
  input : ClassModel
  method : Method
  body : Body
  result : Instrumented

namespace LocalRun

variable (run : LocalRun)

/-- The run keeps the time of the method at a place in a local variable, and succeeds. -/
structure At (place : Nat) : Prop where
  strategy : run.config.strategy = .localScoped
  found : ClassModel.read run.bytes = .ok run.input
  listed : run.input.methods[place]? = some run.method
  held : run.method.body = some run.body
  target : run.config.isTarget run.method.name run.method.descriptor = true
  succeeds : instrument run.bytes run.config = .ok run.result

/-- The slots that the run takes for the method. -/
def reserved : List (Nat × Nat) :=
  (Timer.weaveBody run.config (run.config.newName.getD run.input.name) run.method.header
    run.body.events).reserved

/-- What the run weaves into the method. -/
def weaver : Weaver (Option UInt16) :=
  ⟨Timer.localScoped
      (Timer.counterField run.config (run.config.newName.getD run.input.name)) run.config.clock,
    .explicit, run.method.access, run.method.descriptor⟩

/-- The fields of the class that the run writes can be counted. -/
def Counted : Prop :=
  (timedFields run.config run.input.fields).length < 2 ^ 16

variable {run}

theorem At.weaveBody_eq
    {place : Nat}
    (runs : run.At place)
    (events : List BodyEvent) :
    Timer.weaveBody run.config (run.config.newName.getD run.input.name) run.method.header events =
      run.weaver.weave none events := by
  simp only [Timer.weaveBody, runs.strategy]
  rfl

/-- The run on a class for the method at a place, if there is one. -/
def of? (config : TimerConfig) (bytes : Bytes) (place : Nat) : Option LocalRun := do
  let input ← (ClassModel.read bytes).toOption
  let method ← input.methods[place]?
  let body ← method.body
  let result ← (instrument bytes config).toOption
  guard (config.strategy = .localScoped ∧ config.isTarget method.name method.descriptor = true)
  return ⟨config, bytes, input, method, body, result⟩

instance : Decidable run.Counted :=
  inferInstanceAs (Decidable (_ < _))

/-- A run that succeeds writes the timed class, and weaving into the method does not fail. -/
theorem At.exists_written
    {place : Nat}
    (runs : run.At place) :
    (∃ output outcome options hierarchy,
        timed run.config run.input = .ok (output, outcome) ∧
          output.writeWith options hierarchy = .ok run.result.bytes) ∧
      (run.weaver.weave none run.body.events).failure = none := by
  obtain ⟨⟨⟩, _, succeeds⟩ := bind_eq_ok_iff.mp runs.succeeds
  obtain ⟨input, found, succeeds⟩ := bind_eq_ok_iff.mp succeeds
  rw [mapError_eq_ok_iff, runs.found] at found
  cases found
  obtain ⟨⟨output, outcome⟩, timed, succeeds⟩ := bind_eq_ok_iff.mp succeeds
  obtain ⟨⟨written, conflicts⟩, wrote, succeeds⟩ := bind_eq_ok_iff.mp succeeds
  rw [mapError_eq_ok_iff] at wrote
  have bytes : written = run.result.bytes := congrArg Instrumented.bytes (Except.ok.inj succeeds)
  constructor
  · obtain ⟨options, hierarchy, encoded⟩ := exists_options_of_write wrote
    exact ⟨output, outcome, options, hierarchy, timed, bytes ▸ encoded⟩
  · have passed := failure_of_timed timed (List.mem_of_getElem? runs.listed) runs.held runs.target
    rwa [runs.weaveBody_eq] at passed

theorem at_of_of?
    {config : TimerConfig}
    {bytes : Bytes}
    {place : Nat}
    (found : of? config bytes place = some run) :
    run.At place ∧ run.bytes = bytes := by
  simp only [of?, Option.bind_eq_bind, Option.bind_eq_some_iff, guard, Option.pure_def] at found
  obtain ⟨input, read, method, listed, body, held, result, succeeds, ⟨⟩, passed, same⟩ := found
  obtain rfl := Option.some.inj same
  split at passed
  · rename_i isTarget
    exact ⟨⟨isTarget.1, toOption_eq_some_iff.mp read, listed, held, isTarget.2,
      toOption_eq_some_iff.mp succeeds⟩, rfl⟩
  · cases passed

/-- A run takes two slots above everything else. -/
theorem At.exists_takesPair
    {place : Nat}
    (runs : run.At place) :
    ∃ type first, run.weaver.TakesPair run.body type first :=
  Weaver.exists_takesPair_of_weave rfl runs.exists_written.2

/-- The class that a run writes has the method with the body that was woven, if its fields can be counted. -/
theorem At.exists_after
    {place : Nat}
    {output : ClassModel}
    (runs : run.At place)
    (counted : run.Counted)
    (reread : ClassModel.read run.result.bytes = .ok output) :
    ∃ method body,
      output.methods[place]? = some method ∧ method.access = run.method.access ∧
        method.name = run.method.name ∧ method.descriptor = run.method.descriptor ∧
          method.body = some body ∧ (run.weaver.wovenBody none run.body).Within body := by
  obtain ⟨⟨woven, outcome, options, hierarchy, timed, encoded⟩, _⟩ := runs.exists_written
  have regular := ClassModel.regular_of_read runs.found
  have settled := settled_of_timed_read runs.found timed
  have member := List.mem_of_getElem? runs.listed
  obtain ⟨nonempty, closed⟩ := regular.nonempty_closed member runs.held
  obtain rfl := shape_of_timed timed
  have few :
      ∀ method ∈ run.input.methods.map
          (Timer.timedMethod run.config (run.config.newName.getD run.input.name)),
        method.attributes.length + method.body.toList.length < 2 ^ 16 := by
    intro timedMethod isTimed
    obtain ⟨method, among, rfl⟩ := List.mem_map.mp isTimed
    rw [Timer.length_body_timedMethod run.config fun body held =>
      (regular.nonempty_closed among held).1]
    exact (regular.methods method among).short
  have rows :=
    ClassModel.methods_rereadAs settled.sound settled.interfacesShort settled.fits counted
      (show (List.map _ _).length < _ by simpa using regular.methodsShort) few encoded reread
  obtain ⟨inside, same⟩ := List.getElem?_eq_some_iff.mp runs.listed
  have insideAgain : place < output.methods.length := by
    rw [← rows.length_eq, List.length_map]
    exact inside
  have methodAgain := rows.get (show place < _ by simpa using inside) insideAgain
  simp only [List.get_eq_getElem, List.getElem_map, same] at methodAgain
  have bodyTimed :
      (Timer.timedMethod run.config (run.config.newName.getD run.input.name) run.method).body =
        some (run.weaver.wovenBody none run.body) := by
    simp only [Timer.timedMethod, Timer.timedEvents, runs.target, if_true, Timer.bodyEvents,
      runs.held, Option.map_some, Option.getD_some, runs.weaveBody_eq,
      run.weaver.ofEvents?_weave none run.body nonempty]
  obtain ⟨body, heldAgain, within⟩ :=
    methodAgain.exists_within bodyTimed
      (Weaver.closed_wovenBody none (Timer.straight_localScoped _ _)
        (Timer.wellFormed_localScoped _ _) closed)
  exact ⟨_, body, List.getElem?_eq_getElem insideAgain, methodAgain.access, methodAgain.name,
    methodAgain.descriptor, heldAgain, within⟩

/-! ### What a run takes -/

/-- The slots that a run takes for the method at a place, and what they are above. -/
structure Reserves
    (run : LocalRun)
    (place : Nat)
    (type : MethodType)
    (first : Nat) : Prop where
  typed : MethodType.ofDescriptor run.method.descriptor = .ok type
  pair : run.reserved = [(first, 2)]
  aboveLocals : run.body.maxLocals.toNat ≤ first
  aboveArguments : (type.argumentSlots (Access.isStatic run.method.access)).toNat ≤ first
  /-- Sixteen bits of the number of slots of the arguments are counted. -/
  counted :
    type.argumentSlots (Access.isStatic run.method.access) =
      UInt16.ofNat (type.argumentSize (Access.isStatic run.method.access))
  /-- The analysis of the frames begins with a place for each slot of the arguments. -/
  analysed :
    ∀ className maxLocals, ∃ initial,
      FrameState.initial
            ⟨className, run.method.access, run.method.name, run.method.descriptor, maxLocals⟩ =
          .ok initial ∧
        initial.locals.length = type.argumentSize (Access.isStatic run.method.access)
  /-- The check begins with the slots of the arguments assigned, if the body has that many. -/
  checked :
    ∀ maxLocals : UInt16,
      type.argumentSize (Access.isStatic run.method.access) ≤ maxLocals.toNat →
        (DepthState.onEntry type (Access.isStatic run.method.access) maxLocals).1.assigned.count
            true =
          type.argumentSize (Access.isStatic run.method.access)
  /-- The written body has the slots. -/
  covered :
    ∀ output, ClassModel.read run.result.bytes = .ok output →
      ∃ method body,
        output.methods[place]? = some method ∧ method.descriptor = run.method.descriptor ∧
          method.body = some body ∧ first + 2 ≤ body.maxLocals.toNat

/-- The state on entry has the arguments, and exists for every descriptor that is one. -/
theorem exists_initial
    {type : MethodType}
    {method : MethodContext}
    (typed : MethodType.ofDescriptor method.descriptor = .ok type) :
    ∃ initial,
      FrameState.initial method = .ok initial ∧
        initial.locals.length = type.argumentSize (Access.isStatic method.access) := by
  have found : ∃ initial, FrameState.initial method = .ok initial :=
    ⟨_, bind_eq_ok_iff.mpr ⟨type, typed, rfl⟩⟩
  obtain ⟨initial, found⟩ := found
  obtain ⟨other, otherTyped, length⟩ := FrameAnalysis.length_locals_initial found
  obtain rfl := Except.ok.inj (typed.symm.trans otherTyped)
  exact ⟨initial, found, length⟩

/-- The slots of a run are above those of the body, and no instruction of the body touches one. -/
theorem At.bounds
    {place : Nat}
    (runs : run.At place) :
    ∀ range ∈ run.reserved,
      run.body.maxLocals.toNat ≤ range.1 ∧
        ∀ access ∈ run.body.accesses, ∀ slot, InRange slot range → ¬access.Touches slot := by
  obtain ⟨type, first, takes⟩ := runs.exists_takesPair
  rw [reserved, runs.weaveBody_eq, takes.reserved]
  exact List.forall_mem_singleton.mpr ⟨takes.aboveLocals, takes.unused⟩

/-- The written body has the slots of the run, and at least the local variables that the body had. -/
theorem At.exists_covered
    {place : Nat}
    {output : ClassModel}
    (runs : run.At place)
    (counted : run.Counted)
    (reread : ClassModel.read run.result.bytes = .ok output) :
    ∃ method body,
      output.methods[place]? = some method ∧ method.access = run.method.access ∧
        method.name = run.method.name ∧ method.descriptor = run.method.descriptor ∧
          method.body = some body ∧
            (∀ range ∈ run.reserved, range.1 + range.2 ≤ body.maxLocals.toNat) ∧
              run.body.Within body := by
  obtain ⟨type, first, takes⟩ := runs.exists_takesPair
  obtain ⟨method, body, listed, access, name, descriptor, held, within⟩ :=
    runs.exists_after counted reread
  refine ⟨method, body, listed, access, name, descriptor, held, ?_, takes.within.trans within⟩
  rw [reserved, runs.weaveBody_eq, takes.reserved]
  exact List.forall_mem_singleton.mpr (takes.maxLocals ▸ within.maxLocals)

theorem At.exists_reserves
    {place : Nat}
    (runs : run.At place)
    (counted : run.Counted) :
    ∃ type first, run.Reserves place type first := by
  obtain ⟨type, first, takes⟩ := runs.exists_takesPair
  have pair : run.reserved = [(first, 2)] := by
    rw [reserved, runs.weaveBody_eq]
    exact takes.reserved
  refine ⟨type, first, takes.typed, pair, takes.aboveLocals, takes.aboveArguments,
    type.argumentSlots_eq _, fun className maxLocals => exists_initial takes.typed,
    fun maxLocals fits => ?_, fun output reread => ?_⟩
  · rw [DepthState.onEntry_of_fits fits]
    simp [List.count_replicate]
  · obtain ⟨method, body, listed, _, _, descriptor, held, covered, _⟩ :=
      runs.exists_covered counted reread
    rw [pair, List.forall_mem_singleton] at covered
    exact ⟨method, body, listed, descriptor, held, covered⟩

/-! ### One run after the other -/

/-- The body of a later run has the slots of an earlier one, and everything that its body had. -/
structure Before (earlier later : LocalRun) : Prop where
  covered : ∀ range ∈ earlier.reserved, range.1 + range.2 ≤ later.body.maxLocals.toNat
  within : earlier.body.Within later.body

instance : Trans Before Before Before where
  trans first second :=
    ⟨fun range taken => Nat.le_trans (first.covered range taken) second.within.maxLocals,
      first.within.trans second.within⟩

/-- A run on what another one wrote finds the slots of that one declared. -/
theorem At.before
    {earlier later : LocalRun}
    {place : Nat}
    (first : earlier.At place)
    (second : later.At place)
    (counted : earlier.Counted)
    (chained : later.bytes = earlier.result.bytes) :
    earlier.Before later := by
  obtain ⟨method, body, listed, _, _, _, held, covered, within⟩ :=
    first.exists_covered counted (chained ▸ second.found)
  obtain rfl := Option.some.inj (listed.symm.trans second.listed)
  obtain rfl := Option.some.inj (held.symm.trans second.held)
  exact ⟨covered, within⟩

/-- In a chain of runs, every run is before every later one. -/
theorem pairwise_before
    {runs : List LocalRun}
    {place : Nat}
    (each : ∀ run ∈ runs, run.At place)
    (counted : ∀ run ∈ runs, run.Counted)
    (chained : runs.IsChain fun earlier later => later.bytes = earlier.result.bytes) :
    runs.Pairwise Before := by
  refine List.isChain_iff_pairwise.mp ?_
  induction chained with
  | nil => exact .nil
  | singleton run => exact .singleton run
  | cons_cons links _ inductionHypothesis =>
      rw [List.forall_mem_cons, List.forall_mem_cons] at each counted
      refine .cons_cons (each.1.before each.2.1 counted.1 links) (inductionHypothesis ?_ ?_)
      · exact List.forall_mem_cons.mpr each.2
      · exact List.forall_mem_cons.mpr counted.2

end LocalRun

/-- Two ranges have no slot in common. -/
def Apart (range other : Nat × Nat) : Prop :=
  ∀ slot, InRange slot range → ¬InRange slot other

/--
Runs one on what the other wrote take pairs of slots above what is there, none of
which meets another or a slot that the first body uses, and in the end the body
has them all.  An allocator refuses what it should, however it was used.
-/
theorem slotSafe_of_runs
    {runs : List LocalRun}
    {place : Nat}
    (each : ∀ run ∈ runs, run.At place)
    (counted : ∀ run ∈ runs, run.Counted)
    (chained : runs.IsChain fun earlier later => later.bytes = earlier.result.bytes) :
    (∀ run ∈ runs, ∃ type first, run.Reserves place type first) ∧
      runs.Pairwise (fun earlier later =>
        ∀ range ∈ earlier.reserved, ∀ other ∈ later.reserved, Apart range other) ∧
      (∀ original ∈ runs.head?, ∀ access ∈ original.body.accesses,
        ∀ run ∈ runs, ∀ range ∈ run.reserved, ∀ slot, InRange slot range → ¬access.Touches slot) ∧
      (∀ final ∈ runs.getLast?, ∀ output, ClassModel.read final.result.bytes = .ok output →
        ∃ method body,
          output.methods[place]? = some method ∧ method.descriptor = final.method.descriptor ∧
            method.body = some body ∧
              ∀ run ∈ runs, ∀ range ∈ run.reserved,
                range.1 + range.2 ≤ body.maxLocals.toNat) ∧
      ∀ first widths, (∀ width ∈ widths, 0 < width) →
        ((SlotAllocator.startingAt first).allotAll widths).Exact := by
  have ordered := LocalRun.pairwise_before each counted chained
  refine ⟨fun run member => (each run member).exists_reserves (counted run member), ?_, ?_, ?_,
    fun first widths positive => SlotAllocator.exact_allotAll first positive⟩
  · refine ordered.imp_of_mem fun {earlier later} _ member before => ?_
    intro range taken other otherTaken slot inRange inOther
    have start := ((each later member).bounds other otherTaken).1
    have stop := before.covered range taken
    unfold InRange at inRange inOther
    omega
  · intro original atHead access accessed run member
    obtain ⟨rest, rfl⟩ := List.head?_eq_some_iff.mp atHead
    have within : original.body.accesses ⊆ run.body.accesses := by
      rcases List.mem_cons.mp member with rfl | later
      · exact List.Subset.refl _
      · exact (List.rel_of_pairwise_cons ordered later).within.accesses
    intro range taken
    exact ((each run member).bounds range taken).2 access (within accessed)
  · intro final atEnd output reread
    obtain ⟨front, rfl⟩ := List.getLast?_eq_some_iff.mp atEnd
    have last : final ∈ front ++ [final] := by simp
    obtain ⟨method, body, listed, _, _, descriptor, held, own, within⟩ :=
      (each final last).exists_covered (counted final last) reread
    refine ⟨method, body, listed, descriptor, held, fun run member range taken => ?_⟩
    rcases List.mem_append.mp member with earlier | atLast
    · have before := (List.pairwise_append.mp ordered).2.2 run earlier final (by simp)
      exact Nat.le_trans (before.covered range taken) within.maxLocals
    · obtain rfl := List.mem_singleton.mp atLast
      exact own range taken

/-- Two runs on the countdown take two slots each, the second ones behind the first. -/
theorem slotSafe_of_countdown :
    ∃ first second : LocalRun,
      first.bytes = Verify.countdown ∧ second.bytes = first.result.bytes ∧
        first.reserved = [(1, 2)] ∧ second.reserved = [(3, 2)] ∧
          [first, second].Pairwise (fun earlier later =>
            ∀ range ∈ earlier.reserved, ∀ other ∈ later.reserved, Apart range other) := by
  generalize chosen :
    ({ methodDescriptor := "(I)V", strategy := .localScoped } : TimerConfig) = config
  have evaluated :
      ((LocalRun.of? config Verify.countdown 0).bind fun first =>
          (LocalRun.of? config first.result.bytes 0).map fun second =>
            (first.reserved, second.reserved, decide first.Counted, decide second.Counted)) =
        some ([(1, 2)], [(3, 2)], true, true) := by
    subst chosen
    decide +kernel
  obtain ⟨first, started, evaluated⟩ := Option.bind_eq_some_iff.mp evaluated
  obtain ⟨second, continued, evaluated⟩ := Option.map_eq_some_iff.mp evaluated
  simp only [Prod.mk.injEq, decide_eq_true_eq] at evaluated
  obtain ⟨firstPair, secondPair, firstCounted, secondCounted⟩ := evaluated
  obtain ⟨firstAt, firstBytes⟩ := LocalRun.at_of_of? started
  obtain ⟨secondAt, secondBytes⟩ := LocalRun.at_of_of? continued
  have each : ∀ run ∈ [first, second], run.At 0 := by simp [firstAt, secondAt]
  have counted : ∀ run ∈ [first, second], run.Counted := by simp [firstCounted, secondCounted]
  have apart := (slotSafe_of_runs each counted (by simp [secondBytes])).2.1
  exact ⟨first, second, firstBytes, secondBytes, firstPair, secondPair, apart⟩

end Instrument
end JvmClass
