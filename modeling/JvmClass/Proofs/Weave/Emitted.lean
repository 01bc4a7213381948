import JvmClass.Proofs.Weave.Keeping
import JvmClass.Proofs.Weave.Neutral

namespace JvmClass

/-!
# Expanded bodies that are written as they are

A checked body was expanded and assembled with the sizes that it has.  Nothing is
wrong with the result but missing frames if what was inserted is stack-neutral, and
nothing at all if nothing was inserted.
-/

/-- A row at a position holds what a row of instructions was resolved to. -/
theorem Depths.forall₂_row
    (depths : Depths)
    {resolves : Insn → Insn → Prop}
    {pool : Pool}
    {code : CodeAttribute Attribute}
    {body : Body}
    {decoded : Body.Decoded}
    {tables : Body.Tables}
    {place : Label → Nat}
    {size start : Nat}
    {snippet : List Insn}
    (laid : depths.expansion.Laid resolves pool code body decoded tables place depths.written size)
    (spots :
      ∀ position insn,
        snippet[position]? = some insn →
          depths.expansion.Spot (fun _ => True) (start + position) insn) :
    List.Forall₂
      (fun insn located => ∃ resolved, resolves insn resolved ∧ located = resolved.mapTargets place)
      snippet (depths.row start snippet.length) := by
  induction snippet generalizing start with
  | nil =>
      rw [List.length_nil, row, List.take_zero]
      exact .nil
  | cons insn snippet inductionHypothesis =>
      obtain ⟨offset, resolved, placed, related, _⟩ := laid.exists_item (spots 0 insn rfl)
      have here : (depths.written.map Prod.snd)[start]? = some (resolved.mapTargets place) := by
        rw [List.getElem?_map, show depths.written[start]? = _ from placed]
        rfl
      obtain ⟨inside, same⟩ := List.getElem?_eq_some_iff.mp here
      have shape :
          depths.row start (snippet.length + 1) =
            resolved.mapTargets place :: depths.row (start + 1) snippet.length := by
        rw [row, List.drop_eq_getElem_cons inside, List.take_succ_cons, same]
        rfl
      rw [List.length_cons, shape]
      refine .cons ⟨resolved, related, rfl⟩ (inductionHypothesis fun position other listed => ?_)
      have spot := spots (position + 1) other listed
      rwa [Nat.add_comm position 1, ← Nat.add_assoc] at spot

/-- More local variables are not assigned on entry. -/
theorem DepthState.onEntry_widened
    {type : MethodType}
    {isStatic : Bool}
    {maxLocals larger : UInt16}
    (fits : type.argumentSize isStatic ≤ maxLocals.toNat)
    (room : maxLocals.toNat ≤ larger.toNat) :
    (onEntry type isStatic larger).1 =
      (onEntry type isStatic maxLocals).1.widened
        (List.replicate (larger.toNat - maxLocals.toNat) false) := by
  rw [onEntry_of_fits fits, onEntry_of_fits (Nat.le_trans fits room)]
  simp only [widened, List.append_assoc, List.replicate_append_replicate]
  congr 3
  omega

/-- A checked body that was expanded and assembled as it is. -/
structure Emission where
  access : UInt16
  type : MethodType
  /-- Whether the check asks for frames. -/
  framed : Bool
  /-- The pool of the class that the body was read from. -/
  pool : Pool
  code : CodeAttribute Attribute
  body : Body
  decoded : Body.Decoded
  tables : Body.Tables
  expansion : Expansion
  /-- The handlers around the body. -/
  guards : List Handler
  output : Body
  /-- The pools before and behind laying out the instructions, behind the body, and at the end. -/
  start : Pool
  grown : Pool
  after : Pool
  last : Pool
  labels : PlacedLabels
  written : List (Nat × Insn)
  offsets : List (Nat × StackMap.Frame)
  raw : CodeAttribute Attribute

namespace Emission

section Definitions

variable (emission : Emission)

/-- Whether the body is that of a static method. -/
def isStatic : Bool :=
  Access.isStatic emission.access

/-- What the depth check is to find along the result, given what it found along the body. -/
def depths (original : Array (Option DepthState)) (extra : List Bool) : Depths where
  expansion := emission.expansion
  written := emission.written
  context := ⟨emission.last, emission.raw.maxStack, emission.type.result⟩
  handlers := emission.raw.handlers
  entry := (DepthState.onEntry emission.type emission.isStatic emission.raw.maxLocals).1
  states :=
    Depths.carry original emission.decoded.insns.length emission.code.maxLocals.toNat extra

@[simp] theorem expansion_depths
    (original : Array (Option DepthState))
    (extra : List Bool) :
    (emission.depths original extra).expansion = emission.expansion :=
  rfl

/-- The body was checked, expanded and assembled, and its constants have their numbers. -/
structure Sound : Prop where
  decodes :
    Body.DecodesTo emission.pool emission.code emission.body emission.decoded emission.tables
  checked :
    Verify.Checked emission.pool emission.isStatic emission.type emission.code emission.framed
      emission.decoded.insns
  expands : emission.body.Expands emission.expansion emission.guards emission.output
  assembled :
    emission.output.Assembled emission.start emission.grown emission.after emission.labels
      emission.written emission.offsets emission.raw
  leads : emission.pool.LeadsTo emission.start
  coherent : emission.start.Coherent
  small : emission.after.size ≤ 2 ^ 16
  kept : Entry.Extends emission.after.entries emission.last.entries

/-- States that were found along the body. -/
structure Finds
    (original : Array (Option DepthState)) : Prop where
  first :
    ∃ held,
      original.getD 0 none = some held ∧
        (DepthState.onEntry emission.type emission.isStatic emission.code.maxLocals).1.Weakens held
  settled :
    ∀ position held,
      original.getD position none = some held →
        DepthProgress.Settled ⟨emission.pool, emission.code.maxStack, emission.type.result⟩
          (.ofInsns emission.decoded.insns) emission.code.handlers original position held

/-- States that were found along the body fit its sizes. -/
def Fits (original : Array (Option DepthState)) : Prop :=
  ∀ position held,
    original.getD position none = some held →
      held.depth ≤ emission.code.maxStack ∧
        held.assigned.length = emission.code.maxLocals.toNat

end Definitions

namespace Sound

variable {emission : Emission} (sound : emission.Sound)
include sound

theorem fits :
    emission.type.argumentSize emission.isStatic ≤ emission.code.maxLocals.toNat :=
  (DepthProgress.fixpoint_of_checkInsns sound.checked.nonempty sound.checked.clean).1

theorem maxLocals_eq : emission.body.maxLocals = emission.code.maxLocals :=
  congrArg Body.maxLocals sound.decodes.shape

theorem maxStack_eq : emission.body.maxStack = emission.code.maxStack :=
  congrArg Body.maxStack sound.decodes.shape

theorem room : emission.code.maxLocals.toNat ≤ emission.raw.maxLocals.toNat := by
  rw [← sound.maxLocals_eq, sound.assembled.maxLocals]
  exact sound.expands.room

theorem laid :
    emission.expansion.Laid (LaidOut.Finds emission.start emission.grown) emission.pool
      emission.code emission.body emission.decoded emission.tables emission.labels.place
      emission.written emission.raw.code.length :=
  sound.expands.laid sound.decodes sound.checked.short sound.assembled.layout

theorem numbers : LaidOut.Numbers emission.start emission.grown emission.last where
  coherent := sound.coherent
  small := Nat.le_trans sound.assembled.leads.kept.size_le sound.small
  kept := sound.assembled.leads.kept.trans sound.kept

theorem grows : Entry.Extends emission.pool.entries emission.last.entries :=
  (sound.leads.trans sound.assembled.laid).kept.trans sound.numbers.kept

theorem written_ne_nil : emission.written ≠ [] := by
  intro none
  obtain ⟨first, rest, nonempty⟩ := List.exists_cons_of_ne_nil sound.checked.nonempty
  have here : emission.decoded.insns[0]? = some first := by rw [nonempty]; rfl
  obtain ⟨item, listed⟩ := sound.laid.exists_item_of_lt (List.getElem?_eq_some_iff.mp here).1
  have spot : emission.expansion.Spot (fun _ => True) _ _ := .kept trivial listed
  obtain ⟨_, _, placed, _⟩ := sound.laid.exists_item spot
  rw [none] at placed
  cases placed

/-- The states that the check of the body ended with were found along it. -/
theorem finds_solved :
    emission.Finds
      (DepthProgress.solved emission.pool emission.isStatic emission.type emission.code
        emission.decoded.insns).states := by
  have fixpoint :=
    (DepthProgress.fixpoint_of_checkInsns sound.checked.nonempty sound.checked.clean).2
  exact ⟨fixpoint.first, fixpoint.settled⟩

/-- Unless an exception is too much for the stack, there are states that fit the sizes. -/
theorem exists_fitting
    (caught : emission.code.handlers ≠ [] → 1 ≤ emission.code.maxStack) :
    ∃ original, emission.Finds original ∧ emission.Fits original := by
  have fixpoint :=
    (DepthProgress.fixpoint_of_checkInsns sound.checked.nonempty sound.checked.clean).2
  have entry := DepthState.onEntry_of_fits sound.fits
  obtain ⟨original, fitting, bounded⟩ :=
    fixpoint.exists_fitting (by rw [entry]; exact UInt16.zero_le) caught
  refine ⟨original, ⟨fitting.first, fitting.settled⟩, fun position held found => ?_⟩
  obtain ⟨depth, count⟩ := bounded position held found
  have fits := sound.fits
  refine ⟨depth, count.trans ?_⟩
  rw [entry, List.length_append, List.length_replicate, List.length_replicate]
  omega

variable {original : Array (Option DepthState)} {extra : List Bool} {state : DepthState}

/-- The first block begins with a state that promises what holds on entry. -/
theorem begins_zero
    (finds : emission.Finds original)
    (weakens :
      state.Weakens
        ((DepthState.onEntry emission.type emission.isStatic
          emission.code.maxLocals).1.widened extra)) :
    (emission.depths original extra).Begins 0 state := by
  obtain ⟨held, found, first⟩ := finds.first
  have inside : 0 < emission.decoded.insns.length :=
    List.length_pos_of_ne_nil sound.checked.nonempty
  obtain ⟨item, listed⟩ := sound.laid.exists_item_of_lt inside
  refine ⟨item, held.widened extra, listed, ?_, weakens.trans (first.widened extra)⟩
  show Depths.carry _ _ _ _ _ = _
  rw [Depths.carry, if_pos inside, found]
  rfl

/-- What was found along the body is carried over to the result. -/
theorem carried
    (finds : emission.Finds original)
    (room :
      emission.raw.maxStack = emission.code.maxStack ∨
        emission.Fits original ∧ emission.code.maxStack ≤ emission.raw.maxStack)
    (guarded : emission.expansion.Guarded emission.guards)
    (sized : emission.guards ≠ [] → emission.Fits original)
    (enters : (emission.depths original extra).Enters)
    (snippets :
      ∀ index item state,
        emission.expansion.items[index]? = some item →
          (emission.depths original extra).states index = some state →
            DepthState.Runs (emission.depths original extra).context state
              ((emission.depths original extra).row (emission.expansion.start index)
                (emission.expansion.ahead item).length) state) :
    (emission.depths original extra).Carried (LaidOut.Finds emission.start emission.grown)
      emission.pool emission.type emission.code emission.body emission.decoded emission.tables
      emission.labels.place emission.raw.code.length original extra emission.guards where
  laid := sound.laid
  settled := finds.settled
  states := rfl
  grown := sound.grows
  result := rfl
  room := room.imp_right fun ⟨fits, larger⟩ =>
    ⟨fun position held found => (fits position held found).1, larger⟩
  rows row member := by
    obtain ⟨handler, among, isOf⟩ := sound.assembled.rows row member
    exact ⟨handler, sound.expands.handlers ▸ among, isOf⟩
  guarded guard member := by
    obtain ⟨_, starts, stops, lands, nonempty⟩ := guarded.guards guard member
    exact ⟨starts, stops, lands, nonempty, fun position held found =>
      (sized (List.ne_nil_of_mem member) position held found).2⟩
  closing item member := (guarded.closing item member).1
  enters
  snippets index item state listed begins := by
    have runs := snippets index item state listed begins
    exact ⟨runs.runsClean, runs.weakens⟩

/-- Nothing is wrong with the result but missing frames if what was found is carried over to it. -/
theorem eq_missingFrame
    {descriptor : String}
    {framed : Bool}
    {report : Option UInt16 × Finding}
    (typed : MethodType.ofDescriptor descriptor = .ok emission.type)
    (carried :
      (emission.depths original extra).Carried (LaidOut.Finds emission.start emission.grown)
        emission.pool emission.type emission.code emission.body emission.decoded emission.tables
        emission.labels.place emission.raw.code.length original extra emission.guards)
    (member :
      report ∈ Verify.checkBody emission.last emission.access descriptor emission.raw framed) :
    report.2 = .missingFrame := by
  obtain ⟨states, fixpoint, _⟩ := carried.balanced.exists_fixpoint sound.laid
  exact
    DepthProgress.eq_missingFrame_of_fixpoint typed sound.assembled.decoded sound.written_ne_nil
      (Nat.le_trans sound.fits sound.room) fixpoint member

end Sound

end Emission

end JvmClass
