import JvmClass.Proofs.Frame.Declared
import JvmClass.Proofs.Weave.Course

namespace JvmClass

/-!
# Declared states of expanded bodies

The frames of a body declare their states in front of the blocks of the instructions
that they were declared for.
-/

open FrameState

/-- Frames of a body declare states at the places of their labels, to be taken over as they are. -/
structure Body.Declares
    (place : Label → Nat)
    (bound : Nat)
    (frames : List PlacedFrame)
    (declared : Std.TreeMap UInt16 FrameState) : Prop where
  fixes :
    ∀ (offset : UInt16) (state : FrameState),
      declared[offset]? = some state →
        Fixes bound state ∧ ∃ frame ∈ frames, UInt16.ofNat (place frame.label) = offset
  found :
    ∀ frame ∈ frames, declared[UInt16.ofNat (place frame.label)]?.isSome = true

namespace Body

theorem declares_empty
    (place : Label → Nat)
    (bound : Nat) :
    Declares place bound [] ∅ :=
  ⟨by simp, nofun⟩

/-- The rows that hints are expanded from. -/
theorem exists_rows_of_hintedStates
    {labels : PlacedLabels}
    {method : MethodContext}
    {hints : FrameHints}
    {pool : Pool}
    {declared : Std.TreeMap UInt16 FrameState}
    (found : hintedStates labels method hints pool = .ok declared) :
    ∃ rows initial,
      List.Forall₂
          (fun frame row =>
            UInt16.ofNat (labels.place frame.label) = row.1 ∧ row.2 = frame.frame)
          hints.frames rows ∧
        FrameState.initial method = .ok initial ∧
        expandFrames pool hints.maxLocals ∅ (SlotType.compact initial.locals) rows =
          .ok declared := by
  obtain ⟨rows, located, found⟩ := bind_eq_ok_iff.mp found
  obtain ⟨initial, initialFound, found⟩ := bind_eq_ok_iff.mp found
  refine ⟨rows, initial, ?_, mapError_eq_ok_iff.mp initialFound, found⟩
  refine (mapM_eq_ok_iff.mp located).imp fun frame row located => ?_
  obtain ⟨offset, placed, same⟩ := bind_eq_ok_iff.mp located
  cases same
  exact ⟨by rw [PlacedLabels.place_of_offset placed, UInt16.ofNat_toNat], rfl⟩

theorem declares_of_hintedStates
    {labels : PlacedLabels}
    {method : MethodContext}
    {hints : FrameHints}
    {pool : Pool}
    {declared : Std.TreeMap UInt16 FrameState}
    (settled : ∀ frame ∈ hints.frames, frame.frame.IsSettled)
    (found : hintedStates labels method hints pool = .ok declared) :
    Declares labels.place hints.maxLocals.toNat hints.frames declared := by
  obtain ⟨rows, initial, paired, initialFound, expanded⟩ := exists_rows_of_hintedStates found
  have settledRows : ∀ row ∈ rows, row.2.IsSettled := by
    intro row listed
    obtain ⟨frame, member, _, same⟩ := exists_of_forall₂ paired listed
    exact same ▸ settled frame member
  refine ⟨fun offset state declaredHere => ?_, fun frame member => ?_⟩
  · rcases cases_of_expandFrames settledRows
        (SlotType.isPlain_compact (isPlain_of_initial initialFound)) expanded declaredHere with
      none | ⟨⟨row, listed, here⟩, fixes⟩
    · simp at none
    · obtain ⟨frame, member, placed, _⟩ := exists_of_forall₂ paired listed
      exact ⟨fixes, frame, member, placed.trans here⟩
  · obtain ⟨row, listed, placed, _⟩ := exists_of_forall₂ paired.flip member
    exact isSome_of_expandFrames expanded (.inr ⟨row, listed, placed.symm⟩)

end Body

namespace Expansion.Lies

variable
  {expansion : Expansion} {resolves : Insn → Insn → Prop} {pool : Pool} {isStatic : Bool}
  {type : MethodType} {code : CodeAttribute Attribute} {body : Body} {decoded : Body.Decoded}
  {tables : Body.Tables} {place : Label → Nat} {written : List (Nat × Insn)} {size : Nat}
  {declared : Std.TreeMap UInt16 FrameState} {position index : Nat} {state : FrameState}
  (lies : expansion.Lies resolves pool isStatic type code body decoded tables place written size)
include lies

/-- A frame was declared for an instruction. -/
theorem exists_stands_of_row
    {row : Nat × StackMap.Frame}
    (member : row ∈ tables.frames) :
    ∃ index insn,
      Node.StandsAt ((Body.labelingOf decoded code.handlers tables).labelAt row.1) body.nodes index ∧
        decoded.insns[index]? = some (row.1, insn) := by
  have reflects := Body.Tables.reflects_of_ofAttributes lies.decodes.tablesRead
  have refers : row.1 ∈ Body.references decoded code.handlers tables := by
    simp only [Body.references, List.mem_append]
    exact .inr (List.mem_map_of_mem member)
  exact lies.decodes.exists_standsAt_inside refers (reflects.frames row member).2.1

theorem frames_eq :
    body.frames =
      tables.frames.map fun row =>
        ⟨(Body.labelingOf decoded code.handlers tables).labelAt row.1, row.2⟩ :=
  congrArg Body.frames lies.decodes.shape

/-- What stands in front of an instruction of the body is placed where its block begins. -/
theorem exists_written_start
    {label : Label}
    (stands : Node.StandsAt label body.nodes index)
    (inside : index < decoded.insns.length) :
    ∃ item, written[expansion.start index]? = some (place label, item) := by
  obtain ⟨item, listed⟩ := lies.exists_item_of_lt inside
  obtain ⟨insn, spot⟩ := @exists_spot_start _ (fun _ => True) _ _ trivial listed
  obtain ⟨offset, resolved, placed, _⟩ := lies.exists_item spot
  have here := lies.layout.place_eq (standsAt_tagged lies.regular (lies.nodes ▸ stands)) placed
  exact ⟨_, here ▸ placed⟩

/-- Types are declared in front of blocks of the body only. -/
theorem fixes_of_declaredAt
    (declares : Body.Declares place code.maxLocals.toNat body.frames declared)
    (found : declaredAt declared written position = some state) :
    Fixes code.maxLocals.toNat state ∧
      ∃ index < decoded.insns.length, position = expansion.start index := by
  obtain ⟨offset, insn, placed, declaredHere⟩ := declaredAt_eq_some_iff.mp found
  obtain ⟨fixes, frame, member, here⟩ := declares.fixes _ _ declaredHere
  refine ⟨fixes, ?_⟩
  rw [lies.frames_eq, List.mem_map] at member
  obtain ⟨row, listed, rfl⟩ := member
  obtain ⟨index, raw, stands, rawPlaced⟩ := lies.exists_stands_of_row listed
  have inside := (List.getElem?_eq_some_iff.mp rawPlaced).1
  obtain ⟨item, start⟩ := lies.exists_written_start stands inside
  refine ⟨index, inside, ?_⟩
  have first := lies.layout.positions_eq placed
  have second := lies.layout.positions_eq start
  simp only at here
  rw [here] at second
  exact Option.some.inj (first.symm.trans second)

/-- Where the body declares a frame, types are declared in front of the block. -/
theorem exists_declaredAt
    {offset : Nat}
    {insn : Insn}
    (declares : Body.Declares place code.maxLocals.toNat body.frames declared)
    (placed : decoded.insns[index]? = some (offset, insn))
    (anchored : UInt16.ofNat offset ∈ Verify.declaredOffsets code) :
    ∃ state, declaredAt declared written (expansion.start index) = some state := by
  obtain ⟨row, listed, same⟩ :=
    (Body.mem_declaredOffsets_iff lies.size_lt lies.decodes.tablesRead).mp anchored
  obtain ⟨other, raw, stands, rawPlaced⟩ := lies.exists_stands_of_row listed
  have first := lies.rawLayout.positions_eq placed
  have second := lies.rawLayout.positions_eq rawPlaced
  rw [same] at second
  obtain rfl := Option.some.inj (first.symm.trans second)
  obtain ⟨item, start⟩ :=
    lies.exists_written_start stands (List.getElem?_eq_some_iff.mp placed).1
  rw [declaredAt_of_placed start]
  refine Option.isSome_iff_exists.mp (declares.found ⟨_, row.2⟩ ?_)
  rw [lies.frames_eq]
  exact List.mem_map_of_mem listed

end Expansion.Lies

end JvmClass
