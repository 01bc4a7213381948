import JvmClass.Proofs.Body.Assembled
import JvmClass.Proofs.Frame.Declared

namespace JvmClass

/-!
# Frames of bodies that move

A frame says of an object that is not initialized yet at which offset the instruction
lies that created it.  A body is written with its instructions in their order, but
a wide form that its operands do without is written shorter, and what lies behind it
moves forward.  Frames move with their labels.  The offsets that they name stay what
they were, so they are right where nothing in front of those instructions moved.
-/

namespace StackMap

/-- The offset that a type names: that of the instruction that created the object. -/
def TypeInfo.origin? : TypeInfo → Option UInt16
  | .uninitialized offset => some offset
  | _ => none

namespace Frame

/-- The offsets that a frame names, in order. -/
def origins (frame : Frame) : List UInt16 :=
  frame.types.filterMap TypeInfo.origin?

/-- Whatever distance a frame is given, it lists the same types. -/
theorem types_withDelta
    (frame : Frame)
    (delta : UInt16) :
    (frame.withDelta delta).types = frame.types := by
  cases frame <;> simp only [withDelta, sameAt, oneStackAt] <;> (try split) <;> rfl

theorem origins_withDelta
    (frame : Frame)
    (delta : UInt16) :
    (frame.withDelta delta).origins = frame.origins := by
  rw [origins, types_withDelta, origins]

end Frame
end StackMap

namespace Insn

/-- The instruction at a position creates an object, and lies at an offset. -/
def CreatesAt
    (insns : List (Nat × Insn))
    (position : Nat)
    (offset : UInt16) : Prop :=
  ∃ index, insns[position]? = some (offset.toNat, .classRef Opcode.newObject index)

/-- Instructions that were read from a code lie in their order, none of them further back. -/
structure Moved
    (code : Bytes)
    (before after : List (Nat × Insn)) : Prop where
  renamed : ∃ rename, after.map Prod.snd = before.map fun row => row.2.mapTargets rename
  forward : List.Forall₂ (fun old new => new.1 ≤ old.1) before after
  /-- What lies behind no needless wide form has not moved. -/
  still :
    ∀ position,
      Tight code (before.take position) →
        (after.map Prod.fst)[position]? = (before.map Prod.fst)[position]?

/-- Instructions that were decoded and lie one behind the other have moved forward. -/
theorem moved_of_packed
    {size : Nat}
    {code : Bytes}
    {before after : List (Nat × Insn)}
    {rename : Label → Label}
    (decodes : Decodes size 0 code before)
    (packed : Packed after)
    (renamed : after.map Prod.snd = before.map fun row => row.2.mapTargets rename) :
    Moved code before after := by
  have length : before.length = after.length := by
    simpa using (congrArg List.length renamed).symm
  have start (position : Nat) (inside : position < after.length) :
      after[position].1 = stopBehind 0 ((before.take position).map Prod.snd) := by
    refine (packed position _ _ (List.getElem?_eq_getElem inside)).trans ?_
    have same :
        (after.take position).map Prod.snd =
          ((before.take position).map Prod.snd).map (mapTargets rename) := by
      rw [List.map_take, renamed, ← List.map_take, List.map_map]
      rfl
    rw [same, stopBehind_map_mapTargets]
  refine ⟨⟨rename, renamed⟩, ?_, fun position tight => ?_⟩
  · refine List.forall₂_iff_get.mpr ⟨length, fun position inside insideAfter => ?_⟩
    rw [List.get_eq_getElem, List.get_eq_getElem, start position insideAfter]
    exact stopBehind_take_le (Nat.le_refl 0) decodes (List.getElem?_eq_getElem inside)
  · rcases Nat.lt_or_ge position before.length with inside | beyond
    · have insideAfter := length ▸ inside
      have still :=
        @stopBehind_take_eq size position _ code [] before _ decodes tight
          (List.getElem?_eq_getElem inside)
      rw [List.getElem?_map, List.getElem?_map, List.getElem?_eq_getElem insideAfter,
        List.getElem?_eq_getElem inside, Option.map_some, Option.map_some,
        start position insideAfter]
      exact congrArg some still
    · rw [List.getElem?_eq_none (by simpa using length ▸ beyond),
        List.getElem?_eq_none (by simpa using beyond)]

/-- The instruction that creates an object is found at its position. -/
theorem Moved.exists_createsAt
    {code : Bytes}
    {before after : List (Nat × Insn)}
    {position : Nat}
    {offset : UInt16}
    (moved : Moved code before after)
    (creates : CreatesAt before position offset) :
    ∃ place ≤ offset,
      CreatesAt after position place ∧ (Tight code (before.take position) → place = offset) := by
  obtain ⟨index, listed⟩ := creates
  obtain ⟨inside, here⟩ := List.getElem?_eq_some_iff.mp listed
  have insideAfter : position < after.length := moved.forward.length_eq ▸ inside
  have forward : after[position].1 ≤ before[position].1 := moved.forward.get inside insideAfter
  have same : after[position].2 = .classRef Opcode.newObject index := by
    obtain ⟨rename, renamed⟩ := moved.renamed
    have both := congrArg (·[position]?) renamed
    simp only [List.getElem?_map, listed, List.getElem?_eq_getElem insideAfter, Option.map_some,
      Option.some.injEq] at both
    exact both
  rw [here] at forward
  have number : (UInt16.ofNat after[position].1).toNat = after[position].1 :=
    UInt16.toNat_ofNat_of_lt' (Nat.lt_of_le_of_lt forward offset.toNat_lt)
  refine ⟨UInt16.ofNat after[position].1, ?_, ⟨index, ?_⟩, fun tight => ?_⟩
  · rw [UInt16.le_iff_toNat_le, number]
    exact forward
  · rw [List.getElem?_eq_getElem insideAfter, number, ← same]
  · have still := moved.still position tight
    simp only [List.getElem?_map, List.getElem?_eq_getElem inside,
      List.getElem?_eq_getElem insideAfter, Option.map_some, Option.some.injEq, here] at still
    rw [still, UInt16.ofNat_toNat]

end Insn

namespace CodeAttribute

/--
Frames of a body that was written name the instructions at the positions of those that
they named when it was read, type by type.
-/
def Follows
    (raw again : CodeAttribute Attribute)
    (before after : List (Nat × Insn)) : Prop :=
  List.Forall₂
    (List.Forall₂ fun old new =>
      ∀ position, Insn.CreatesAt before position old → Insn.CreatesAt after position new)
    (raw.allFrames.map StackMap.Frame.origins) (again.allFrames.map StackMap.Frame.origins)

/-- An offset is named by a frame, and it is that of an instruction that creates an object. -/
def Names
    (raw : CodeAttribute Attribute)
    (before : List (Nat × Insn))
    (position : Nat)
    (origin : UInt16) : Prop :=
  (∃ frame ∈ raw.allFrames, origin ∈ frame.origins) ∧ Insn.CreatesAt before position origin

/-- A body that was written from what was read of another one. -/
structure Rewritten
    (raw again : CodeAttribute Attribute)
    (before after : List (Nat × Insn)) : Prop where
  read : Insn.decode raw.code = .ok before
  written : Insn.decode again.code = .ok after
  moved : Insn.Moved raw.code before after
  origins : again.allFrames.map StackMap.Frame.origins = raw.allFrames.map StackMap.Frame.origins

namespace Rewritten

variable
  {raw again : CodeAttribute Attribute} {before after : List (Nat × Insn)}
  (rewritten : raw.Rewritten again before after)
include rewritten

/-- The frames are right exactly if no instruction that they name has moved. -/
theorem follows_iff :
    raw.Follows again before after ↔
      ∀ position origin, raw.Names before position origin → Insn.CreatesAt after position origin := by
  rw [Follows, rewritten.origins, List.forall₂_same]
  simp only [List.forall₂_same, List.forall_mem_map, Names]
  constructor
  · rintro follows position origin ⟨⟨frame, listed, named⟩, creates⟩
    exact follows frame listed origin named position creates
  · intro kept frame listed origin named position creates
    exact kept position origin ⟨⟨frame, listed, named⟩, creates⟩

/-- The frames are right if no wide form in front of what they name is needless. -/
theorem follows_of_tight
    (tight :
      ∀ position origin,
        raw.Names before position origin → Insn.Tight raw.code (before.take position)) :
    raw.Follows again before after := by
  refine rewritten.follows_iff.mpr fun position origin names => ?_
  obtain ⟨place, _, creates, still⟩ := rewritten.moved.exists_createsAt names.2
  exact still (tight position origin names) ▸ creates

end Rewritten
end CodeAttribute

namespace Body

/-- Frames name the same offsets wherever they are placed. -/
theorem FrameRows.origins_eq
    {labels : PlacedLabels}
    {base : Nat}
    {placed : List PlacedFrame}
    {frames : List StackMap.Frame}
    {offsets : List (Nat × StackMap.Frame)}
    (rows : FrameRows labels base placed frames offsets) :
    frames.map StackMap.Frame.origins = placed.map (·.frame.origins) := by
  induction rows with
  | nil base => rfl
  | cons moved _ _ inductionHypothesis =>
      rw [List.map_cons, List.map_cons, inductionHypothesis, moved,
        StackMap.Frame.origins_withDelta]

variable
  {pool start grown after : Pool} {body : Body} {raw again : CodeAttribute Attribute}
  {decoded : Decoded} {tables : Tables} {labels : PlacedLabels} {written : List (Nat × Insn)}
  {offsets : List (Nat × StackMap.Frame)}

/-- The table of an assembled body holds its frames. -/
theorem Assembled.allFrames_eq
    (assembled : body.Assembled start grown after labels written offsets again)
    (noTables : ∀ item ∈ body.attributes, item.isTable = false) :
    again.allFrames = offsets.map Prod.snd := by
  obtain ⟨lines, locals, _, _, attributes⟩ := assembled.attributes
  have others : body.attributes.flatMap Attribute.frames = [] := by
    refine List.flatMap_eq_nil_iff.mpr fun item member => ?_
    have noTable := noTables item member
    cases item with
    | stackMapTable frames => cases noTable
    | _ => rfl
  rw [CodeAttribute.allFrames, attributes, List.flatMap_append, others, List.append_nil,
    List.flatMap_append, List.flatMap_append]
  cases lines <;> cases locals <;> cases offsets <;>
    simp [tableAttribute, Attribute.frames]

/-- A body that was read is written with its instructions moved and its frames as they were. -/
theorem DecodesTo.rewritten
    (decodes : DecodesTo pool raw body decoded tables)
    (assembled : body.Assembled start grown after labels written offsets again)
    (noTables : ∀ item ∈ body.attributes, item.isTable = false) :
    raw.Rewritten again decoded.insns written := by
  have decodedFrom := Decoded.decodedFrom_of_ofCode decodes.code
  have nodes :
      Node.insns body.nodes =
        decoded.insns.map fun row =>
          row.2.mapTargets (labelingOf decoded raw.handlers tables).labelAt := by
    rw [decodes.nodes_eq, Node.insns_ofSteps, readSteps, stepsOf, List.map_map]
    rfl
  have listed := assembled.layout.listed
  rw [nodes, List.forall₂_map_left_iff] at listed
  have indexed (row : Nat × Insn) (member : row ∈ decoded.insns) (rename : Label → Label) :
      (row.2.mapTargets rename).Indexed :=
    Insn.indexed_mapTargets (decodedFrom.decodes.indexed row member)
  -- What names nothing is emitted as it is.
  have renamed :
      written.map Prod.snd =
        decoded.insns.map fun row =>
          row.2.mapTargets
            (labels.place ∘ (labelingOf decoded raw.handlers tables).labelAt) := by
    refine List.ext_getElem (by simp [listed.length_eq]) fun position inside insideBefore => ?_
    simp only [List.length_map] at inside insideBefore
    obtain ⟨resolved, finds, same⟩ := listed.get insideBefore inside
    rw [finds.1.eq_of_indexed (indexed _ (List.getElem_mem _) _), Insn.mapTargets_mapTargets] at same
    simpa using same
  refine {
    read := Decoded.decode_of_ofCode decodes.code
    written := assembled.decoded
    moved := Insn.moved_of_packed decodedFrom.decodes assembled.packed renamed
    origins := ?_ }
  have frames : raw.allFrames.map StackMap.Frame.origins = body.frames.map (·.frame.origins) := by
    rw [← Tables.frames_eq_of_ofAttributes decodes.tablesRead, decodes.frames_eq, List.map_map,
      List.map_map]
    rfl
  rw [assembled.allFrames_eq noTables, assembled.frames.origins_eq, frames]

end Body
end JvmClass
