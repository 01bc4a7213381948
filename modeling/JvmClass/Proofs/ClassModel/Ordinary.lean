import JvmClass.Proofs.ClassModel.Accepted

namespace JvmClass

/-!
# Ordinary classes are written

A body of fewer than 2^15 bytes has every label within reach of every branch, and
the frames of one table stay in order wherever the body is laid out.  A class is
written if this can be said of each of its bodies.
-/

/-- The attribute is a table of frames. -/
def Attribute.isFrameTable : Attribute → Bool
  | .stackMapTable _ => true
  | _ => false

/-- The body is short enough for every branch and has one table of frames at most. -/
structure CodeAttribute.Ordinary (raw : CodeAttribute Attribute) : Prop where
  short : raw.code.length < 2 ^ 15
  oneTable : raw.attributes.countP Attribute.isFrameTable ≤ 1

/-! ## Short bodies -/

namespace Node

variable {offset : Nat}

/-- Nodes are laid out no further back than where their instructions end. -/
theorem le_of_mem_layOut
    {start : Nat}
    {nodes : List Node}
    {node : Node}
    (member : (offset, node) ∈ layOut start nodes) :
    offset ≤ Insn.stopBehind start (insns nodes) := by
  induction nodes generalizing start with
  | nil => cases member
  | cons first nodes inductionHypothesis =>
      cases first with
      | insn item =>
          rcases List.mem_cons.mp member with here | later
          · cases here
            exact LaidOut.le_stopBehind _ (item :: insns nodes)
          · exact inductionHypothesis later
      | label _ | line _ _ =>
          rcases List.mem_cons.mp member with here | later
          · cases here
            exact LaidOut.le_stopBehind _ (insns nodes)
          · exact inductionHypothesis later

theorem mem_of_mem_placedLabels
    {placed : List (Nat × Node)}
    {label : Label}
    (member : (offset, label) ∈ placedLabels placed) :
    (offset, .label label) ∈ placed := by
  obtain ⟨⟨place, node⟩, listed, found⟩ := List.mem_filterMap.mp member
  cases node <;> cases found
  exact listed

theorem mem_of_mem_placedInsns
    {placed : List (Nat × Node)}
    {insn : Insn}
    (member : (offset, insn) ∈ placedInsns placed) :
    (offset, .insn insn) ∈ placed := by
  obtain ⟨⟨place, node⟩, listed, found⟩ := List.mem_filterMap.mp member
  cases node <;> cases found
  exact listed

end Node

namespace Body

variable {body : Body} {error : WriteError}

/-- In a short body every branch reaches its target. -/
theorem not_outOfReach_of_short
    (short : Insn.stopBehind 0 (Node.insns body.nodes) < 2 ^ 15) :
    ¬ body.OutOfReach error := by
  rintro ⟨origin, target, label, branch, stands, beyond, _⟩
  have originInside : origin ≤ Insn.stopBehind 0 (Node.insns body.nodes) := by
    obtain ⟨⟨place, insn⟩, listed, branches⟩ := List.mem_filterMap.mp branch
    obtain ⟨_, _, same⟩ := Option.map_eq_some_iff.mp branches
    cases same
    exact Node.le_of_mem_layOut (Node.mem_of_mem_placedInsns listed)
  have targetInside : target ≤ Insn.stopBehind 0 (Node.insns body.nodes) := by
    obtain ⟨⟨place, other⟩, found, rfl⟩ := Option.map_eq_some_iff.mp stands
    exact Node.le_of_mem_layOut
      (Node.mem_of_mem_placedLabels (List.mem_of_find?_eq_some found))
  omega

/-! ## Frames in order -/

/-- Frames whose labels ascend stay in order when a regular body is laid out. -/
theorem Regular.not_outOfOrder
    {pool : Pool}
    {steps : List (Spot × Insn)}
    {last : Option Label}
    (regular : body.Regular pool steps last)
    (short : Insn.stopBehind 0 (Node.insns body.nodes) ≤ maxCodeLength)
    (ascending : (body.frames.map PlacedFrame.label).Pairwise (· < ·)) :
    ¬ body.OutOfOrder error := by
  obtain ⟨laidOut, laid⟩ :
      ∃ laidOut, LaidOut.ofNodes body.nodes pool = .ok (laidOut, pool) :=
    LaidOut.exists_ofNodes regular.indexed_insns short
  obtain ⟨placed, stop, lays, inside, labels, _⟩ := LaidOut.exists_lays laid
  obtain ⟨rows, relaid, _⟩ := regular.relaid_of_lays lays inside
  have ordered : body.frameOffsets.Pairwise (· < ·) := by
    rw [regular.frameOffsets_eq laid, labels, List.pairwise_map]
    refine (List.pairwise_map.mp ascending).imp_of_mem fun {first second} here there below => ?_
    exact (relaid.place_lt_iff
      (regular.mem_marked_of_mem_referred relaid (mem_referred_frames here))
      (regular.mem_marked_of_mem_referred relaid (mem_referred_frames there))).mpr below
  rintro ⟨earlier, later, among, notBehind, _⟩
  have behind := List.pairwise_iff_forall_sublist.mp ordered among.sublist
  exact Nat.not_lt.mpr notBehind behind

namespace Decoded

/-- The frames of one table lie one behind the other. -/
theorem FramesAt.ascending
    {decoded : Decoded}
    {base : Nat}
    {frames : List StackMap.Frame}
    {placed : List (Nat × StackMap.Frame)}
    (framesAt : FramesAt decoded base frames placed) :
    (placed.map Prod.fst).Pairwise (· < ·) ∧ ∀ item ∈ placed, base ≤ item.1 := by
  induction framesAt with
  | nil base => simp
  | @cons base frame frames placed _ _ _ inductionHypothesis =>
      obtain ⟨ascending, behind⟩ := inductionHypothesis
      constructor
      · rw [List.map_cons, List.pairwise_cons]
        refine ⟨?_, ascending⟩
        intro offset member
        obtain ⟨item, listed, rfl⟩ := List.mem_map.mp member
        exact behind item listed
      · intro item member
        rcases List.mem_cons.mp member with rfl | member
        · exact Nat.le_add_right _ _
        · have := behind item member
          omega

end Decoded

namespace Tables

/-- The frames are those of the first table of frames, reversed, until there is a second. -/
structure OneTable
    (done : List Attribute)
    (tables : Tables) : Prop where
  none : done.countP Attribute.isFrameTable = 0 → tables.frames = []
  ascending :
    done.countP Attribute.isFrameTable ≤ 1 →
      (tables.frames.reverse.map Prod.fst).Pairwise (· < ·)

theorem OneTable.add
    {decoded : Decoded}
    {done : List Attribute}
    {tables after : Tables}
    {item : Attribute}
    (oneTable : OneTable done tables)
    (added : tables.add decoded item = .ok after) :
    OneTable (done ++ [item]) after := by
  have unchanged
      (other : item.isFrameTable = false)
      (same : after.frames = tables.frames) :
      OneTable (done ++ [item]) after := by
    constructor <;> rw [List.countP_append, List.countP_singleton, other, same]
    · exact oneTable.none
    · exact oneTable.ascending
  cases add_eq_ok_iff.mp added with
  | frames located =>
      constructor <;> intro count <;> rw [List.countP_append] at count
      · simp [Attribute.isFrameTable] at count
      · have first := oneTable.none (by simpa [Attribute.isFrameTable] using count)
        simpa [first] using located.ascending.1
  | lines | locals => exact unchanged rfl rfl
  | other noTable =>
      refine unchanged ?_ rfl
      cases item with
      | stackMapTable => cases noTable
      | _ => rfl

/-- Attributes with one table of frames at most give frames at ascending offsets. -/
theorem ascending_frames
    {decoded : Decoded}
    {attributes : List Attribute}
    {tables : Tables}
    (read : ofAttributes decoded attributes = .ok tables)
    (oneTable : attributes.countP Attribute.isFrameTable ≤ 1) :
    (tables.frames.map Prod.fst).Pairwise (· < ·) := by
  obtain ⟨folded, added, same⟩ := bind_eq_ok_iff.mp read
  cases same
  have kept : OneTable attributes folded :=
    foldlM_keeps_row OneTable added (fun _ _ _ _ step kept => kept.add step)
      ⟨fun _ => rfl, fun _ => .nil⟩
  exact kept.ascending oneTable

end Tables

/-! ## Ordinary bodies -/

namespace DecodesTo

variable
  {pool : Pool} {raw : CodeAttribute Attribute} {body : Body} {decoded : Decoded}
  {tables : Tables}

/-- Frames of one table get ascending labels. -/
theorem ascending_labels
    (decodes : DecodesTo pool raw body decoded tables)
    (oneTable : raw.attributes.countP Attribute.isFrameTable ≤ 1) :
    (body.frames.map PlacedFrame.label).Pairwise (· < ·) := by
  have decodedFrom := Decoded.decodedFrom_of_ofCode decodes.code
  have ascending := Tables.ascending_frames decodes.tablesRead oneTable
  have referred {offset : Nat} (member : offset ∈ tables.frames.map Prod.fst) :
      offset ∈ references decoded raw.handlers tables := by
    obtain ⟨placed, listed, rfl⟩ := List.mem_map.mp member
    exact mem_frames listed
  rw [decodes.frameLabels_eq, List.pairwise_map]
  refine ascending.imp_of_mem fun {first second} here there below => ?_
  rw [labelingOf, labelAt_lt_iff decodedFrom decodes.boundaries (referred here) (referred there)]
  exact below

/-- An ordinary body is refused for nothing. -/
theorem not_refuses
    {steps : List (Spot × Insn)}
    {last : Option Label}
    {error : WriteError}
    (decodes : DecodesTo pool raw body decoded tables)
    (regular : body.Regular pool steps last)
    (ordinary : raw.Ordinary) :
    ¬ body.Refuses error := by
  have short : Insn.stopBehind 0 (Node.insns body.nodes) < 2 ^ 15 :=
    Nat.lt_of_le_of_lt decodes.stopBehind_le ordinary.short
  have allowed : Insn.stopBehind 0 (Node.insns body.nodes) ≤ maxCodeLength := by
    rw [maxCodeLength]
    omega
  rintro (beyond | unordered)
  · exact not_outOfReach_of_short short beyond
  · exact regular.not_outOfOrder allowed (decodes.ascending_labels ordinary.oneTable) unordered

end DecodesTo

end Body

/-! ## Ordinary classes -/

/-- A class that was read and whose bodies are ordinary is written. -/
theorem ClassModel.exists_write_of_ordinary
    {bytes : Bytes}
    {file : ClassFile}
    {model : ClassModel}
    (parsed : ClassFile.ofBytes bytes = .ok file)
    (found : ClassModel.read bytes = .ok model)
    (ordinary :
      ∀ info ∈ file.methods, ∀ raw, .code raw ∈ info.attributes → raw.Ordinary) :
    ∃ written, model.write ⟨false, false⟩ = .ok written := by
  refine (decided_write found).exists_ok_iff.mpr ?_
  rintro error ⟨method, member, body, held, refused⟩
  obtain ⟨_, other, reads, resolves⟩ := read_eq_ok_iff.mp found
  obtain rfl : other = file := by
    rw [ClassFile.ofBytes_eq_ok_iff.mpr reads] at parsed
    exact Except.ok.inj parsed
  obtain ⟨info, among, resolved⟩ := exists_of_forall₂ resolves.methods member
  obtain ⟨raw, _, _, listed, decodes⟩ := Method.exists_decodesTo_of_ofInfo resolved held
  obtain ⟨_, _, _, regular⟩ := ((regular_of_read found).methods method member).body body held
  rw [resolves.pool] at regular
  exact decodes.not_refuses regular (ordinary info among raw listed) refused

end JvmClass
