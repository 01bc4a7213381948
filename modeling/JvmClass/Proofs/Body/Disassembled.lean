import JvmClass.Proofs.Body.Linked
import JvmClass.Proofs.ClassModel.Growing

namespace JvmClass

/-!
# Decoding undoes assembling

The bytes of a body are decoded as the instructions that were assembled, at the
offsets where they were laid out.  Labels have become the offsets where they were
placed, names numbers of the pool that stand for them, and a short load with a
number that does not fit has become a long one.
-/

open Reader

namespace Insn

/-- The opcode is one for operands of this form, and the operands fit their fields. -/
def Fits : Insn → Prop
  | .plain code => code.layout? = some .plain
  | .immediate code operand =>
      code.layout? = some .signedByte ∧ -128 ≤ operand ∧ operand ≤ 127 ∨
        code.layout? = some .signedShort ∧ -32768 ≤ operand ∧ operand ≤ 32767 ∨
          code.layout? = some .arrayType ∧ 0 ≤ operand ∧ operand ≤ 255
  | .slot code _ => code.layout? = some .localVariable
  | .classRef code _ => code.layout? = some .classRef
  | .field code _ => code.layout? = some .fieldRef
  | .method code _ => code.layout? = some .methodRef
  | .interfaceMethod code _ _ => code.layout? = some .interfaceMethodRef
  | .callSite code _ => code.layout? = some .callSite
  | .jump code _ => code.layout? = some .branch ∨ code.layout? = some .wideBranch
  | .load code _ => code.layout? = some .shortConstant ∨ code.layout? = some .longConstant
  | .increment code _ _ => code.layout? = some .increment
  | .tableSwitch code _ low high targets =>
      code.layout? = some .tableSwitch ∧ low ≤ high ∧
        (targets.length : Int) = high.toInt - low.toInt + 1
  | .lookupSwitch code _ _ => code.layout? = some .lookupSwitch
  | .multiArray code _ _ => code.layout? = some .multiArray

/-- The opcode of a load with a number: the short one becomes the long one above 255. -/
def widened (code : Opcode) (index : UInt16) : Opcode :=
  if code = Opcode.ldc ∧ 255 < index then Opcode.ldcW else code

/--
What an instruction is emitted as: itself, but with a number that stands for what it
names, and a load with the opcode that the number asks for.
-/
inductive Emitted (entries : Array Entry) : Insn → Insn → Prop
  | field
      {code : Opcode}
      {names : Member}
      {index : UInt16}
      (stands : (Constant.member .field names).StandsAt entries index) :
      Emitted entries (.field code (.named names.owner names.name names.descriptor))
        (.field code (.index index))
  | method
      {code : Opcode}
      {names : Member}
      {index : UInt16}
      (stands : (Constant.member .method names).StandsAt entries index) :
      Emitted entries (.method code (.named names.owner names.name names.descriptor))
        (.method code (.index index))
  | text
      {code : Opcode}
      {value : String}
      {index : UInt16}
      (stands : (Constant.string value).StandsAt entries index) :
      Emitted entries (.load code (.text value)) (.load (widened code index) (.index index))
  | load
      {code : Opcode}
      {index : UInt16} :
      Emitted entries (.load code (.index index)) (.load (widened code index) (.index index))
  | same
      {insn : Insn}
      (isIndexed : insn.Indexed)
      (isOther : ∀ code value, insn ≠ .load code value) :
      Emitted entries insn insn

/-! ## Operands that fit -/

theorem toInt32_toInt8_of_fits
    {operand : Int32}
    (above : -128 ≤ operand)
    (below : operand ≤ 127) :
    operand.toInt8.toInt32 = operand := by
  rw [Int32.le_iff_toInt_le, show (-128 : Int32).toInt = -128 from rfl] at above
  rw [Int32.le_iff_toInt_le, show (127 : Int32).toInt = 127 from rfl] at below
  rw [← Int32.toInt_inj, Int8.toInt_toInt32, Int32.toInt_toInt8]
  exact Int.bmod_eq_of_le (by omega) (by omega)

theorem toInt32_toInt16_of_fits
    {operand : Int32}
    (above : -32768 ≤ operand)
    (below : operand ≤ 32767) :
    operand.toInt16.toInt32 = operand := by
  rw [Int32.le_iff_toInt_le, show (-32768 : Int32).toInt = -32768 from rfl] at above
  rw [Int32.le_iff_toInt_le, show (32767 : Int32).toInt = 32767 from rfl] at below
  rw [← Int32.toInt_inj, Int16.toInt_toInt32, Int32.toInt_toInt16]
  exact Int.bmod_eq_of_le (by omega) (by omega)

/-- A number of a kind of array is that of a byte. -/
theorem exists_byte_of_fits
    {operand : Int32}
    (above : 0 ≤ operand)
    (below : operand ≤ 255) :
    ∃ value : UInt8, operand = value.toUInt32.toInt32 := by
  rw [Int32.le_iff_toInt_le, show (0 : Int32).toInt = 0 from rfl] at above
  rw [Int32.le_iff_toInt_le, show (255 : Int32).toInt = 255 from rfl] at below
  refine ⟨UInt8.ofNat operand.toInt.toNat, ?_⟩
  have value : (UInt8.ofNat operand.toInt.toNat).toUInt32.toNat = operand.toInt.toNat := by
    rw [UInt8.toNat_toUInt32, UInt8.toNat_ofNat_of_lt' (by show _ < 2 ^ 8; omega)]
  rw [← Int32.toInt_inj]
  show _ = (UInt8.ofNat operand.toInt.toNat).toUInt32.toBitVec.toInt
  rw [BitVec.toInt_eq_toNat_of_lt (by rw [UInt32.toNat_toBitVec, value]; omega),
    UInt32.toNat_toBitVec, value]
  omega

theorem loadOpcode_eq_widened
    {code : Opcode}
    (layout : code.layout? = some .shortConstant ∨ code.layout? = some .longConstant)
    (index : UInt16) :
    loadOpcode code index = widened code index := by
  rcases layout with layout | layout
  · obtain rfl : code = Opcode.ldc := Opcode.admits_of_layout layout
    by_cases small : index ≤ 255
    · rw [loadOpcode, if_neg (by decide), if_pos small, widened,
        if_neg fun wide => absurd wide.2 (UInt16.not_lt.mpr small)]
    · rw [loadOpcode, if_neg (by decide), if_neg small, widened,
        if_pos ⟨rfl, UInt16.not_le.mp small⟩]
  · have different : code ≠ Opcode.ldc := by
      rintro rfl
      exact absurd layout (by decide)
    rw [loadOpcode, if_pos (Or.symm (Opcode.admits_of_layout layout)), widened, if_neg fun wide => different wide.1]

theorem wellFormed_widened
    {code : Opcode}
    (layout : code.layout? = some .shortConstant ∨ code.layout? = some .longConstant)
    (index : UInt16) :
    (Insn.load (widened code index) (.index index)).WellFormed := by
  rcases layout with layout | layout
  · obtain rfl : code = Opcode.ldc := Opcode.admits_of_layout layout
    by_cases small : index ≤ 255
    · rw [widened, if_neg fun wide => absurd wide.2 (UInt16.not_lt.mpr small)]
      exact .inl ⟨rfl, small⟩
    · rw [widened, if_pos ⟨rfl, UInt16.not_le.mp small⟩]
      exact .inr rfl
  · have different : code ≠ Opcode.ldc := by
      rintro rfl
      exact absurd layout (by decide)
    rw [widened, if_neg fun wide => different wide.1]
    exact .inr layout

section Emitted

variable {entries : Array Entry} {insn emitted resolved : Insn}

theorem Emitted.extend
    {longer : Array Entry}
    (kept : Entry.Extends entries longer)
    (emits : insn.Emitted entries emitted) :
    insn.Emitted longer emitted := by
  cases emits with
  | field stands => exact .field (stands.extend kept)
  | method stands => exact .method (stands.extend kept)
  | text stands => exact .text (stands.extend kept)
  | load => exact .load
  | same isIndexed isOther => exact .same isIndexed isOther

theorem Emitted.isIndexed (emits : insn.Emitted entries emitted) : emitted.Indexed := by
  cases emits with
  | same isIndexed _ => exact isIndexed
  | _ => trivial

theorem Emitted.targets_eq (emits : insn.Emitted entries emitted) :
    emitted.targets = insn.targets := by
  cases emits <;> rfl

/-- Every pair of a switch takes some bytes. -/
theorem length_le_widths_lookupSwitch
    (code : Opcode)
    (default : Label)
    (pairs : List (Int32 × Label))
    (place : Nat) :
    pairs.length ≤ Cell.widths ((Insn.lookupSwitch code default pairs).cells place) := by
  have rows :
      pairs.length ≤
        Cell.widths (pairs.flatMap fun pair =>
          Cell.ofBytes (Bytes.ofUInt32 pair.1.toUInt32) ++ [.far place pair.2]) := by
    induction pairs with
    | nil => exact Nat.zero_le _
    | cons pair pairs inductionHypothesis =>
        rw [Cell.widths_eq_sum] at inductionHypothesis ⊢
        simp only [List.flatMap_cons, List.map_append, List.sum_append, List.map_cons, List.map_nil,
          List.sum_cons, Cell.width, List.length_cons]
        omega
  rw [Cell.widths_eq_sum] at rows ⊢
  simp only [cells, encode, pure_apply, List.map_append, List.sum_append]
  omega

/-- What is emitted for an instruction that fits, and is no larger than a body, is well formed. -/
theorem Emitted.wellFormed
    {place : Nat}
    (emits : insn.Emitted entries emitted)
    (fits : insn.Fits)
    (short : Cell.widths (emitted.cells place) ≤ maxCodeLength) :
    emitted.WellFormed := by
  cases emits with
  | field _ | method _ => exact fits
  | text _ | load => exact wellFormed_widened fits _
  | same isIndexed isOther =>
      cases insn with
      | immediate code operand =>
          rcases fits with ⟨layout, above, below⟩ | ⟨layout, above, below⟩ | ⟨layout, above, below⟩
          · exact .inl ⟨layout, toInt32_toInt8_of_fits above below⟩
          · exact .inr (.inl ⟨layout, toInt32_toInt16_of_fits above below⟩)
          · obtain ⟨value, rfl⟩ := exists_byte_of_fits above below
            exact .inr (.inr ⟨layout, arrayType_operand value⟩)
      | slot code index => simpa [WellFormed, takesSlot, Fits] using fits
      | load code value => exact absurd rfl (isOther code value)
      | lookupSwitch code default pairs =>
          have few := length_le_widths_lookupSwitch code default pairs place
          rw [maxCodeLength] at short
          exact ⟨fits, by omega⟩
      | _ => exact fits

/-- An instruction that was given its numbers has the cells of what it is emitted as. -/
theorem Resolves.exists_emitted
    (resolves : insn.Resolves entries resolved)
    (fits : insn.Fits) :
    ∃ emitted, insn.Emitted entries emitted ∧ ∀ offset, emitted.cells offset = resolved.cells offset := by
  cases resolves with
  | field stands => exact ⟨_, .field stands, fun _ => rfl⟩
  | method stands => exact ⟨_, .method stands, fun _ => rfl⟩
  | @text code value index stands =>
      refine ⟨_, .text stands, fun _ => ?_⟩
      rw [loadOpcode_eq_widened fits]
  | indexed isIndexed =>
      cases insn with
      | load code value =>
          cases value with
          | text value => exact isIndexed.elim
          | index index =>
              refine ⟨_, .load, fun offset => ?_⟩
              show encodeLoad (widened code index) index = encodeLoad code index
              rw [← loadOpcode_eq_widened fits, encodeLoad, encodeLoad, loadOpcode_loadOpcode]
      | _ => exact ⟨_, .same isIndexed (by simp), fun _ => rfl⟩

/-! ## Labels that were asked for -/

/-- For each target of an instruction stands a distance to it. -/
theorem exists_distance_of_target
    {target : Label}
    (targeted : target ∈ insn.targets)
    (offset : Nat) :
    .near offset target ∈ insn.cells offset ∨ .far offset target ∈ insn.cells offset := by
  cases insn with
  | jump code other =>
      obtain rfl := List.mem_singleton.mp targeted
      simp only [cells, encode, pure_apply]
      split
      · exact .inr (by simp)
      · exact .inl (by simp)
  | tableSwitch code default low high others =>
      right
      simp only [cells, encode, pure_apply]
      rcases List.mem_cons.mp targeted with rfl | among
      · simp
      · simp [among]
  | lookupSwitch code default pairs =>
      right
      simp only [cells, encode, pure_apply]
      rcases List.mem_cons.mp targeted with rfl | among
      · simp
      · obtain ⟨pair, listed, rfl⟩ := List.mem_map.mp among
        refine List.mem_append_right _ (List.mem_flatMap.mpr ⟨pair, listed, ?_⟩)
        simp
  | _ => cases targeted

end Emitted

end Insn

/-- Of linked cells each was linked. -/
theorem Cell.exists_of_links
    {labels : PlacedLabels}
    {cells : List Cell}
    {bytes : Bytes}
    {cell : Cell}
    (linked : Links labels cells bytes)
    (listed : cell ∈ cells) :
    ∃ piece, cell.link labels = .ok piece := by
  induction cells generalizing bytes with
  | nil => cases listed
  | cons first cells inductionHypothesis =>
      obtain ⟨piece, others, rfl, firstLinked, othersLinked⟩ := links_cons_iff.mp linked
      rcases List.mem_cons.mp listed with rfl | among
      · exact ⟨piece, firstLinked⟩
      · exact inductionHypothesis othersLinked among

/-- A distance is filled in only to a label that was placed. -/
theorem Cell.mem_of_links
    {labels : PlacedLabels}
    {cells : List Cell}
    {bytes : Bytes}
    {origin : Nat}
    {target : Label}
    (linked : Links labels cells bytes)
    (listed : .near origin target ∈ cells ∨ .far origin target ∈ cells) :
    ∃ offset, labels[target]? = some offset := by
  obtain ⟨offset, found⟩ : ∃ offset, labels.offset target = .ok offset := by
    rcases listed with near | far
    · obtain ⟨piece, linkedNear⟩ := exists_of_links linked near
      obtain ⟨offset, found, _⟩ := bind_eq_ok_iff.mp linkedNear
      exact ⟨offset, found⟩
    · obtain ⟨piece, linkedFar⟩ := exists_of_links linked far
      obtain ⟨offset, found, _⟩ := bind_eq_ok_iff.mp linkedFar
      exact ⟨offset, found⟩
  unfold PlacedLabels.offset at found
  split at found
  · rename_i held placed
    exact ⟨held, placed⟩
  · cases found

namespace Lays

variable
  {resolves others : Insn → Insn → Prop} {offset stop : Nat} {nodes : List Node}
  {placed : List (Nat × Node)} {cells : List Cell}

/-- Instructions of the same cells lie where the others do. -/
theorem exists_of_cells
    (lays : Lays resolves offset nodes placed cells stop)
    (sameCells :
      ∀ insn ∈ Node.insns nodes, ∀ resolved,
        resolves insn resolved →
          ∃ other, others insn other ∧ ∀ place, other.cells place = resolved.cells place) :
    ∃ otherPlaced,
      Lays others offset nodes otherPlaced cells stop ∧
        Node.placedLabels otherPlaced = Node.placedLabels placed := by
  induction lays with
  | nil offset => exact ⟨[], .nil offset, rfl⟩
  | @label offset stop label nodes placed cells later inductionHypothesis =>
      obtain ⟨otherPlaced, lays, same⟩ := inductionHypothesis sameCells
      exact ⟨(offset, .label label) :: otherPlaced, .label lays, congrArg ((offset, label) :: ·) same⟩
  | @line offset stop number start nodes placed cells later inductionHypothesis =>
      obtain ⟨otherPlaced, lays, same⟩ := inductionHypothesis sameCells
      exact ⟨(offset, .line number start) :: otherPlaced, .line lays, same⟩
  | @insn offset stop insn resolved nodes placed cells numbers later inductionHypothesis =>
      have shape : Node.insns (.insn insn :: nodes) = insn :: Node.insns nodes := rfl
      rw [shape, List.forall_mem_cons] at sameCells
      obtain ⟨other, related, same⟩ := sameCells.1 resolved numbers
      obtain ⟨otherPlaced, lays, sameLabels⟩ := inductionHypothesis sameCells.2
      rw [← same] at lays ⊢
      exact ⟨(offset, .insn other) :: otherPlaced, .insn related lays, sameLabels⟩

/-- The cells of each instruction are among those that were laid out. -/
theorem exists_cells_subset
    {insn : Insn}
    (lays : Lays resolves offset nodes placed cells stop)
    (listed : insn ∈ Node.insns nodes) :
    ∃ resolved place, resolves insn resolved ∧ resolved.cells place ⊆ cells := by
  induction lays with
  | nil offset => cases listed
  | label _ inductionHypothesis | line _ inductionHypothesis => exact inductionHypothesis listed
  | @insn offset stop first resolved nodes placed cells numbers later inductionHypothesis =>
      rcases List.mem_cons.mp (show insn ∈ first :: Node.insns nodes from listed) with rfl | among
      · exact ⟨resolved, offset, numbers, List.subset_append_left _ _⟩
      · obtain ⟨other, place, related, subset⟩ := inductionHypothesis among
        exact ⟨other, place, related, List.subset_append_of_subset_right _ subset⟩

/-- A label is placed no further than where the nodes end. -/
theorem le_of_mem_placedLabels
    {place : Nat}
    {label : Label}
    (lays : Lays resolves offset nodes placed cells stop)
    (member : (place, label) ∈ Node.placedLabels placed) :
    place ≤ stop := by
  induction lays with
  | nil offset => cases member
  | @label offset stop other nodes placed cells later inductionHypothesis =>
      rcases List.mem_cons.mp
        (show (place, label) ∈ (offset, other) :: Node.placedLabels placed from member) with
        here | among
      · cases here
        exact later.offset_le
      · exact inductionHypothesis among
  | line _ inductionHypothesis | insn _ _ inductionHypothesis => exact inductionHypothesis member

/-- A target whose distance was filled in is a label among the nodes. -/
theorem mem_labels_of_links
    {bytes : Bytes}
    {insn : Insn}
    {target : Label}
    (lays : Lays resolves offset nodes placed cells stop)
    (sameTargets : ∀ insn resolved, resolves insn resolved → resolved.targets = insn.targets)
    (linked : Cell.Links (LaidOut.placeLabels ∅ placed) cells bytes)
    (listed : insn ∈ Node.insns nodes)
    (targeted : target ∈ insn.targets) :
    target ∈ Node.labels nodes := by
  obtain ⟨resolved, place, related, subset⟩ := lays.exists_cells_subset listed
  have distance : .near place target ∈ cells ∨ .far place target ∈ cells :=
    (Insn.exists_distance_of_target ((sameTargets insn resolved related).symm ▸ targeted) place).imp
      (fun near => subset near) (fun far => subset far)
  obtain ⟨offset, found⟩ := Cell.mem_of_links linked distance
  rw [← lays.map_placedLabels]
  by_contra missing
  rw [LaidOut.getElem?_placeLabels_of_not_mem missing] at found
  simp at found

end Lays

/--
What was laid out and linked is decoded as its instructions, at the offsets where
they were laid out, with the offset of its place for each label.
-/
theorem LaidOut.decode_of_link
    {nodes : List Node}
    {laidOut : LaidOut}
    {pool grown : Pool}
    {code : Bytes}
    (fits : ∀ insn ∈ Node.insns nodes, insn.Fits)
    (distinct : (Node.labels nodes).Nodup)
    (followed :
      ∀ insn ∈ Node.insns nodes, ∀ target ∈ insn.targets, ∀ position,
        Node.StandsAt target nodes position → position < (Node.insns nodes).length)
    (coherent : pool.Coherent)
    (laid : ofNodes nodes pool = .ok (laidOut, grown))
    (linked : laidOut.link = .ok code)
    (short : grown.size ≤ 65535) :
    ∃ placed,
      Lays (Insn.Emitted grown.entries) 0 nodes placed laidOut.cells.reverse.flatten code.length ∧
        (∀ offset label,
          (offset, label) ∈ Node.placedLabels placed → laidOut.labels.place label = offset) ∧
          Insn.decode code =
            .ok ((Node.placedInsns placed).map fun (offset, insn) =>
              (offset, insn.mapTargets laidOut.labels.place)) := by
  have room : grown.size ≤ 2 ^ 16 := by omega
  obtain ⟨resolved, cells, lays, cellsShape, labelsShape, _, fitsBody, _⟩ :=
    lays_of_foldlM laid (Nat.zero_le _)
  obtain ⟨placed, emits, sameLabels⟩ :
      ∃ placed,
        Lays (Insn.Emitted grown.entries) 0 nodes placed cells laidOut.size ∧
          Node.placedLabels placed = Node.placedLabels resolved :=
    lays.exists_of_cells fun insn listed resolved finds =>
      (finds.2 coherent room).exists_emitted (fits insn listed)
  obtain rfl : laidOut.cells.reverse.flatten = cells := by simpa [empty] using cellsShape
  have places : laidOut.labels = placeLabels ∅ resolved := labelsShape
  have placedOnce : ((Node.placedLabels resolved).map Prod.snd).Nodup := by
    rwa [lays.map_placedLabels]
  have cellsLinked := links_of_link linked
  have layout := lays.layout distinct fitsBody
  rw [← places] at layout
  have inside :
      ∀ insn ∈ Node.insns nodes, ∀ target ∈ insn.targets,
        laidOut.labels.place target < laidOut.size := by
    intro insn listed target targeted
    have member :=
      lays.mem_labels_of_links (fun _ _ finds => finds.1.targets_eq) (places ▸ cellsLinked) listed
        targeted
    obtain ⟨position, stands⟩ := Node.exists_standsAt member
    exact layout.place_lt_size stands (followed insn listed target targeted position stands)
  obtain ⟨decodes, length⟩ :=
    emits.decodes cellsLinked fitsBody
      (fun insn listed emitted place emitsInsn narrow =>
        ⟨emitsInsn.wellFormed (fits insn listed) narrow, emitsInsn.isIndexed, emitsInsn.targets_eq⟩)
      inside
  have size : laidOut.size = code.length := by simpa using length.symm
  rw [size] at emits decodes
  refine ⟨placed, emits, fun offset label member => ?_, Insn.decode_eq_ok_iff.mpr decodes⟩
  rw [sameLabels] at member
  have found : laidOut.labels[label]? = some (UInt16.ofNat offset) := by
    rw [places]
    exact getElem?_placeLabels placedOnce member
  have offsetPlaced : laidOut.labels.offset label = .ok (UInt16.ofNat offset) := by
    rw [PlacedLabels.offset, found]
  have beforeEnd := lays.le_of_mem_placedLabels member
  rw [maxCodeLength] at fitsBody
  rw [PlacedLabels.place_of_offset offsetPlaced, UInt16.toNat_ofNat_of_lt' (by show _ < 2 ^ 16; omega)]

/--
The bytes that a body is assembled to are decoded as its instructions, in their order
and at the offsets where they were emitted, with the offset of its place for each
label, with a number that stands for it for each name, and with the short load of a
number above 255 as a long one.
-/
theorem Body.decode_of_assemble
    {context : WriteContext}
    {access : UInt16}
    {name descriptor : String}
    {body : Body}
    {pool after : Pool}
    {raw : CodeAttribute Attribute}
    (fits : ∀ insn ∈ Node.insns body.nodes, insn.Fits)
    (distinct : (Node.labels body.nodes).Nodup)
    (followed :
      ∀ insn ∈ Node.insns body.nodes, ∀ target ∈ insn.targets, ∀ position,
        Node.StandsAt target body.nodes position → position < (Node.insns body.nodes).length)
    (coherent : pool.Coherent)
    (assembled : body.assemble context access name descriptor pool = .ok (raw, after))
    (short : after.size ≤ 65535) :
    ∃ labels placed cells,
      Lays (Insn.Emitted after.entries) 0 body.nodes placed cells raw.code.length ∧
        Cell.Links labels cells raw.code ∧
          (∀ offset label,
            (offset, label) ∈ Node.placedLabels placed → labels.place label = offset) ∧
            Insn.decode raw.code =
              .ok ((Node.placedInsns placed).map fun (offset, insn) =>
                (offset, insn.mapTargets labels.place)) := by
  obtain ⟨laidOut, grown, laid, linking⟩ := Writing.bind_eq_ok_iff.mp assembled
  obtain ⟨code, linked, handling⟩ := Writing.lift_bind_eq_ok_iff.mp linking
  obtain ⟨_, _, handled, framing⟩ := Writing.bind_eq_ok_iff.mp handling
  obtain ⟨⟨_, _, _⟩, _, framed, listing⟩ := Writing.bind_eq_ok_iff.mp framing
  obtain ⟨_, _, naming⟩ := Writing.lift_bind_eq_ok_iff.mp listing
  obtain ⟨_, _, named, ending⟩ := Writing.bind_eq_ok_iff.mp naming
  obtain ⟨rfl, rfl⟩ := Writing.pure_eq_ok_iff.mp ending
  have later : grown.LeadsTo after :=
    (Writing.growing_mapM (growing_assembleHandler _) _ _ _ handled).trans <|
      (growing_assembleFrames _ _ _ _ _ _ _ _ _ framed).trans
        (Writing.growing_mapM (growing_assembleLocal _) _ _ _ named)
  obtain ⟨placed, lays, places, decoded⟩ :=
    LaidOut.decode_of_link fits distinct followed coherent laid linked
      (Nat.le_trans later.kept.size_le short)
  refine
    ⟨laidOut.labels, placed, _, lays.imp fun _ _ => Insn.Emitted.extend later.kept, ?_, places,
      decoded⟩
  obtain ⟨pieces, pieced, same⟩ := bind_eq_ok_iff.mp linked
  cases same
  exact ⟨pieces, pieced, rfl⟩

/-- A body that loads a text over and over. -/
def Body.loadingLoop : Body :=
  { Body.empty with
    nodes :=
      [.label 7, .insn (.load Opcode.ldc (.text "x")), .insn (.plain Opcode.pop),
        .insn (.jump Opcode.goto 7)] }

/-- A text is loaded by the number it was given, and a jump goes to the offset of its label. -/
theorem Body.decode_of_loadingLoop :
    ∃ raw after labels placed cells,
      loadingLoop.assemble ⟨"A", 52, ⟨false, false⟩, []⟩ 9 "run" "()V" .empty = .ok (raw, after) ∧
        after.size ≤ 65535 ∧
          Lays (Insn.Emitted after.entries) 0 loadingLoop.nodes placed cells raw.code.length ∧
            Cell.Links labels cells raw.code ∧
              (Node.placedInsns placed).map (fun (offset, insn) =>
                  (offset, insn.mapTargets labels.place)) =
                [(0, .load Opcode.ldc (.index 2)), (2, .plain Opcode.pop),
                  (3, .jump Opcode.goto 0)] := by
  have outcome :
      (loadingLoop.assemble ⟨"A", 52, ⟨false, false⟩, []⟩ 9 "run" "()V" .empty).toOption.map
          (fun result => (result.1.code, result.2.size)) =
        some ([18, 2, 87, 167, 255, 253], 3) := by
    decide +kernel
  have fits : ∀ insn ∈ Node.insns loadingLoop.nodes, insn.Fits := by
    intro insn listed
    have cases : insn = .load Opcode.ldc (.text "x") ∨ insn = .plain Opcode.pop ∨
        insn = .jump Opcode.goto 7 := by
      simpa [loadingLoop, Node.insns] using listed
    rcases cases with rfl | rfl | rfl
    · exact .inl rfl
    · exact rfl
    · exact .inl rfl
  have distinct : (Node.labels loadingLoop.nodes).Nodup := by decide
  have followed :
      ∀ insn ∈ Node.insns loadingLoop.nodes, ∀ target ∈ insn.targets, ∀ position,
        Node.StandsAt target loadingLoop.nodes position →
          position < (Node.insns loadingLoop.nodes).length := by
    intro insn _ target _ position stands
    obtain rfl : target = 7 := by simpa [loadingLoop, Node.labels] using stands.mem_labels
    obtain rfl := stands.unique distinct .here
    decide
  have coherent : Pool.empty.Coherent :=
    Pool.coherent_of_ofEntries (by decide) (rfl : Pool.ofEntries #[.unusable] = .ok .empty)
  rcases assembled :
      loadingLoop.assemble ⟨"A", 52, ⟨false, false⟩, []⟩ 9 "run" "()V" .empty with
    error | ⟨raw, after⟩
  · simp [assembled, Except.toOption] at outcome
  · simp only [assembled, Except.toOption, Option.map_some, Option.some.injEq, Prod.mk.injEq]
      at outcome
    obtain ⟨code, size⟩ := outcome
    have short : after.size ≤ 65535 := by omega
    obtain ⟨labels, placed, cells, lays, linked, _, decoded⟩ :=
      Body.decode_of_assemble fits distinct followed coherent assembled short
    have known :
        Insn.decode [18, 2, 87, 167, 255, 253] =
          .ok [(0, .load Opcode.ldc (.index 2)), (2, .plain Opcode.pop),
            (3, .jump Opcode.goto 0)] := by
      decide +kernel
    rw [code, known] at decoded
    exact
      ⟨raw, after, labels, placed, cells, rfl, short, lays, linked, (Except.ok.inj decoded).symm⟩

end JvmClass
