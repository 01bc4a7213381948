import JvmClass.Insn.Encode
import JvmClass.Proofs.Insn.Decode

namespace JvmClass

/-!
# Instructions survive their bytes

An instruction that names its constants by index is laid out the same way
against every pool.  Once its distances are filled in, its bytes are read as the
instruction with its labels replaced by the offsets that they were placed at.
-/

open Reader

/-! ## Linked cells -/

namespace PlacedLabels

/-- The offset at which a label was placed, as a position in the body. -/
def place (labels : PlacedLabels) (label : Label) : Nat :=
  (labels.getD label 0).toNat

theorem place_of_offset
    {labels : PlacedLabels}
    {label : Label}
    {offset : UInt16}
    (placed : labels.offset label = .ok offset) :
    labels.place label = offset.toNat := by
  unfold PlacedLabels.offset at placed
  split at placed
  · rename_i found
    cases placed
    rw [place, Std.TreeMap.getD_eq_getD_getElem?, found]
    rfl
  · cases placed

end PlacedLabels

namespace Cell

variable {labels : PlacedLabels}

/-- The cells become these bytes when the distances are filled in. -/
def Links
    (labels : PlacedLabels)
    (cells : List Cell)
    (bytes : Bytes) : Prop :=
  ∃ pieces, cells.mapM (link labels) = .ok pieces ∧ bytes = pieces.flatten

theorem links_nil_iff
    {bytes : Bytes} :
    Links labels [] bytes ↔ bytes = [] := by
  constructor
  · rintro ⟨pieces, linked, rfl⟩
    cases linked
    rfl
  · rintro rfl
    exact ⟨[], rfl, rfl⟩

theorem links_cons_iff
    {cell : Cell}
    {cells : List Cell}
    {bytes : Bytes} :
    Links labels (cell :: cells) bytes ↔
      ∃ first others,
        bytes = first ++ others ∧ cell.link labels = .ok first ∧ Links labels cells others := by
  unfold Links
  simp only [mapM_eq_ok_iff]
  constructor
  · rintro ⟨pieces, linked, rfl⟩
    cases linked with
    | cons first others => exact ⟨_, _, rfl, first, _, others, rfl⟩
  · rintro ⟨first, _, rfl, linked, pieces, others, rfl⟩
    exact ⟨first :: pieces, .cons linked others, rfl⟩

theorem links_append_iff
    {first second : List Cell}
    {bytes : Bytes} :
    Links labels (first ++ second) bytes ↔
      ∃ firstBytes secondBytes,
        bytes = firstBytes ++ secondBytes ∧
          Links labels first firstBytes ∧ Links labels second secondBytes := by
  induction first generalizing bytes with
  | nil => simp [links_nil_iff]
  | cons cell first inductionHypothesis =>
      simp only [List.cons_append, links_cons_iff, inductionHypothesis]
      constructor
      · rintro ⟨front, _, rfl, linked, middle, behind, rfl, firstLinked, secondLinked⟩
        exact ⟨front ++ middle, behind, by simp, ⟨front, middle, rfl, linked, firstLinked⟩,
          secondLinked⟩
      · rintro ⟨_, behind, rfl, ⟨front, middle, rfl, linked, firstLinked⟩, secondLinked⟩
        exact ⟨front, middle ++ behind, by simp, linked, middle, behind, rfl, firstLinked,
          secondLinked⟩

theorem links_ofBytes_iff
    {fixed bytes : Bytes} :
    Links labels (ofBytes fixed) bytes ↔ bytes = fixed := by
  induction fixed generalizing bytes with
  | nil => exact links_nil_iff
  | cons byte fixed inductionHypothesis =>
      show Links labels (Cell.byte byte :: ofBytes fixed) bytes ↔ _
      simp only [links_cons_iff, inductionHypothesis, link, Except.ok.injEq]
      constructor
      · rintro ⟨_, _, rfl, rfl, rfl⟩
        rfl
      · rintro rfl
        exact ⟨_, _, rfl, rfl, rfl⟩

/-- A linked cell takes as many bytes as was counted on. -/
theorem length_of_link
    {cell : Cell}
    {bytes : Bytes}
    (linked : cell.link labels = .ok bytes) :
    bytes.length = cell.width := by
  cases cell with
  | byte value =>
      cases linked
      rfl
  | near origin target =>
      obtain ⟨offset, _, result⟩ := bind_eq_ok_iff.mp linked
      simp only at result
      split at result
      · cases result
        rfl
      · cases result
  | far origin target =>
      obtain ⟨offset, _, result⟩ := bind_eq_ok_iff.mp linked
      cases result
      rfl

theorem widths_eq_sum (cells : List Cell) : widths cells = (cells.map width).sum := by
  unfold widths
  rw [List.sum_eq_foldl, List.foldl_map]

theorem Links.length_eq
    {cells : List Cell}
    {bytes : Bytes}
    (linked : Links labels cells bytes) :
    bytes.length = widths cells := by
  rw [widths_eq_sum]
  induction cells generalizing bytes with
  | nil => simp [links_nil_iff.mp linked]
  | cons cell cells inductionHypothesis =>
      obtain ⟨first, others, rfl, firstLinked, othersLinked⟩ := links_cons_iff.mp linked
      simp [length_of_link firstLinked, inductionHypothesis othersLinked]

/-! ## Distances -/

/-- A near distance is read as the place of its target. -/
theorem reads_of_link_near
    {size origin : Nat}
    {target : Label}
    {bytes : Bytes}
    (linked : link labels (.near origin target) = .ok bytes)
    (inside : labels.place target < size) :
    (Insn.nearTarget size origin).Reads bytes (labels.place target) := by
  obtain ⟨offset, placed, result⟩ := bind_eq_ok_iff.mp linked
  simp only at result
  split at result
  · rename_i reach
    cases result
    have place := PlacedLabels.place_of_offset placed
    refine Insn.reads_nearTarget_iff.mpr ⟨_, rfl, ?_, inside⟩
    rw [Int16.toInt16_toUInt16, Int16.toInt_ofInt_of_le reach.1 reach.2, place]
    omega
  · cases result

/-- A far distance is read as the place of its target. -/
theorem reads_of_link_far
    {size origin : Nat}
    {target : Label}
    {bytes : Bytes}
    (linked : link labels (.far origin target) = .ok bytes)
    (short : origin < 2 ^ 16)
    (inside : labels.place target < size) :
    (Insn.farTarget size origin).Reads bytes (labels.place target) := by
  obtain ⟨offset, placed, result⟩ := bind_eq_ok_iff.mp linked
  cases result
  have place := PlacedLabels.place_of_offset placed
  have bound := offset.toNat_lt
  refine Insn.reads_farTarget_iff.mpr ⟨_, rfl, ?_, inside⟩
  rw [Int32.toInt32_toUInt32, Int32.toInt_ofInt_of_le (by omega) (by omega), place]
  omega

/-- A row of far distances is read as the places of their targets. -/
theorem reads_of_links_far
    {size origin : Nat}
    {targets : List Label}
    {bytes : Bytes}
    (linked : Links labels (targets.map (.far origin)) bytes)
    (short : origin < 2 ^ 16)
    (inside : ∀ target ∈ targets, labels.place target < size) :
    (times targets.length (Insn.farTarget size origin)).Reads bytes
      (targets.map labels.place) := by
  rw [reads_times_iff (Insn.local_farTarget size origin)]
  induction targets generalizing bytes with
  | nil => exact ⟨[], .nil, rfl, links_nil_iff.mp linked⟩
  | cons target targets inductionHypothesis =>
      simp only [List.mem_cons, forall_eq_or_imp] at inside
      obtain ⟨first, others, rfl, firstLinked, othersLinked⟩ := links_cons_iff.mp linked
      obtain ⟨pieces, all, length, rfl⟩ := inductionHypothesis othersLinked inside.2
      exact
        ⟨first :: pieces, .cons (reads_of_link_far firstLinked short inside.1) all,
          by simp, rfl⟩

/-- A row of keys and far distances is read as the keys and the places of the targets. -/
theorem reads_of_links_pairs
    {size origin : Nat}
    {pairs : List (Int32 × Label)}
    {bytes : Bytes}
    (linked :
      Links labels
        (pairs.flatMap fun (key, target) =>
          ofBytes (Bytes.ofUInt32 key.toUInt32) ++ [.far origin target])
        bytes)
    (short : origin < 2 ^ 16)
    (inside : ∀ pair ∈ pairs, labels.place pair.2 < size) :
    (times pairs.length (Insn.lookupPairReader size origin)).Reads bytes
      (pairs.map fun (key, target) => (key, labels.place target)) := by
  rw [reads_times_iff (Insn.local_lookupPairReader size origin)]
  induction pairs generalizing bytes with
  | nil => exact ⟨[], .nil, rfl, links_nil_iff.mp linked⟩
  | cons pair pairs inductionHypothesis =>
      simp only [List.mem_cons, forall_eq_or_imp] at inside
      obtain ⟨first, others, rfl, firstLinked, othersLinked⟩ := links_append_iff.mp linked
      obtain ⟨key, behind, rfl, keyLinked, behindLinked⟩ := links_append_iff.mp firstLinked
      obtain rfl := links_ofBytes_iff.mp keyLinked
      obtain ⟨distance, _, rfl, distanceLinked, none⟩ := links_cons_iff.mp behindLinked
      obtain rfl := links_nil_iff.mp none
      obtain ⟨pieces, all, length, rfl⟩ := inductionHypothesis othersLinked inside.2
      refine ⟨(Bytes.ofUInt32 pair.1.toUInt32 ++ (distance ++ [])) :: pieces, .cons ?_ all,
        by simp, rfl⟩
      rw [List.append_nil]
      refine Reads.behind_u4 ?_
      rw [Int32.toInt32_toUInt32]
      exact Reads.bind_pure (reads_of_link_far distanceLinked short inside.1)

end Cell
/-! ## Opcodes and their layouts -/

namespace Opcode

/-- What is known of an opcode whose operands have a layout. -/
def Layout.Admits : Layout → Opcode → Prop
  | .signedByte, code | .arrayType, code => code ≠ sipush
  | .signedShort, code => code = sipush
  | .shortConstant, code => code = ldc
  | .longConstant, code => code = ldcW ∨ code = ldc2W
  | .branch, code => ¬ (code = gotoW ∨ code = jsrW)
  | .wideBranch, code => code = gotoW ∨ code = jsrW
  | .increment, code => code = iinc ∧ Insn.takesSlot code = false
  | .wide, code => code = Opcode.wide
  | _, _ => True

instance (layout : Layout) (code : Opcode) : Decidable (layout.Admits code) :=
  match layout with
  | .signedByte | .arrayType => inferInstanceAs (Decidable (code ≠ sipush))
  | .signedShort => inferInstanceAs (Decidable (code = sipush))
  | .shortConstant => inferInstanceAs (Decidable (code = ldc))
  | .longConstant => inferInstanceAs (Decidable (code = ldcW ∨ code = ldc2W))
  | .branch => inferInstanceAs (Decidable (¬ (code = gotoW ∨ code = jsrW)))
  | .wideBranch => inferInstanceAs (Decidable (code = gotoW ∨ code = jsrW))
  | .increment => inferInstanceAs (Decidable (code = iinc ∧ Insn.takesSlot code = false))
  | .wide => inferInstanceAs (Decidable (code = Opcode.wide))
  | .plain | .localVariable | .tableSwitch | .lookupSwitch | .classRef | .fieldRef | .methodRef
  | .interfaceMethodRef | .callSite | .multiArray => .isTrue trivial

theorem admits_of_layout
    {code : Opcode}
    {layout : Layout}
    (found : code.layout? = some layout) :
    layout.Admits code := by
  have every (code : BitVec 8) : (layout? ⟨code⟩).all fun layout => layout.Admits ⟨code⟩ := by
    revert code
    decide +kernel
  simpa [found] using every code.toBitVec

end Opcode

namespace Insn

/-! ## Operands in one byte -/

theorem toUInt16_toUInt8_of_le
    {index : UInt16}
    (small : index ≤ 255) :
    index.toUInt8.toUInt16 = index := by
  rw [UInt16.le_iff_toNat_le, show (255 : UInt16).toNat = 255 from rfl] at small
  rw [← UInt16.toNat_inj, UInt8.toNat_toUInt16, UInt16.toNat_toUInt8]
  omega

theorem toInt16_toInt8_of_small
    {amount : Int16}
    (above : -128 ≤ amount)
    (below : amount ≤ 127) :
    amount.toInt8.toInt16 = amount := by
  rw [Int16.le_iff_toInt_le, show (-128 : Int16).toInt = -128 from rfl] at above
  rw [Int16.le_iff_toInt_le, show (127 : Int16).toInt = 127 from rfl] at below
  rw [← Int16.toInt_inj, Int8.toInt_toInt16, Int16.toInt_toInt8]
  exact Int.bmod_eq_of_le (by omega) (by omega)

theorem toInt_ofNat_of_lt
    {count : Nat}
    (small : count < 2 ^ 31) :
    (UInt32.ofNat count).toInt32.toInt = count := by
  have number : (UInt32.ofNat count).toBitVec.toNat = count := by
    rw [UInt32.toNat_toBitVec, UInt32.toNat_ofNat_of_lt' (show count < 2 ^ 32 by omega)]
  show (UInt32.ofNat count).toBitVec.toInt = count
  rw [BitVec.toInt_eq_toNat_of_lt (by omega), number]

/-! ## One instruction -/

/-- The cells of an instruction that needs no constant. -/
def cells
    (offset : Nat)
    (insn : Insn) : List Cell :=
  (insn.encode offset Pool.empty).1

theorem encode_of_indexed
    {insn : Insn}
    (indexed : insn.Indexed)
    (offset : Nat)
    (pool : Pool) :
    insn.encode offset pool = (insn.cells offset, pool) := by
  cases insn with
  | field code target | method code target =>
      cases target with
      | index index => rfl
      | named owner name descriptor => exact indexed.elim
  | load code value =>
      cases value with
      | index index => rfl
      | text value => exact indexed.elim
  | _ => rfl

section Links

variable {labels : PlacedLabels} {size offset : Nat} {bytes : Bytes}

theorem reads_of_links_immediate
    {code : Opcode}
    {operand : Int32}
    (wellFormed : (Insn.immediate code operand).WellFormed)
    (linked : Cell.Links labels ((Insn.immediate code operand).cells offset) bytes) :
    ∃ width, (reader size offset).Reads bytes (.immediate code operand, width) := by
  rcases wellFormed with ⟨layout, fits⟩ | ⟨layout, fits⟩ | ⟨layout, fits⟩
  · have notShort : code ≠ Opcode.sipush := Opcode.admits_of_layout layout
    simp only [cells, encode, if_neg notShort] at linked
    obtain rfl := Cell.links_ofBytes_iff.mp linked
    refine ⟨2, Reads.behind_u1 ?_⟩
    simp only [operandReader, layout]
    have read :
        u1.Reads [operand.toInt8.toUInt8] operand.toInt8.toUInt8 := reads_u1_iff.mpr rfl
    refine (reads_bind_pure_iff local_u1).mpr ⟨_, read, ?_⟩
    simp only [Int8.toInt8_toUInt8, fits]
  · have isShort : code = Opcode.sipush := Opcode.admits_of_layout layout
    simp only [cells, encode, if_pos isShort] at linked
    obtain rfl := Cell.links_ofBytes_iff.mp linked
    refine ⟨3, Reads.behind_u1 ?_⟩
    simp only [operandReader, layout]
    refine (reads_bind_pure_iff local_u2).mpr ⟨_, reads_u2_iff.mpr rfl, ?_⟩
    simp only [Int16.toInt16_toUInt16, fits]
  · have notShort : code ≠ Opcode.sipush := Opcode.admits_of_layout layout
    simp only [cells, encode, if_neg notShort] at linked
    obtain rfl := Cell.links_ofBytes_iff.mp linked
    refine ⟨2, Reads.behind_u1 ?_⟩
    simp only [operandReader, layout]
    refine (reads_bind_pure_iff local_u1).mpr ⟨_, reads_u1_iff.mpr rfl, ?_⟩
    simp only [fits]

theorem reads_of_links_slot
    {code : Opcode}
    {index : UInt16}
    (takes : takesSlot code = true)
    (linked : Cell.Links labels ((Insn.slot code index).cells offset) bytes) :
    ∃ width, (reader size offset).Reads bytes (.slot code index, width) := by
  have layout : code.layout? = some .localVariable := by simpa [takesSlot] using takes
  by_cases small : index ≤ 255
  · simp only [cells, encode, if_pos small] at linked
    obtain rfl := Cell.links_ofBytes_iff.mp linked
    refine ⟨2, Reads.behind_u1 ?_⟩
    simp only [operandReader, layout]
    refine (reads_bind_pure_iff local_u1).mpr ⟨_, reads_u1_iff.mpr rfl, ?_⟩
    rw [toUInt16_toUInt8_of_le small]
  · simp only [cells, encode, if_neg small] at linked
    obtain rfl := Cell.links_ofBytes_iff.mp linked
    refine ⟨4, Reads.behind_u1 ?_⟩
    rw [show operandReader size offset Opcode.wide = wideReader offset from rfl]
    refine Reads.behind_u1 ?_
    rw [if_pos takes]
    exact Reads.bind_pure (reads_u2_iff.mpr rfl)

theorem reads_of_links_increment
    {code : Opcode}
    {index : UInt16}
    {amount : Int16}
    (layout : code.layout? = some .increment)
    (linked : Cell.Links labels ((Insn.increment code index amount).cells offset) bytes) :
    ∃ width, (reader size offset).Reads bytes (.increment code index amount, width) := by
  obtain ⟨isIncrement, takesNone⟩ := Opcode.admits_of_layout layout
  by_cases small : index ≤ 255 ∧ -128 ≤ amount ∧ amount ≤ 127
  · simp only [cells, encode, if_pos small] at linked
    obtain rfl := Cell.links_ofBytes_iff.mp linked
    refine ⟨3, Reads.behind_u1 ?_⟩
    simp only [operandReader, layout]
    refine Reads.behind_u1 ?_
    refine (reads_bind_pure_iff local_u1).mpr ⟨_, reads_u1_iff.mpr rfl, ?_⟩
    rw [toUInt16_toUInt8_of_le small.1, Int8.toInt8_toUInt8, toInt16_toInt8_of_small small.2.1 small.2.2]
  · simp only [cells, encode, if_neg small] at linked
    obtain rfl := Cell.links_ofBytes_iff.mp linked
    refine ⟨6, Reads.behind_u1 ?_⟩
    rw [show operandReader size offset Opcode.wide = wideReader offset from rfl]
    refine Reads.behind_u1 ?_
    rw [takesNone, if_neg Bool.false_ne_true, if_pos isIncrement, isIncrement]
    refine Reads.behind_u2 ((reads_bind_pure_iff local_u2).mpr ⟨_, reads_u2_iff.mpr rfl, ?_⟩)
    rw [Int16.toInt16_toUInt16]

theorem reads_of_links_load
    {code : Opcode}
    {index : UInt16}
    (wellFormed : (Insn.load code (.index index)).WellFormed)
    (linked : Cell.Links labels ((Insn.load code (.index index)).cells offset) bytes) :
    ∃ width, (reader size offset).Reads bytes (.load code (.index index), width) := by
  have shape : (Insn.load code (.index index)).cells offset = encodeLoad code index := rfl
  rw [shape, encodeLoad] at linked
  obtain rfl := Cell.links_ofBytes_iff.mp linked
  rcases wellFormed with ⟨layout, small⟩ | layout
  · obtain rfl : code = Opcode.ldc := Opcode.admits_of_layout layout
    have same : loadOpcode Opcode.ldc index = Opcode.ldc := by
      rw [loadOpcode, if_neg (by decide), if_pos small]
    rw [same, if_pos rfl]
    refine ⟨2, Reads.behind_u1 ?_⟩
    rw [show operandReader size offset Opcode.ldc =
      u1 >>= fun index => pure (.load Opcode.ldc (.index index.toUInt16), 2) from rfl]
    refine (reads_bind_pure_iff local_u1).mpr ⟨_, reads_u1_iff.mpr rfl, ?_⟩
    rw [toUInt16_toUInt8_of_le small]
  · have same : loadOpcode code index = code := by
      rw [loadOpcode, if_pos (Or.symm (Opcode.admits_of_layout layout))]
    have different : code ≠ Opcode.ldc := by
      rintro rfl
      exact absurd layout (by decide)
    rw [same, if_neg different]
    refine ⟨3, Reads.behind_u1 ?_⟩
    simp only [operandReader, layout]
    exact Reads.bind_pure (reads_u2_iff.mpr rfl)

theorem reads_of_links_jump
    {code : Opcode}
    {target : Label}
    (wellFormed : (Insn.jump code target).WellFormed)
    (linked : Cell.Links labels ((Insn.jump code target).cells offset) bytes)
    (short : offset < 2 ^ 16)
    (inside : labels.place target < size) :
    ∃ width, (reader size offset).Reads bytes (.jump code (labels.place target), width) := by
  rcases wellFormed with layout | layout
  · have notWide : ¬ (code = Opcode.gotoW ∨ code = Opcode.jsrW) := Opcode.admits_of_layout layout
    simp only [cells, encode, if_neg notWide] at linked
    obtain ⟨first, _, rfl, firstLinked, behindLinked⟩ := Cell.links_cons_iff.mp linked
    obtain ⟨distance, _, rfl, distanceLinked, none⟩ := Cell.links_cons_iff.mp behindLinked
    obtain rfl := Cell.links_nil_iff.mp none
    cases firstLinked
    rw [List.append_nil]
    refine ⟨3, Reads.behind_u1 ?_⟩
    simp only [operandReader, layout]
    exact Reads.bind_pure (Cell.reads_of_link_near distanceLinked inside)
  · have isWide : code = Opcode.gotoW ∨ code = Opcode.jsrW := Opcode.admits_of_layout layout
    simp only [cells, encode, if_pos isWide] at linked
    obtain ⟨first, _, rfl, firstLinked, behindLinked⟩ := Cell.links_cons_iff.mp linked
    obtain ⟨distance, _, rfl, distanceLinked, none⟩ := Cell.links_cons_iff.mp behindLinked
    obtain rfl := Cell.links_nil_iff.mp none
    cases firstLinked
    rw [List.append_nil]
    refine ⟨5, Reads.behind_u1 ?_⟩
    simp only [operandReader, layout]
    exact Reads.bind_pure (Cell.reads_of_link_far distanceLinked short inside)

theorem reads_of_links_tableSwitch
    {code : Opcode}
    {default : Label}
    {low high : Int32}
    {targets : List Label}
    (wellFormed : (Insn.tableSwitch code default low high targets).WellFormed)
    (linked :
      Cell.Links labels ((Insn.tableSwitch code default low high targets).cells offset) bytes)
    (short : offset < 2 ^ 16)
    (inside : ∀ target ∈ default :: targets, labels.place target < size) :
    ∃ width,
      (reader size offset).Reads bytes
        (.tableSwitch code (labels.place default) low high (targets.map labels.place), width) := by
  obtain ⟨layout, ordered, count⟩ := wellFormed
  simp only [List.mem_cons, forall_eq_or_imp] at inside
  simp only [cells, encode, pure_apply] at linked
  obtain ⟨_, farBytes, rfl, linked, farLinked⟩ := Cell.links_append_iff.mp linked
  obtain ⟨head, _, rfl, headLinked, linked⟩ := Cell.links_append_iff.mp linked
  obtain ⟨defaultBytes, range, rfl, defaultLinked, rangeLinked⟩ := Cell.links_cons_iff.mp linked
  obtain rfl := Cell.links_ofBytes_iff.mp headLinked
  obtain rfl := Cell.links_ofBytes_iff.mp rangeLinked
  have rowReads := Cell.reads_of_links_far farLinked short inside.2
  simp only [List.cons_append, List.append_assoc]
  refine ⟨13 + switchPadding offset + 4 * targets.length, Reads.behind_u1 ?_⟩
  simp only [operandReader, layout]
  refine Reads.bind (reads_bytes_iff.mpr ⟨rfl, by simp⟩) ?_
  refine Reads.bind (Cell.reads_of_link_far defaultLinked short inside.1) ?_
  refine Reads.behind_u4 (Reads.behind_u4 ?_)
  have counted : (high.toInt - low.toInt + 1).toNat = targets.length := by omega
  simp only [Int32.toInt32_toUInt32, counted]
  rw [if_neg (Int32.not_lt.mpr ordered)]
  exact Reads.bind_pure rowReads

theorem reads_of_links_lookupSwitch
    {code : Opcode}
    {default : Label}
    {pairs : List (Int32 × Label)}
    (wellFormed : (Insn.lookupSwitch code default pairs).WellFormed)
    (linked : Cell.Links labels ((Insn.lookupSwitch code default pairs).cells offset) bytes)
    (short : offset < 2 ^ 16)
    (inside : ∀ target ∈ default :: pairs.map Prod.snd, labels.place target < size) :
    ∃ width,
      (reader size offset).Reads bytes
        (.lookupSwitch code (labels.place default)
          (pairs.map fun (key, target) => (key, labels.place target)), width) := by
  obtain ⟨layout, few⟩ := wellFormed
  simp only [List.mem_cons, forall_eq_or_imp, List.forall_mem_map] at inside
  simp only [cells, encode, pure_apply] at linked
  obtain ⟨_, farBytes, rfl, linked, farLinked⟩ := Cell.links_append_iff.mp linked
  obtain ⟨head, _, rfl, headLinked, linked⟩ := Cell.links_append_iff.mp linked
  obtain ⟨defaultBytes, count, rfl, defaultLinked, countLinked⟩ := Cell.links_cons_iff.mp linked
  obtain rfl := Cell.links_ofBytes_iff.mp headLinked
  obtain rfl := Cell.links_ofBytes_iff.mp countLinked
  have rowReads := Cell.reads_of_links_pairs farLinked short inside.2
  simp only [List.cons_append, List.append_assoc]
  refine ⟨9 + switchPadding offset + 8 * pairs.length, Reads.behind_u1 ?_⟩
  simp only [operandReader, layout]
  refine Reads.bind (reads_bytes_iff.mpr ⟨rfl, by simp⟩) ?_
  refine Reads.bind (Cell.reads_of_link_far defaultLinked short inside.1) ?_
  refine Reads.behind_u4 ?_
  have counted : (UInt32.ofNat pairs.length).toInt32.toInt = pairs.length := toInt_ofNat_of_lt few
  have nonnegative : ¬ (UInt32.ofNat pairs.length).toInt32 < 0 := by
    rw [Int32.lt_iff_toInt_lt, counted, show (0 : Int32).toInt = 0 from rfl]
    omega
  simp only [counted, Int.toNat_natCast]
  rw [if_neg nonnegative]
  exact Reads.bind_pure rowReads

/-- The linked cells of an instruction are read as the instruction at the places of its targets. -/
theorem reads_of_links
    {insn : Insn}
    (wellFormed : insn.WellFormed)
    (indexed : insn.Indexed)
    (linked : Cell.Links labels (insn.cells offset) bytes)
    (short : offset < 2 ^ 16)
    (inside : ∀ target ∈ insn.targets, labels.place target < size) :
    (reader size offset).Reads bytes (insn.mapTargets labels.place, bytes.length) := by
  suffices read :
      ∃ width, (reader size offset).Reads bytes (insn.mapTargets labels.place, width) by
    obtain ⟨width, reads⟩ := read
    obtain ⟨_, rfl, _⟩ := readFrom_of_reads reads
    exact reads
  cases insn with
  | plain code =>
      obtain rfl := Cell.links_ofBytes_iff.mp linked
      refine ⟨1, Reads.behind_u1 ?_⟩
      simp only [operandReader, show code.layout? = some .plain from wellFormed]
      exact reads_pure_iff.mpr ⟨rfl, rfl⟩
  | immediate code operand => exact reads_of_links_immediate wellFormed linked
  | slot code index => exact reads_of_links_slot wellFormed linked
  | classRef code index =>
      obtain rfl := Cell.links_ofBytes_iff.mp linked
      refine ⟨3, Reads.behind_u1 ?_⟩
      simp only [operandReader, show code.layout? = some .classRef from wellFormed]
      exact Reads.bind_pure (reads_u2_iff.mpr rfl)
  | field code target =>
      cases target with
      | named owner name descriptor => exact indexed.elim
      | index index =>
          obtain rfl := Cell.links_ofBytes_iff.mp linked
          refine ⟨3, Reads.behind_u1 ?_⟩
          simp only [operandReader, show code.layout? = some .fieldRef from wellFormed]
          exact Reads.bind_pure (reads_u2_iff.mpr rfl)
  | method code target =>
      cases target with
      | named owner name descriptor => exact indexed.elim
      | index index =>
          obtain rfl := Cell.links_ofBytes_iff.mp linked
          refine ⟨3, Reads.behind_u1 ?_⟩
          simp only [operandReader, show code.layout? = some .methodRef from wellFormed]
          exact Reads.bind_pure (reads_u2_iff.mpr rfl)
  | interfaceMethod code index count =>
      obtain rfl := Cell.links_ofBytes_iff.mp linked
      refine ⟨5, Reads.behind_u1 ?_⟩
      simp only [operandReader, show code.layout? = some .interfaceMethodRef from wellFormed]
      exact Reads.behind_u2 (Reads.behind_u1 (Reads.bind_pure (reads_u1_iff.mpr rfl)))
  | callSite code index =>
      obtain rfl := Cell.links_ofBytes_iff.mp linked
      refine ⟨5, Reads.behind_u1 ?_⟩
      simp only [operandReader, show code.layout? = some .callSite from wellFormed]
      have zero : u2.Reads [0, 0] 0 := reads_u2_iff.mpr rfl
      exact Reads.behind_u2 (Reads.bind_pure zero)
  | jump code target => exact reads_of_links_jump wellFormed linked short (inside target (by simp [targets]))
  | load code value =>
      cases value with
      | text value => exact indexed.elim
      | index index => exact reads_of_links_load wellFormed linked
  | increment code index amount => exact reads_of_links_increment wellFormed linked
  | tableSwitch code default low high targets =>
      exact reads_of_links_tableSwitch wellFormed linked short inside
  | lookupSwitch code default pairs =>
      exact reads_of_links_lookupSwitch wellFormed linked short inside
  | multiArray code index dimensions =>
      obtain rfl := Cell.links_ofBytes_iff.mp linked
      refine ⟨4, Reads.behind_u1 ?_⟩
      simp only [operandReader, show code.layout? = some .multiArray from wellFormed]
      exact Reads.behind_u2 (Reads.bind_pure (reads_u1_iff.mpr rfl))

end Links

end Insn
end JvmClass
