import JvmClass.Proofs.Attribute.Size
import JvmClass.Proofs.Body.Assembled

namespace JvmClass

/-!
# Sizes of bodies

An assembled body is longer than what its frames and its other attributes were read
from by no more than its instructions and the rows of its tables take.
-/

/-- Moving a frame makes it longer by no more than a distance. -/
theorem StackMap.Frame.length_encode_withDelta
    (delta : UInt16)
    (frame : Frame) :
    (frame.withDelta delta).encode.length ≤ frame.encode.length + 2 := by
  cases frame <;>
    simp only [withDelta, sameAt, oneStackAt] <;>
      (try split) <;>
        simp [encode, Bytes.length_ofUInt16] <;>
          omega

namespace Bytes

/-- A table of rows of one size. -/
theorem length_table16
    {α : Type}
    {encode : α → Bytes}
    {size : Nat}
    (each : ∀ row, (encode row).length = size)
    (rows : List α) :
    (table16 encode rows).length = 2 + rows.length * size := by
  simp only [table16, List.length_append, length_count16, List.length_flatMap, each,
    List.map_const', List.sum_replicate_nat]

end Bytes

namespace Attribute

theorem sizeAll_eq (items : List Attribute) : sizeAll items = (items.map size).sum := by
  induction items with
  | nil => rfl
  | cons item items inductionHypothesis =>
      rw [sizeAll, inductionHypothesis, List.map_cons, List.sum_cons]

theorem sizeAll_append
    (first second : List Attribute) :
    sizeAll (first ++ second) = sizeAll first + sizeAll second := by
  induction first with
  | nil => simp [sizeAll]
  | cons item first inductionHypothesis =>
      rw [List.cons_append, sizeAll, sizeAll, inductionHypothesis, Nat.add_assoc]

end Attribute

open Attribute

namespace Body

/-- The number of bytes of the frames of a body and of its attributes that are no tables. -/
def looseSize (body : Body) : Nat :=
  (body.frames.map fun placed => placed.frame.encode.length).sum + sizeAll body.attributes

theorem size_lineNumberTable (rows : List LineEntry) :
    (Attribute.lineNumberTable rows).size = 8 + rows.length * 4 := by
  have each (row : LineEntry) : row.encode.length = 4 := by simp [LineEntry.encode]
  show 6 + (Bytes.table16 LineEntry.encode rows).length = _
  rw [Bytes.length_table16 each]
  omega

theorem size_localVariableTable (rows : List LocalEntry) :
    (Attribute.localVariableTable rows).size = 8 + rows.length * 10 := by
  have each (row : LocalEntry) : row.encode.length = 10 := by simp [LocalEntry.encode]
  show 6 + (Bytes.table16 LocalEntry.encode rows).length = _
  rw [Bytes.length_table16 each]
  omega

theorem size_stackMapTable (frames : List StackMap.Frame) :
    (Attribute.stackMapTable frames).size =
      8 + (frames.map fun frame => frame.encode.length).sum := by
  show 6 + (Bytes.table16 StackMap.Frame.encode frames).length = _
  rw [Bytes.table16, List.length_append, Bytes.length_count16, List.length_flatMap]
  omega

/-- Frames and other attributes take no more bytes than the attributes that they are from. -/
theorem Tables.size_le
    {decoded : Decoded}
    {attributes : List Attribute}
    {tables : Tables}
    (read : ofAttributes decoded attributes = .ok tables) :
    (tables.frames.map fun row => row.2.encode.length).sum + sizeAll tables.attributes ≤
      sizeAll attributes := by
  obtain ⟨folded, added, same⟩ := bind_eq_ok_iff.mp read
  cases same
  let loose (tables : Tables) : Nat :=
    (tables.frames.map fun row => row.2.encode.length).sum + sizeAll tables.attributes
  have bounded : loose folded ≤ sizeAll attributes := by
    refine
      foldlM_keeps_row (fun done tables => loose tables ≤ sizeAll done) added ?_ (Nat.le_refl _)
    intro done before item after stepped bounded
    rw [sizeAll_append]
    refine Nat.le_trans ?_ (Nat.add_le_add_right bounded _)
    cases add_eq_ok_iff.mp stepped with
    | lines | locals => exact Nat.le_add_right _ _
    | @frames frames placed located =>
        have rows : frames = _ := located.placed.1.symm
        rw [sizeAll, sizeAll, size_stackMapTable, rows, List.map_map]
        simp only [loose, List.map_append, List.sum_append, List.map_reverse, List.sum_reverse,
          Function.comp_def]
        omega
    | other noTable =>
        simp only [loose, sizeAll]
        omega
  simpa [loose, sizeAll_eq, List.map_reverse, List.sum_reverse] using bounded

theorem FrameRows.size_le
    {labels : PlacedLabels}
    {base : Nat}
    {placed : List PlacedFrame}
    {frames : List StackMap.Frame}
    {offsets : List (Nat × StackMap.Frame)}
    (rows : FrameRows labels base placed frames offsets) :
    (frames.map fun frame => frame.encode.length).sum ≤
      (placed.map fun placed => placed.frame.encode.length).sum + 2 * placed.length := by
  induction rows with
  | nil base => exact Nat.le_refl _
  | @cons base first frame rest frames offsets moved _ _ inductionHypothesis =>
      have longer := first.frame.length_encode_withDelta frame.delta
      rw [← moved] at longer
      simp only [List.map_cons, List.sum_cons, List.length_cons]
      omega

/-- A body that was read is no larger, apart from its instructions and tables, than it was. -/
theorem DecodesTo.looseSize_le
    {pool : Pool}
    {raw : CodeAttribute Attribute}
    {body : Body}
    {decoded : Decoded}
    {tables : Tables}
    (decodes : DecodesTo pool raw body decoded tables) :
    body.looseSize ≤ (Attribute.code raw).size := by
  have tablesSize := Tables.size_le decodes.tablesRead
  have loose :
      body.looseSize =
        (tables.frames.map fun row => row.2.encode.length).sum + sizeAll tables.attributes := by
    rw [decodes.shape, looseSize, List.map_map]
    rfl
  rw [loose, size_code]
  omega

/-- A table is no larger than its rows and what frames it. -/
theorem sizeAll_tableAttribute_le
    {α : Type}
    {make : List α → Attribute}
    {rows : List α}
    {bound : Nat}
    (size : (make rows).size ≤ bound) :
    sizeAll (tableAttribute make rows) ≤ bound := by
  unfold tableAttribute
  split
  · exact Nat.zero_le _
  · simpa only [sizeAll, Nat.add_zero] using size

theorem length_codeHead (raw : CodeAttribute Attribute) :
    (codeHead raw).length = 10 + raw.code.length + raw.handlers.length * 8 := by
  have each (row : HandlerEntry) : row.encode.length = 8 := by simp [HandlerEntry.encode]
  rw [codeHead, List.length_append, Bytes.length_table16 each]
  simp only [List.length_append, Bytes.length_ofUInt16, Bytes.length_count32]
  omega

/-- An assembled body takes little more than its frames and its other attributes. -/
theorem Assembled.size_le
    {pool start grown after : Pool}
    {body : Body}
    {labels : PlacedLabels}
    {written : List (Nat × Insn)}
    {offsets : List (Nat × StackMap.Frame)}
    {raw : CodeAttribute Attribute}
    (assembled : body.Assembled start grown after labels written offsets raw)
    (writable : body.Writable pool) :
    (Attribute.code raw).size ≤ 2 ^ 21 + body.looseSize := by
  obtain ⟨lines, locals, linesLength, localsLength, attributes⟩ := assembled.attributes
  have frames := assembled.frames.size_le
  have code := assembled.layout.short
  have handlers := Nat.lt_of_le_of_lt assembled.fewRows writable.fewHandlers
  have fewLines := writable.fewLines
  have fewLocals := writable.fewLocals
  have fewFrames := assembled.fewFrames writable
  have linesSize := sizeAll_tableAttribute_le (Nat.le_of_eq (size_lineNumberTable lines))
  have localsSize := sizeAll_tableAttribute_le (Nat.le_of_eq (size_localVariableTable locals))
  have framesSize :=
    sizeAll_tableAttribute_le (Nat.le_of_eq (size_stackMapTable (offsets.map Prod.snd)))
  rw [size_code, length_codeHead, attributes, sizeAll_append, sizeAll_append, sizeAll_append,
    looseSize]
  omega

end Body
end JvmClass
