import JvmClass.Proofs.Attribute.Codec

namespace JvmClass.Attribute

/-!
# Sizes of attributes

An attribute takes as many bytes as it was read from, whatever number its name gets.
-/

open Reader

mutual

/-- The number of bytes that an attribute is written in. -/
def size : Attribute → Nat
  | .code ⟨maxStack, maxLocals, bytes, handlers, attributes⟩ =>
      6 + (codeHead ⟨maxStack, maxLocals, bytes, handlers, attributes⟩).length + 2 +
        sizeAll attributes
  | other => 6 + other.flatContent.length

/-- The number of bytes that attributes are written in. -/
def sizeAll : List Attribute → Nat
  | [] => 0
  | first :: rest => size first + sizeAll rest

end

theorem length_frame
    (name : UInt16)
    (content : Bytes) :
    (frame name content).length = 6 + content.length := by
  simp only [frame, List.length_append, Bytes.length_ofUInt16, Bytes.length_count32]

mutual

theorem length_encode
    (item : Attribute)
    (pool : Pool) :
    (encode item pool).1.length = item.size := by
  cases item with
  | code raw =>
      obtain ⟨maxStack, maxLocals, bytes, handlers, attributes⟩ := raw
      show (frame _ (_ ++ Bytes.count16 attributes ++ (encodeAll [] attributes _).1)).length = _
      rw [length_frame, List.length_append, List.length_append, length_encodeAll,
        Bytes.length_count16, size]
      simp only [List.flatten_nil, List.length_nil]
      omega
  | _ => exact length_frame _ _

theorem length_encodeAll
    (done : List Bytes)
    (items : List Attribute)
    (pool : Pool) :
    (encodeAll done items pool).1.length = done.flatten.length + sizeAll items := by
  cases items with
  | nil => simp [encodeAll, pure_apply, sizeAll]
  | cons first rest =>
      have here := length_encode first pool
      show (encodeAll ((encode first pool).1 :: done) rest (encode first pool).2).1.length = _
      rw [length_encodeAll, sizeAll, List.flatten_cons, List.length_append, here]
      omega

end

theorem length_encodeTable
    (items : List Attribute)
    (pool : Pool) :
    (encodeTable items pool).1.length = 2 + sizeAll items := by
  show (Bytes.count16 items ++ (encodeAll [] items pool).1).length = _
  rw [List.length_append, Bytes.length_count16, length_encodeAll, List.flatten_nil,
    List.length_nil, Nat.zero_add]

theorem size_of_leaf
    {item : Attribute}
    (leaf : item.Leaf) :
    item.size = 6 + item.flatContent.length := by
  cases item with
  | code raw => exact leaf.elim
  | _ => rfl

theorem size_code (raw : CodeAttribute Attribute) :
    (code raw).size = 6 + (codeHead raw).length + 2 + sizeAll raw.attributes :=
  rfl

/-- Attributes that were each read from some bytes take as many bytes. -/
theorem sizeAll_of_forall₂
    {pieces : List Bytes}
    {items : List Attribute}
    (sizes : List.Forall₂ (fun piece item => size item = piece.length) pieces items) :
    sizeAll items = pieces.flatten.length := by
  induction sizes with
  | nil => rfl
  | cons first _ inductionHypothesis =>
      rw [sizeAll, first, inductionHypothesis, List.flatten_cons, List.length_append]

/-- An attribute takes as many bytes as it was read from. -/
theorem size_of_reads
    {pool : Pool}
    {depth : Nat}
    {taken : Bytes}
    {item : Attribute}
    (reads : (reader pool depth).Reads taken item) :
    item.size = taken.length := by
  induction depth generalizing taken item with
  | zero => exact absurd reads not_reads_fail
  | succ depth inductionHypothesis =>
      obtain ⟨_, _, content, rfl, _, _, opened⟩ := reads_reader_iff.mp reads
      rw [length_frame]
      obtain ⟨_, ⟨leaf, rfl⟩ | ⟨body, rfl, bodyReads⟩⟩ :=
        leaf_of_ofContent (local_tableReader pool depth) opened
      · exact size_of_leaf leaf
      · obtain ⟨_, behind, rfl, nestedReads⟩ :=
          (reads_codeReader_iff (local_tableReader pool depth)).mp bodyReads
        obtain ⟨pieces, all, _, rfl⟩ :=
          (reads_table16_iff (local_reader pool depth)).mp nestedReads
        rw [size_code, sizeAll_of_forall₂ (all.imp fun _ _ => inductionHypothesis)]
        simp only [List.length_append, Bytes.length_count16]
        omega

/-- The attributes of a table take no more bytes than it was read from. -/
theorem sizeAll_le_of_reads
    {pool : Pool}
    {depth : Nat}
    {taken : Bytes}
    {items : List Attribute}
    (reads : (tableReader pool depth).Reads taken items) :
    sizeAll items ≤ taken.length := by
  obtain ⟨pieces, all, _, rfl⟩ := (reads_table16_iff (local_reader pool depth)).mp reads
  rw [sizeAll_of_forall₂ (all.imp fun _ _ => size_of_reads), List.length_append]
  exact Nat.le_add_left _ _

end JvmClass.Attribute
