import JvmClass.Proofs.ClassModel.Growing
import JvmClass.Proofs.ClassModel.Read

namespace JvmClass

/-!
# Members tell where they end

An attribute says how long it is and a member says how many attributes it has.
So where a member was written, whatever is read as a member is made of the same
pieces, even if what is inside a piece is not read as it was written.
-/

open Reader

/-! ## Pieces in a row -/

/-- No bytes of a kind are continued by others of that kind. -/
def Bytes.Delimited (kind : Bytes → Prop) : Prop :=
  ∀ {first second rest last : Bytes},
    kind first → kind second → first ++ rest = second ++ last → first = second ∧ rest = last

/-- As many delimited pieces in a row are the same pieces. -/
theorem Bytes.Delimited.flatten
    {kind : Bytes → Prop}
    {firsts seconds : List Bytes}
    {rest last : Bytes}
    (delimited : Delimited kind)
    (firstKind : ∀ piece ∈ firsts, kind piece)
    (secondKind : ∀ piece ∈ seconds, kind piece)
    (count : firsts.length = seconds.length)
    (same : firsts.flatten ++ rest = seconds.flatten ++ last) :
    firsts = seconds ∧ rest = last := by
  induction firsts generalizing seconds with
  | nil =>
      obtain rfl := List.eq_nil_of_length_eq_zero count.symm
      exact ⟨rfl, same⟩
  | cons first firsts inductionHypothesis =>
      cases seconds with
      | nil => cases count
      | cons second seconds =>
          rw [List.forall_mem_cons] at firstKind secondKind
          rw [List.flatten_cons, List.flatten_cons, List.append_assoc, List.append_assoc] at same
          obtain ⟨rfl, behind⟩ := delimited firstKind.1 secondKind.1 same
          obtain ⟨rfl, ended⟩ :=
            inductionHypothesis firstKind.2 secondKind.2 (Nat.succ.inj count) behind
          exact ⟨rfl, ended⟩

theorem Bytes.ofUInt16_append_inj
    {first second : UInt16}
    {rest last : Bytes}
    (same : ofUInt16 first ++ rest = ofUInt16 second ++ last) :
    first = second ∧ rest = last := by
  have found := reads_u2_iff.mpr (rfl : ofUInt16 first = _) rest
  rw [same, reads_u2_iff.mpr rfl last] at found
  obtain ⟨rfl, rfl⟩ := Prod.mk.inj (Except.ok.inj found)
  exact ⟨rfl, rfl⟩

theorem Bytes.ofUInt32_append_inj
    {first second : UInt32}
    {rest last : Bytes}
    (same : ofUInt32 first ++ rest = ofUInt32 second ++ last) :
    first = second ∧ rest = last := by
  have found := reads_u4_iff.mpr (rfl : ofUInt32 first = _) rest
  rw [same, reads_u4_iff.mpr rfl last] at found
  obtain ⟨rfl, rfl⟩ := Prod.mk.inj (Except.ok.inj found)
  exact ⟨rfl, rfl⟩

/-! ## Attributes -/

namespace Attribute

/-- Two framed contents at the same place are the same. -/
theorem frame_append_inj
    {name other : UInt16}
    {content found rest last : Bytes}
    (short : content.length < 2 ^ 32)
    (foundShort : found.length < 2 ^ 32)
    (same : frame name content ++ rest = frame other found ++ last) :
    name = other ∧ content = found ∧ rest = last := by
  simp only [frame, Bytes.count32, List.append_assoc] at same
  obtain ⟨names, same⟩ := Bytes.ofUInt16_append_inj same
  obtain ⟨lengths, same⟩ := Bytes.ofUInt32_append_inj same
  have counts := congrArg UInt32.toNat lengths
  rw [UInt32.toNat_ofNat_of_lt' short, UInt32.toNat_ofNat_of_lt' foundShort] at counts
  obtain ⟨contents, ended⟩ := List.append_inj same counts
  exact ⟨names, contents, ended⟩

/-- Bytes are a name and a content with its length in front of it. -/
def Framed (bytes : Bytes) : Prop :=
  ∃ name content, bytes = frame name content ∧ content.length < 2 ^ 32

theorem delimited_framed : Bytes.Delimited Framed := by
  rintro _ _ rest last ⟨name, content, rfl, short⟩ ⟨other, found, rfl, foundShort⟩ same
  obtain ⟨rfl, rfl, ended⟩ := frame_append_inj short foundShort same
  exact ⟨rfl, ended⟩

theorem framed_of_reads
    {pool : Pool}
    {depth : Nat}
    {taken : Bytes}
    {item : Attribute}
    (reads : (reader pool depth).Reads taken item) :
    Framed taken := by
  cases depth with
  | zero => exact absurd reads not_reads_fail
  | succ depth =>
      obtain ⟨name, _, content, shape, short, _⟩ := reads_reader_iff.mp reads
      exact ⟨name, content, shape, short⟩

/-- An attribute is written as a content with its length in front of it. -/
theorem exists_frame_of_encode
    (item : Attribute)
    (pool : Pool) :
    ∃ name content, (item.encode pool).1 = frame name content := by
  cases item with
  | code body =>
      obtain ⟨maxStack, maxLocals, code, handlers, attributes⟩ := body
      rw [encode]
      exact ⟨_, _, rfl⟩
  | _ =>
      rw [encode]
      · exact ⟨_, _, rfl⟩
      · rintro _ _ _ _ _ ⟨⟩

/-- Attributes in a row are written as one framed content for each. -/
theorem exists_frames_of_encodeAll
    {done : List Bytes}
    (items : List Attribute)
    (pool : Pool) :
    ∃ pieces,
      (encodeAll done items pool).1 = (done.reverse ++ pieces).flatten ∧
        pieces.length = items.length ∧
          ∀ piece ∈ pieces, ∃ name content, piece = frame name content := by
  induction items generalizing done pool with
  | nil => exact ⟨[], by simp [encodeAll, pure_apply], rfl, by simp⟩
  | cons item items inductionHypothesis =>
      obtain ⟨pieces, shape, count, framed⟩ :=
        @inductionHypothesis ((item.encode pool).1 :: done) (item.encode pool).2
      refine ⟨(item.encode pool).1 :: pieces, ?_, by simp [count], ?_⟩
      · have unfolded :
            encodeAll done (item :: items) pool =
              encodeAll ((item.encode pool).1 :: done) items (item.encode pool).2 := by
          rw [encodeAll]
          rfl
        rw [unfolded, shape]
        simp
      · rw [List.forall_mem_cons]
        exact ⟨exists_frame_of_encode item pool, framed⟩

end Attribute

/-! ## Members -/

namespace MemberInfo

/-- A member of three numbers and framed attributes. -/
def framed (access name descriptor : UInt16) (pieces : List Bytes) : Bytes :=
  Bytes.ofUInt16 access ++ (Bytes.ofUInt16 name ++ (Bytes.ofUInt16 descriptor ++
    (Bytes.count16 pieces ++ pieces.flatten)))

/-- Bytes are a member whose attributes are framed. -/
def Framed (bytes : Bytes) : Prop :=
  ∃ access name descriptor pieces,
    bytes = framed access name descriptor pieces ∧ pieces.length < 2 ^ 16 ∧
      ∀ piece ∈ pieces, Attribute.Framed piece

/-- Two members at the same place are made of the same pieces. -/
theorem framed_append_inj
    {access name descriptor otherAccess otherName otherDescriptor : UInt16}
    {pieces others : List Bytes}
    {rest last : Bytes}
    (short : pieces.length < 2 ^ 16)
    (otherShort : others.length < 2 ^ 16)
    (pieceFramed : ∀ piece ∈ pieces, Attribute.Framed piece)
    (otherFramed : ∀ piece ∈ others, Attribute.Framed piece)
    (same :
      framed access name descriptor pieces ++ rest =
        framed otherAccess otherName otherDescriptor others ++ last) :
    (access = otherAccess ∧ name = otherName ∧ descriptor = otherDescriptor ∧ pieces = others) ∧
      rest = last := by
  simp only [framed, Bytes.count16, List.append_assoc] at same
  obtain ⟨accesses, same⟩ := Bytes.ofUInt16_append_inj same
  obtain ⟨names, same⟩ := Bytes.ofUInt16_append_inj same
  obtain ⟨descriptors, same⟩ := Bytes.ofUInt16_append_inj same
  obtain ⟨counts, same⟩ := Bytes.ofUInt16_append_inj same
  have lengths := congrArg UInt16.toNat counts
  rw [UInt16.toNat_ofNat_of_lt' short, UInt16.toNat_ofNat_of_lt' otherShort] at lengths
  obtain ⟨rfl, ended⟩ :=
    Attribute.delimited_framed.flatten pieceFramed otherFramed lengths same
  exact ⟨⟨accesses, names, descriptors, rfl⟩, ended⟩

theorem delimited_framed : Bytes.Delimited Framed := by
  rintro _ _ rest last ⟨_, _, _, pieces, rfl, short, pieceFramed⟩
    ⟨_, _, _, others, rfl, otherShort, otherFramed⟩ same
  obtain ⟨⟨rfl, rfl, rfl, rfl⟩, ended⟩ :=
    framed_append_inj short otherShort pieceFramed otherFramed same
  exact ⟨rfl, ended⟩

/-- What is read as a member is framed, one piece for each attribute. -/
theorem exists_framed_of_reads
    {pool : Pool}
    {depth : Nat}
    {taken : Bytes}
    {info : MemberInfo}
    (reads : (reader pool depth).Reads taken info) :
    ∃ pieces,
      taken = framed info.access info.name info.descriptor pieces ∧
        pieces.length < 2 ^ 16 ∧
          List.Forall₂ (Attribute.reader pool depth).Reads pieces info.attributes := by
  obtain ⟨behind, rfl, table⟩ := reads_reader_iff.mp reads
  obtain ⟨pieces, rows, short, rfl⟩ :=
    (reads_table16_iff (Attribute.local_reader pool depth)).mp table
  refine ⟨pieces, ?_, rows.length_eq ▸ short, rows⟩
  rw [framed, Bytes.count16, Bytes.count16, rows.length_eq]

theorem framed_of_reads
    {pool : Pool}
    {depth : Nat}
    {taken : Bytes}
    {info : MemberInfo}
    (reads : (reader pool depth).Reads taken info) :
    Framed taken := by
  obtain ⟨pieces, shape, short, rows⟩ := exists_framed_of_reads reads
  refine ⟨_, _, _, pieces, shape, short, fun piece member => ?_⟩
  obtain ⟨item, _, itemReads⟩ := exists_of_forall₂ (List.Forall₂.flip rows) member
  exact Attribute.framed_of_reads itemReads

end MemberInfo

end JvmClass
