import JvmClass.Proofs.Attribute.Size
import JvmClass.Proofs.Pool.Growing
import JvmClass.Proofs.Pool.Invariant

namespace JvmClass.Attribute

/-!
# Attributes survive their bytes

Writing an attribute adds its names to the pool, and those of the attributes
inside it.  Against the pool that this leaves, the bytes are read as the same
attribute, as long as everything in it can be counted.  Nothing else is ever
read: whatever comes out of bytes can be counted, at every depth.
-/

open Reader

/-- Everything in an attribute can be counted, at every depth and whatever the pool knows. -/
inductive Encodable : Attribute → Prop
  | leaf
      {item : Attribute}
      (isLeaf : item.Leaf)
      (small : item.flatContent.length < 2 ^ 32) :
      Encodable item
  | body
      {content : CodeAttribute Attribute}
      (head : HeadFits content)
      (short : content.attributes.length < 2 ^ 16)
      (small : (codeHead content).length + 2 + sizeAll content.attributes < 2 ^ 32)
      (nested : ∀ item ∈ content.attributes, Encodable item) :
      Encodable (.code content)

/-! ## Reading what was written -/

/-- The bytes are read as the attribute at every depth that is no less than their number. -/
def ReadsDeep
    (pool : Pool)
    (bytes : Bytes)
    (item : Attribute) : Prop :=
  ∀ depth, bytes.length ≤ depth → (reader pool depth).Reads bytes item

/-- Attributes in a row are each read at the depth that is enough for the row. -/
theorem reads_row_of_readsDeep
    {pool : Pool}
    {depth : Nat}
    {pieces : List Bytes}
    {items : List Attribute}
    (each : List.Forall₂ (ReadsDeep pool) pieces items)
    (deep : pieces.flatten.length ≤ depth) :
    List.Forall₂ (reader pool depth).Reads pieces items := by
  induction each with
  | nil => exact .nil
  | cons first _ inductionHypothesis =>
      simp only [List.flatten_cons, List.length_append] at deep
      exact .cons (first depth (by omega)) (inductionHypothesis (by omega))

section Written

variable {pool after last : Pool}

/-- A name that was interned stands in every pool that the next one leads to. -/
theorem text_of_internText
    {text : String}
    {number : UInt16}
    (coherent : pool.Coherent)
    (interned : Pool.internText text pool = (number, after))
    (leads : after.LeadsTo last)
    (fits : last.size ≤ 2 ^ 16) :
    after.Coherent ∧ last.text number = .ok text := by
  obtain ⟨advances, stands⟩ :=
    Pool.advances_internText coherent interned (Nat.le_trans leads.kept.size_le fits)
  exact ⟨advances.coherent, leads.kept.textAt stands⟩

/--
Attributes in a row are written one behind the other, and if each is read against
every pool that it leads to, each is against the pool that the row leads to.
-/
theorem exists_pieces_of_encodeAll
    {done : List Bytes}
    {items : List Attribute}
    {bytes : Bytes}
    (each :
      ∀ item ∈ items, ∀ (pool after : Pool) (bytes : Bytes),
        pool.Coherent → encode item pool = (bytes, after) → after.LeadsTo last →
          ReadsDeep last bytes item)
    (coherent : pool.Coherent)
    (encoded : encodeAll done items pool = (bytes, after))
    (leads : after.LeadsTo last)
    (fits : last.size ≤ 2 ^ 16) :
    ∃ pieces,
      bytes = done.reverse.flatten ++ pieces.flatten ∧
        List.Forall₂ (ReadsDeep last) pieces items := by
  induction items generalizing done pool with
  | nil =>
      rw [encodeAll] at encoded
      cases encoded
      exact ⟨[], by simp, .nil⟩
  | cons item rest inductionHypothesis =>
      rcases first : encode item pool with ⟨piece, next⟩
      have others : encodeAll (piece :: done) rest next = (bytes, after) := by
        rw [encodeAll] at encoded
        simpa only [bind, StateT.bind, first] using encoded
      rw [List.forall_mem_cons] at each
      have toFirst := growing_encode item pool
      have fromFirst := growing_encodeAll (piece :: done) rest next
      rw [first] at toFirst
      rw [others] at fromFirst
      have toLast := fromFirst.trans leads
      have nextFits := Nat.le_trans toLast.kept.size_le fits
      obtain ⟨pieces, rfl, all⟩ :=
        inductionHypothesis each.2 (toFirst.advances coherent nextFits).coherent others
      exact
        ⟨piece :: pieces, by simp, .cons (each.1 pool next piece coherent first toLast) all⟩

/-- What is written for an attribute is read as it against every pool that this leads to. -/
theorem Encodable.readsDeep
    {item : Attribute}
    {bytes : Bytes}
    (encodable : item.Encodable)
    (coherent : pool.Coherent)
    (encoded : encode item pool = (bytes, after))
    (leads : after.LeadsTo last)
    (fits : last.size ≤ 2 ^ 16) :
    ReadsDeep last bytes item := by
  induction encodable generalizing pool after bytes with
  | @leaf item isLeaf small =>
      rcases interned : Pool.internText item.name pool with ⟨nameIndex, next⟩
      have written : encode item pool = (frame nameIndex item.flatContent, next) := by
        cases item with
        | code body => exact isLeaf.elim
        | _ => simp only [encode, bind, StateT.bind, interned, pure_apply]
      cases written.symm.trans encoded
      obtain ⟨_, named⟩ := text_of_internText coherent interned leads fits
      intro depth deep
      rw [length_frame] at deep
      obtain ⟨depth, rfl⟩ : ∃ less, depth = less + 1 := ⟨depth - 1, by omega⟩
      exact reads_of_leaf named isLeaf small
  | @body content head short small _ inductionHypothesis =>
      rcases interned : Pool.internText "Code" pool with ⟨nameIndex, next⟩
      rcases nestedEncoded : encodeAll [] content.attributes next with ⟨nested, middle⟩
      have written :
          encode (.code content) pool =
            (frame nameIndex (codeHead content ++ (Bytes.count16 content.attributes ++ nested)),
              middle) := by
        obtain ⟨maxStack, maxLocals, code, handlers, attributes⟩ := content
        simp only [encode, bind, StateT.bind, interned, nestedEncoded, pure_apply,
          List.append_assoc]
      cases written.symm.trans encoded
      have toLast := growing_encodeAll [] content.attributes next
      rw [nestedEncoded] at toLast
      obtain ⟨nextCoherent, named⟩ :=
        text_of_internText coherent interned (toLast.trans leads) fits
      have length := length_encodeAll [] content.attributes next
      rw [nestedEncoded] at length
      simp only [List.flatten_nil, List.length_nil, Nat.zero_add] at length
      obtain ⟨pieces, rfl, all⟩ :=
        exists_pieces_of_encodeAll
          (fun item member pool after bytes coherent encoded leads =>
            inductionHypothesis item member coherent encoded leads)
          nextCoherent nestedEncoded leads fits
      simp only [List.reverse_nil, List.flatten_nil, List.nil_append] at length ⊢
      intro depth deep
      simp only [length_frame, List.length_append, Bytes.length_count16] at deep
      obtain ⟨depth, rfl⟩ : ∃ less, depth = less + 1 := ⟨depth - 1, by omega⟩
      refine reads_of_body named head ?_ ?_
      · simp only [List.length_append, Bytes.length_count16]
        omega
      · exact (reads_table16_iff (local_reader last depth)).mpr
          ⟨pieces, reads_row_of_readsDeep all (by omega), short, rfl⟩

/-- What is written for a table of attributes is read as it. -/
theorem reads_table_of_encodable
    {items : List Attribute}
    {bytes : Bytes}
    {depth : Nat}
    (short : items.length < 2 ^ 16)
    (encodable : ∀ item ∈ items, item.Encodable)
    (coherent : pool.Coherent)
    (encoded : encodeTable items pool = (bytes, after))
    (fits : after.size ≤ 2 ^ 16)
    (deep : bytes.length ≤ depth) :
    (tableReader after depth).Reads bytes items := by
  rcases allEncoded : encodeAll [] items pool with ⟨row, next⟩
  have written : encodeTable items pool = (Bytes.count16 items ++ row, next) := by
    simp only [encodeTable, bind, StateT.bind, allEncoded, pure_apply]
  cases written.symm.trans encoded
  obtain ⟨pieces, rfl, all⟩ :=
    exists_pieces_of_encodeAll
      (fun item member pool after bytes coherent encoded leads =>
        (encodable item member).readsDeep coherent encoded leads fits)
      coherent allEncoded (.refl _) fits
  simp only [List.reverse_nil, List.flatten_nil, List.nil_append, List.length_append,
    Bytes.length_count16] at deep ⊢
  exact (reads_table16_iff (local_reader _ depth)).mpr
    ⟨pieces, reads_row_of_readsDeep all (by omega), short, rfl⟩

end Written

/-! ## What can be read -/

/-- Whatever is read as an attribute can be counted. -/
theorem encodable_of_reads
    {pool : Pool}
    {depth : Nat}
    {taken : Bytes}
    {item : Attribute}
    (reads : (reader pool depth).Reads taken item) :
    item.Encodable := by
  induction depth generalizing taken item with
  | zero => exact absurd reads not_reads_fail
  | succ depth inductionHypothesis =>
      obtain ⟨_, _, content, rfl, small, _, opened⟩ := reads_reader_iff.mp reads
      obtain ⟨_, ⟨isLeaf, rfl⟩ | ⟨body, rfl, bodyReads⟩⟩ :=
        leaf_of_ofContent (local_tableReader pool depth) opened
      · exact .leaf isLeaf small
      · obtain ⟨head, behind, rfl, nestedReads⟩ :=
          (reads_codeReader_iff (local_tableReader pool depth)).mp bodyReads
        obtain ⟨pieces, all, short, rfl⟩ :=
          (reads_table16_iff (local_reader pool depth)).mp nestedReads
        refine .body head short ?_ ?_
        · rw [sizeAll_of_forall₂ (all.imp fun _ _ => size_of_reads)]
          simp only [List.length_append, Bytes.length_count16] at small
          omega
        · intro inner member
          obtain ⟨_, _, innerReads⟩ := exists_of_forall₂ all member
          exact inductionHypothesis innerReads

/-- What is read at one depth is read at every depth that is no less than its bytes. -/
theorem readsDeep_of_reads
    {pool : Pool}
    {depth : Nat}
    {taken : Bytes}
    {item : Attribute}
    (reads : (reader pool depth).Reads taken item) :
    ReadsDeep pool taken item := by
  induction depth generalizing taken item with
  | zero => exact absurd reads not_reads_fail
  | succ depth inductionHypothesis =>
      obtain ⟨nameIndex, name, content, rfl, small, named, opened⟩ := reads_reader_iff.mp reads
      intro other deep
      rw [length_frame] at deep
      obtain ⟨other, rfl⟩ : ∃ less, other = less + 1 := ⟨other - 1, by omega⟩
      obtain ⟨rfl, ⟨isLeaf, rfl⟩ | ⟨body, rfl, bodyReads⟩⟩ :=
        leaf_of_ofContent (local_tableReader pool depth) opened
      · exact reads_of_leaf named isLeaf small
      · obtain ⟨head, behind, rfl, nestedReads⟩ :=
          (reads_codeReader_iff (local_tableReader pool depth)).mp bodyReads
        obtain ⟨pieces, all, short, rfl⟩ :=
          (reads_table16_iff (local_reader pool depth)).mp nestedReads
        simp only [List.length_append, Bytes.length_count16] at deep
        have row := reads_row_of_readsDeep (all.imp fun _ _ => inductionHypothesis)
          (show pieces.flatten.length ≤ other by omega)
        exact reads_of_body named head small
          ((reads_table16_iff (local_reader pool other)).mpr ⟨pieces, row, short, rfl⟩)

/--
For a pool that was adopted or began empty, and was then asked for any constants:
attributes that can be counted are read back from what is written for them, one
alone and a table of them, against the pool that writing leaves, if that can be
counted too.  And whatever pool attributes are read against, they can be counted.
-/
theorem reads_of_encode_and_encodable_of_reads
    {entries : Array Entry}
    {start pool : Pool}
    {constants : List Constant}
    {numbers : List UInt16}
    (begins : Pool.Begins entries start)
    (asked : Pool.internAll constants start = (numbers, pool)) :
    (∀ (item : Attribute) (bytes : Bytes) (after : Pool) (depth : Nat),
      item.Encodable →
        encode item pool = (bytes, after) → after.size ≤ 65535 → bytes.length ≤ depth →
          (reader after depth).Reads bytes item) ∧
      (∀ (items : List Attribute) (bytes : Bytes) (after : Pool) (depth : Nat),
        items.length < 2 ^ 16 → (∀ item ∈ items, item.Encodable) →
          encodeTable items pool = (bytes, after) → after.size ≤ 65535 → bytes.length ≤ depth →
            (tableReader after depth).Reads bytes items) ∧
        ∀ (other : Pool) (depth : Nat) (bytes rest : Bytes) (items : List Attribute),
          tableReader other depth bytes = .ok (items, rest) →
            items.length < 2 ^ 16 ∧ ∀ item ∈ items, item.Encodable := by
  refine ⟨?_, ?_, ?_⟩
  · intro item bytes after depth encodable encoded short deep
    have fits : after.size ≤ 2 ^ 16 := Nat.le_succ_of_le short
    have kept := (growing_encode item pool).kept.size_le
    rw [encoded] at kept
    have coherent := begins.coherent_of_internAll asked (Nat.le_trans kept fits)
    exact encodable.readsDeep coherent encoded (.refl _) fits depth deep
  · intro items bytes after depth count encodable encoded short deep
    have fits : after.size ≤ 2 ^ 16 := Nat.le_succ_of_le short
    have kept := (growing_encodeTable items pool).kept.size_le
    rw [encoded] at kept
    have coherent := begins.coherent_of_internAll asked (Nat.le_trans kept fits)
    exact reads_table_of_encodable count encodable coherent encoded fits deep
  · intro other depth bytes rest items read
    obtain ⟨taken, _, reads⟩ := local_tableReader other depth _ _ _ read
    obtain ⟨pieces, all, count, rfl⟩ := (reads_table16_iff (local_reader other depth)).mp reads
    refine ⟨count, ?_⟩
    intro item member
    obtain ⟨_, _, itemReads⟩ := exists_of_forall₂ all member
    exact encodable_of_reads itemReads

/-- A body that holds an unknown attribute and another body, which declares a frame. -/
def nestedBody : Attribute :=
  .code ⟨0, 1, [177], [],
    [.unknown "Custom" [7], .code ⟨0, 1, [0, 177], [], [.stackMapTable [.append 0 [.integer]]]⟩]⟩

/-- The nested bodies are written to a pool that knows the name of the outer one alone. -/
theorem reads_of_encode_nestedBody :
    ∃ pool bytes after,
      Pool.Begins #[.unusable] .empty ∧
        Pool.internAll [.utf8 "Code"] .empty = ([1], pool) ∧
          encodeTable [nestedBody] pool = (bytes, after) ∧
            bytes.length = 60 ∧ after.size = 4 ∧
              (tableReader after 60).Reads bytes [nestedBody] := by
  have encodable : nestedBody.Encodable := by
    refine .body ⟨by decide, by decide, by decide⟩ (by decide) (by decide +kernel) ?_
    simp only [List.forall_mem_cons, List.not_mem_nil, false_implies, implies_true, and_true]
    refine ⟨.leaf (fun _ => rfl) (by decide), ?_⟩
    refine .body ⟨by decide, by decide, by decide⟩ (by decide) (by decide +kernel) ?_
    simp only [List.forall_mem_cons, List.not_mem_nil, false_implies, implies_true, and_true]
    exact .leaf ⟨by decide, by simp [StackMap.Frame.Encodable]⟩ (by decide)
  have numbers : (Pool.internAll [.utf8 "Code"] .empty).1 = [1] := by decide +kernel
  have size :
      (encodeTable [nestedBody] (Pool.internAll [.utf8 "Code"] .empty).2).2.size = 4 := by
    decide +kernel
  rcases asked : Pool.internAll [.utf8 "Code"] .empty with ⟨_, pool⟩
  rw [asked] at numbers size
  subst numbers
  rcases written : encodeTable [nestedBody] pool with ⟨bytes, after⟩
  have length := length_encodeTable [nestedBody] pool
  rw [written] at length size
  obtain ⟨_, table, _⟩ := reads_of_encode_and_encodable_of_reads .empty asked
  have short : bytes.length = 60 := length.trans (by decide +kernel)
  exact
    ⟨pool, bytes, after, .empty, rfl, written, short, size,
      table [nestedBody] bytes after 60 (by decide) (by simpa using encodable) written
        (by rw [size]; decide) (Nat.le_of_eq short)⟩

end JvmClass.Attribute
