import JvmClass.Pool.Codec
import JvmClass.Proofs.Bytes.Reader
import JvmClass.Proofs.Pool.Intern
import JvmClass.Proofs.Text.ModifiedUtf8

namespace JvmClass

/-!
# Pools survive their bytes

An entry is read back from its bytes, and a pool from the bytes of its entries:
the reader supplies the unusable entries that the writer leaves out.
-/

open Reader

namespace Entry

/-! ## Entries -/

theorem local_operandReader (tag : UInt8) : Local (operandReader tag) := by
  unfold operandReader
  split
  case h_1 =>
    refine local_u2.bind fun length => (local_bytes _).bind fun bytes => ?_
    split
    · exact local_pure _
    · exact local_fail _
  case h_2 | h_3 => exact local_u4.bind fun _ => local_pure _
  case h_4 | h_5 => exact local_u8.bind fun _ => local_pure _
  case h_6 | h_7 | h_13 | h_16 | h_17 => exact local_u2.bind fun _ => local_pure _
  case h_8 | h_9 | h_10 | h_11 | h_14 | h_15 =>
    exact local_u2.bind fun _ => local_u2.bind fun _ => local_pure _
  case h_12 => exact local_u1.bind fun _ => local_u2.bind fun _ => local_pure _
  case h_18 => exact local_fail _

theorem local_reader : Local reader :=
  local_u1.bind local_operandReader

/-- No entry is read as one that cannot be used. -/
theorem usable_of_reads_operands
    {tag : UInt8}
    {taken : Bytes}
    {entry : Entry}
    (reads : (operandReader tag).Reads taken entry) :
    entry ≠ .unusable := by
  unfold operandReader at reads
  split at reads
  case h_1 =>
    obtain ⟨length, _, _, _, _, reads⟩ := (reads_bind_iff local_u2).mp reads
    obtain ⟨bytes, _, _, _, _, reads⟩ := (reads_bind_iff (local_bytes _)).mp reads
    split at reads
    · obtain ⟨_, rfl⟩ := reads_pure_iff.mp reads
      simp
    · exact absurd reads not_reads_fail
  case h_2 | h_3 =>
    obtain ⟨value, _, rfl⟩ := (reads_bind_pure_iff local_u4).mp reads
    simp
  case h_4 | h_5 =>
    obtain ⟨value, _, rfl⟩ := (reads_bind_pure_iff local_u8).mp reads
    simp
  case h_6 | h_7 | h_13 | h_16 | h_17 =>
    obtain ⟨value, _, rfl⟩ := (reads_bind_pure_iff local_u2).mp reads
    simp
  case h_8 | h_9 | h_10 | h_11 | h_14 | h_15 =>
    obtain ⟨first, _, _, _, _, reads⟩ := (reads_bind_iff local_u2).mp reads
    obtain ⟨second, _, rfl⟩ := (reads_bind_pure_iff local_u2).mp reads
    simp
  case h_12 =>
    obtain ⟨kind, _, _, _, _, reads⟩ := (reads_bind_iff local_u1).mp reads
    obtain ⟨target, _, rfl⟩ := (reads_bind_pure_iff local_u2).mp reads
    simp
  case h_18 => exact absurd reads not_reads_fail

theorem usable_of_reads
    {taken : Bytes}
    {entry : Entry}
    (reads : reader.Reads taken entry) :
    entry ≠ .unusable := by
  obtain ⟨tag, _, _, _, _, operands⟩ := (reads_bind_iff local_u1).mp reads
  exact usable_of_reads_operands operands

theorem reads_of_operands
    {tag : UInt8}
    {operands : Bytes}
    {entry : Entry}
    (reads : (operandReader tag).Reads operands entry) :
    reader.Reads (tag :: operands) entry :=
  Reads.bind (reads_u1_iff.mpr rfl) reads

/-- An entry with one number in two bytes is read from that number. -/
theorem reads_of_u2
    {make : UInt16 → Entry}
    {value : UInt16} :
    Reads (u2 >>= fun value => pure (make value)) (Bytes.ofUInt16 value) (make value) :=
  (reads_bind_pure_iff local_u2).mpr ⟨value, reads_u2_iff.mpr rfl, rfl⟩

/-- An entry with two numbers in two bytes each is read from those numbers. -/
theorem reads_of_u2_u2
    {make : UInt16 → UInt16 → Entry}
    {first second : UInt16} :
    Reads (u2 >>= fun first => u2 >>= fun second => pure (make first second))
      (Bytes.ofUInt16 first ++ Bytes.ofUInt16 second) (make first second) :=
  Reads.bind (reads_u2_iff.mpr rfl) reads_of_u2

/-- An entry is read back from its bytes. -/
theorem reads_of_encode
    {entry : Entry}
    {bytes : Bytes}
    (usable : entry ≠ .unusable)
    (encoded : encode entry = .ok bytes) :
    reader.Reads bytes entry := by
  cases entry with
  | unusable => exact absurd rfl usable
  | utf8 text =>
      unfold encode at encoded
      simp only at encoded
      split at encoded
      · rename_i short
        cases encoded
        have length :
            (UInt16.ofNat (ModifiedUtf8.encode text).length).toNat =
              (ModifiedUtf8.encode text).length :=
          UInt16.toNat_ofNat_of_lt' short
        refine reads_of_operands (Reads.bind (reads_u2_iff.mpr rfl) ?_)
        refine (reads_bind_iff (local_bytes _)).mpr
          ⟨_, _, [], (List.append_nil _).symm, reads_bytes_iff.mpr ⟨rfl, length.symm⟩, ?_⟩
        simp only [ModifiedUtf8.decode_encode]
        exact reads_pure_iff.mpr ⟨rfl, rfl⟩
      · cases encoded
  | integer value =>
      cases encoded
      exact reads_of_operands ((reads_bind_pure_iff local_u4).mpr
        ⟨value.toUInt32, reads_u4_iff.mpr rfl, by simp⟩)
  | float bits =>
      cases encoded
      exact reads_of_operands ((reads_bind_pure_iff local_u4).mpr ⟨bits, reads_u4_iff.mpr rfl, rfl⟩)
  | long value =>
      cases encoded
      exact reads_of_operands ((reads_bind_pure_iff local_u8).mpr
        ⟨value.toUInt64, reads_u8_iff.mpr rfl, by simp⟩)
  | double bits =>
      cases encoded
      exact reads_of_operands ((reads_bind_pure_iff local_u8).mpr ⟨bits, reads_u8_iff.mpr rfl, rfl⟩)
  | classRef | string | methodType | moduleName | packageName =>
      cases encoded
      exact reads_of_operands reads_of_u2
  | nameAndType | dynamic | invokeDynamic =>
      cases encoded
      exact reads_of_operands reads_of_u2_u2
  | member kind owner pair =>
      cases kind <;>
        (cases encoded
         exact reads_of_operands reads_of_u2_u2)
  | methodHandle kind target =>
      cases encoded
      exact reads_of_operands (Reads.bind (reads_u1_iff.mpr rfl) reads_of_u2)

/-! ## Rows of entries -/

theorem local_fill
    (count : Nat)
    (entries : Array Entry) :
    Local (fill count entries) := by
  induction entries using fill.induct count with
  | case1 entries short recurseWide recurse =>
      rw [fill, if_pos short]
      refine local_reader.bind fun entry => ?_
      split
      · split
        · rename_i room
          exact recurseWide entry room
        · exact local_fail _
      · exact recurse entry
  | case2 entries full =>
      rw [fill, if_neg full]
      exact local_pure _

/-- A row is filled up to its size, with the unusable entries where they belong. -/
theorem spaced_of_reads_fill
    {count : Nat}
    {entries result : Array Entry}
    {taken : Bytes}
    (room : entries.size ≤ count)
    (reads : (fill count entries).Reads taken result) :
    result.size = count ∧
      ∃ later, result.toList = entries.toList ++ later ∧ Spaced later := by
  induction entries using fill.induct count generalizing taken with
  | case1 entries short recurseWide recurse =>
      rw [fill, if_pos short] at reads
      obtain ⟨entry, _, _, rfl, first, reads⟩ := (reads_bind_iff local_reader).mp reads
      have usable := usable_of_reads first
      split at reads
      · rename_i wide
        split at reads
        · rename_i roomWide
          obtain ⟨size, later, shape, spaced⟩ :=
            recurseWide entry roomWide (by simp; omega) reads
          exact ⟨size, entry :: .unusable :: later, by simp [shape], .wide wide spaced⟩
        · exact absurd reads not_reads_fail
      · rename_i narrow
        obtain ⟨size, later, shape, spaced⟩ := recurse entry (by simp; omega) reads
        exact
          ⟨size, entry :: later, by simp [shape], .narrow (by simpa using narrow) usable spaced⟩
  | case2 entries full =>
      rw [fill, if_neg full] at reads
      obtain ⟨_, rfl⟩ := reads_pure_iff.mp reads
      exact ⟨by omega, [], by simp, .nil⟩

/-- A row is filled with the entries whose bytes stand one behind the other. -/
theorem reads_fill_of_encode
    (entries : Array Entry)
    {later : List Entry}
    {pieces : List Bytes}
    (spaced : Spaced later)
    (encoded : later.mapM encode = .ok pieces) :
    (fill (entries.size + later.length) entries).Reads pieces.flatten
      (entries ++ later.toArray) := by
  induction spaced generalizing entries pieces with
  | nil =>
      cases mapM_eq_ok_iff.mp encoded
      rw [fill, if_neg (by simp)]
      exact reads_pure_iff.mpr ⟨rfl, by simp⟩
  | @narrow entry rest single usable _ inductionHypothesis =>
      cases mapM_eq_ok_iff.mp encoded with
      | @cons _ first _ pieces firstEncoded othersEncoded =>
          have step := inductionHypothesis (entries.push entry) (mapM_eq_ok_iff.mpr othersEncoded)
          rw [fill, if_pos (by simp)]
          refine Reads.bind (reads_of_encode usable firstEncoded) ?_
          rw [if_neg (by simp [single])]
          have size :
              (entries.push entry).size + rest.length = entries.size + (entry :: rest).length := by
            simp
            omega
          rw [← size]
          simpa using step
  | @wide entry rest double _ inductionHypothesis =>
      cases mapM_eq_ok_iff.mp encoded with
      | @cons _ first _ pieces firstEncoded othersEncoded =>
          cases othersEncoded with
          | @cons _ filler _ pieces fillerEncoded othersEncoded =>
              cases fillerEncoded
              have step :=
                inductionHypothesis ((entries.push entry).push .unusable)
                  (mapM_eq_ok_iff.mpr othersEncoded)
              have usable : entry ≠ .unusable := by
                rintro rfl
                cases double
              rw [fill, if_pos (by simp)]
              refine Reads.bind (reads_of_encode usable firstEncoded) ?_
              rw [if_pos double, if_pos (by simp)]
              have size :
                  ((entries.push entry).push .unusable).size + rest.length =
                    entries.size + (entry :: .unusable :: rest).length := by
                simp
                omega
              rw [← size]
              simpa using step

end Entry

namespace Pool

theorem local_tableReader : Local Entry.tableReader := by
  refine local_u2.bind fun count => ?_
  split
  · exact local_fail _
  · exact Entry.local_fill _ _

theorem local_reader : Local reader :=
  local_tableReader.bind fun _ => local_lift _

/-- A pool that was read is what its entries make. -/
structure Adopted (pool : Pool) : Prop where
  sound : pool.Sound
  short : pool.size < 2 ^ 16
  adopted : ofEntries pool.entries = .ok pool
  known :
    ∀ (constant : Constant) (number : UInt16),
      constant.StandsAt pool.entries number → pool.Knows constant

/-- The number names the class, or is zero where there is none. -/
def ClassOrNone
    (pool : Pool)
    (number : UInt16) : Option String → Prop
  | none => number = 0
  | some name => number ≠ 0 ∧ pool.className number = .ok name

theorem classOrNone_iff
    {pool : Pool}
    {number : UInt16}
    {result : Option String} :
    (if number = 0 then pure none else some <$> pool.className number : Except ReadError _) =
        .ok result ↔
      pool.ClassOrNone number result := by
  split
  · rename_i zero
    cases result <;> simp [ClassOrNone, zero, pure, Except.pure]
  · rename_i nonzero
    rw [map_eq_ok_iff]
    cases result <;> simp [ClassOrNone, nonzero]

theorem Adopted.known_of_classOrNone
    {pool : Pool}
    {number : UInt16}
    {name : String}
    (adopted : pool.Adopted)
    (found : pool.ClassOrNone number (some name)) :
    pool.Knows (.classRef name) :=
  adopted.known (.classRef name) number found.2

theorem adopted_of_reads
    {taken : Bytes}
    {pool : Pool}
    (reads : reader.Reads taken pool) :
    pool.Adopted := by
  obtain ⟨entries, _, _, rfl, tableReads, adopting⟩ := (reads_bind_iff local_tableReader).mp reads
  obtain ⟨rfl, adopted⟩ := reads_lift_iff.mp adopting
  obtain ⟨count, _, _, rfl, _, filling⟩ := (reads_bind_iff local_u2).mp tableReads
  split at filling
  · exact absurd filling not_reads_fail
  · rename_i nonzero
    have positive : 1 ≤ count.toNat := by
      by_contra zero
      exact nonzero (UInt16.toNat_inj.mp (show count.toNat = 0 by omega))
    obtain ⟨size, later, shape, spaced⟩ := Entry.spaced_of_reads_fill (by simpa using positive) filling
    have bound := count.toNat_lt
    have same := entries_of_ofEntries adopted
    subst same
    have first : pool.entries.toList.head? = some .unusable := by simp [shape]
    have sound := sound_of_ofEntries (by omega) first (by simpa [shape] using spaced) adopted
    exact ⟨sound, by rw [Pool.size]; omega, adopted, complete_of_ofEntries first adopted⟩

/-- A pool is read back from its bytes. -/
theorem reads_of_encode
    {pool again : Pool}
    {bytes : Bytes}
    (sound : pool.Sound)
    (encoded : pool.encode = .ok bytes)
    (adopted : ofEntries pool.entries = .ok again) :
    reader.Reads bytes again := by
  unfold encode at encoded
  split at encoded
  · rename_i short
    obtain ⟨pieces, piecesEncoded, same⟩ := bind_eq_ok_iff.mp encoded
    cases same
    have head := sound.first
    have spaced := sound.spaced
    cases shape : pool.entries.toList with
    | nil => simp [shape] at head
    | cons filler later =>
        simp only [shape, List.head?_cons, Option.some.injEq, List.tail_cons] at head spaced
        subst head
        rw [shape, List.drop_one, List.tail_cons] at piecesEncoded
        have size : pool.size = 1 + later.length := by
          have lengths := congrArg List.length shape
          simp only [Array.length_toList, List.length_cons] at lengths
          rw [Pool.size]
          omega
        have number : (UInt16.ofNat pool.size).toNat = 1 + later.length := by
          rw [UInt16.toNat_ofNat_of_lt' short, size]
        have entriesShape : pool.entries = #[.unusable] ++ later.toArray := by
          rw [← Array.toList_inj, shape]
          simp
        have table :
            Entry.tableReader.Reads
              (Bytes.ofUInt16 (UInt16.ofNat pool.size) ++ pieces.flatten) pool.entries := by
          refine Reads.bind (reads_u2_iff.mpr rfl) ?_
          rw [if_neg, number, entriesShape]
          · exact Entry.reads_fill_of_encode #[.unusable] spaced piecesEncoded
          · intro zero
            rw [zero] at number
            have : (0 : UInt16).toNat = 0 := rfl
            omega
        rw [← List.append_nil (_ ++ _)]
        exact Reads.bind table (reads_lift_iff.mpr ⟨rfl, adopted⟩)
  · cases encoded

/-! ## Adopting again -/

/-- An entry whose references are good is indexed or passed over. -/
theorem exists_constantOf
    {entries : Array Entry}
    {number : UInt16}
    {entry : Entry}
    (held : entries[number.toNat]? = some entry)
    (checked : Entry.check entries entry = .ok ()) :
    ∃ constant, constantOf entries number entry = .ok constant := by
  cases entry with
  | classRef place | string place =>
      obtain ⟨name, found⟩ := Entry.discard_eq_ok_iff.mp checked
      exact ⟨_, bind_eq_ok_iff.mpr ⟨name, found, rfl⟩⟩
  | nameAndType namePlace descriptorPlace =>
      obtain ⟨name, nameFound, others⟩ := bind_eq_ok_iff.mp checked
      obtain ⟨descriptor, descriptorFound⟩ := Entry.discard_eq_ok_iff.mp others
      have pair : Entry.nameAndTypeAt entries number = .ok (name, descriptor) :=
        Entry.nameAndTypeAt_eq_ok_iff.mpr
          ⟨_, _, Entry.at?_eq_ok_iff.mpr ⟨held, by simp⟩, nameFound, descriptorFound⟩
      exact ⟨_, bind_eq_ok_iff.mpr ⟨(name, descriptor), pair, rfl⟩⟩
  | member kind owner pair =>
      obtain ⟨ownerName, ownerFound, others⟩ := bind_eq_ok_iff.mp checked
      obtain ⟨names, namesFound⟩ := Entry.discard_eq_ok_iff.mp others
      have found : Entry.memberAt entries number = .ok ⟨ownerName, names.1, names.2⟩ :=
        Entry.memberAt_eq_ok_iff.mpr
          ⟨_, _, _, Entry.at?_eq_ok_iff.mpr ⟨held, by simp⟩, ownerFound, namesFound⟩
      exact ⟨_, bind_eq_ok_iff.mpr ⟨_, found, rfl⟩⟩
  | _ => exact ⟨_, rfl⟩

theorem exists_indexEntries
    {entries : Array Entry}
    {position : Nat}
    {rest : List Entry}
    (index : Std.TreeMap Constant UInt16)
    (short : entries.size ≤ 2 ^ 16)
    (checked : ∀ entry ∈ entries.toList, Entry.check entries entry = .ok ())
    (remaining : rest = entries.toList.drop position) :
    ∃ result, indexEntries entries position rest index = .ok result := by
  induction rest generalizing position index with
  | nil => exact ⟨index, rfl⟩
  | cons entry rest inductionHypothesis =>
      obtain ⟨here, behind⟩ := first_of_drop remaining
      have inside := (Array.getElem?_eq_some_iff.mp here).1
      have number : (UInt16.ofNat position).toNat = position :=
        UInt16.toNat_ofNat_of_lt' (by
          show position < 2 ^ 16
          omega)
      have good := checked entry (Array.mem_toList_iff.mpr (Array.mem_of_getElem? here))
      obtain ⟨found, indexed⟩ := exists_constantOf (number.symm ▸ here) good
      cases found with
      | none =>
          obtain ⟨result, recorded⟩ := inductionHypothesis index behind
          exact ⟨result, bind_eq_ok_iff.mpr ⟨none, indexed, recorded⟩⟩
      | some constant =>
          obtain ⟨result, recorded⟩ := inductionHypothesis _ behind
          exact ⟨result, bind_eq_ok_iff.mpr ⟨some constant, indexed, recorded⟩⟩

/-- The entries of a sound pool that can be numbered are adopted again. -/
theorem Sound.exists_ofEntries
    {pool : Pool}
    (sound : pool.Sound)
    (short : pool.size ≤ 2 ^ 16) :
    ∃ again, ofEntries pool.entries = .ok again := by
  obtain ⟨index, recorded⟩ := exists_indexEntries ∅ short sound.checked rfl
  exact ⟨_, bind_eq_ok_iff.mpr ⟨⟨⟩, forM_eq_ok_iff.mpr sound.checked,
    bind_eq_ok_iff.mpr ⟨index, recorded, rfl⟩⟩⟩

/-- The bytes of a sound pool are read as a pool of its entries. -/
theorem exists_reads_of_encode
    {pool : Pool}
    {bytes : Bytes}
    (sound : pool.Sound)
    (encoded : pool.encode = .ok bytes) :
    ∃ again, reader.Reads bytes again ∧ again.entries = pool.entries := by
  have short : pool.size < 2 ^ 16 := by
    unfold encode at encoded
    split at encoded
    · assumption
    · cases encoded
  obtain ⟨again, adopted⟩ := sound.exists_ofEntries (Nat.le_of_lt short)
  exact ⟨again, reads_of_encode sound encoded adopted, entries_of_ofEntries adopted⟩

end Pool
end JvmClass
