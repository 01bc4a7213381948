import JvmClass.Proofs.ClassModel.Read
import JvmClass.Proofs.Pool.Invariant
import JvmClass.Proofs.Text.Groups

namespace JvmClass

/-!
# Which pools have bytes

Numbers wrap in a pool that has outgrown them, and nothing is said about that
until the pool is written.  A pool has bytes exactly if its entries can be
counted and none of its texts is too long; a pool that was read is such a pool.
Read with its class, or empty at first, it keeps its unusable entries in place
whatever constants it is asked for, so its bytes give back its entries.
-/

open Reader

/-- A row of steps gives a row of results if each of them gives one. -/
theorem exists_mapM_eq_ok_iff
    {ε α β : Type}
    {step : α → Except ε β}
    {items : List α} :
    (∃ results, items.mapM step = .ok results) ↔
      ∀ item ∈ items, ∃ result, step item = .ok result := by
  simp only [mapM_eq_ok_iff]
  induction items with
  | nil => simp
  | cons item rest inductionHypothesis =>
      rw [List.forall_mem_cons, ← inductionHypothesis]
      constructor
      · rintro ⟨_, all⟩
        cases all with
        | cons stepped others => exact ⟨⟨_, stepped⟩, _, others⟩
      · rintro ⟨⟨_, stepped⟩, _, others⟩
        exact ⟨_, .cons stepped others⟩

/-- An entry has bytes unless it is a text that takes more than its length can say. -/
theorem Entry.exists_encode_iff {entry : Entry} :
    (∃ bytes, entry.encode = .ok bytes) ↔
      ∀ text, entry = .utf8 text → (ModifiedUtf8.encode text).length ≤ 65535 := by
  cases entry with
  | utf8 text =>
      unfold encode
      simp only [utf8.injEq, forall_eq']
      split
      · rename_i short
        exact ⟨fun _ => by omega, fun _ => ⟨_, rfl⟩⟩
      · rename_i long
        exact ⟨nofun, fun short => by omega⟩
  | member kind owner pair => cases kind <;> exact ⟨fun _ => nofun, fun _ => ⟨_, rfl⟩⟩
  | _ => exact ⟨fun _ => nofun, fun _ => ⟨_, rfl⟩⟩

namespace Entry

theorem exists_encode_of_reads_operands
    {tag : UInt8}
    {taken : Bytes}
    {entry : Entry}
    (reads : (operandReader tag).Reads taken entry) :
    ∃ bytes, entry.encode = .ok bytes := by
  refine exists_encode_iff.mpr ?_
  rintro text rfl
  unfold operandReader at reads
  split at reads
  case h_1 =>
    obtain ⟨length, _, _, _, _, reads⟩ := (reads_bind_iff local_u2).mp reads
    obtain ⟨bytes, _, _, _, bytesRead, reads⟩ := (reads_bind_iff (local_bytes _)).mp reads
    split at reads
    · rename_i decoded
      obtain ⟨_, same⟩ := reads_pure_iff.mp reads
      cases same
      have shorter := ModifiedUtf8.length_encode_le_of_decode decoded
      obtain ⟨_, counted⟩ := reads_bytes_iff.mp bytesRead
      have bound := length.toNat_lt
      omega
    · exact absurd reads not_reads_fail
  case h_2 | h_3 =>
    obtain ⟨_, _, same⟩ := (reads_bind_pure_iff local_u4).mp reads
    cases same
  case h_4 | h_5 =>
    obtain ⟨_, _, same⟩ := (reads_bind_pure_iff local_u8).mp reads
    cases same
  case h_6 | h_7 | h_13 | h_16 | h_17 =>
    obtain ⟨_, _, same⟩ := (reads_bind_pure_iff local_u2).mp reads
    cases same
  case h_8 | h_9 | h_10 | h_11 | h_14 | h_15 =>
    obtain ⟨_, _, _, _, _, reads⟩ := (reads_bind_iff local_u2).mp reads
    obtain ⟨_, _, same⟩ := (reads_bind_pure_iff local_u2).mp reads
    cases same
  case h_12 =>
    obtain ⟨_, _, _, _, _, reads⟩ := (reads_bind_iff local_u1).mp reads
    obtain ⟨_, _, same⟩ := (reads_bind_pure_iff local_u2).mp reads
    cases same
  case h_18 => exact absurd reads not_reads_fail

/-- A row is filled with entries that have bytes. -/
theorem exists_encode_of_reads_fill
    {count : Nat}
    {entries result : Array Entry}
    {taken : Bytes}
    (encoded : ∀ entry ∈ entries.toList, ∃ bytes, entry.encode = .ok bytes)
    (reads : (fill count entries).Reads taken result) :
    ∀ entry ∈ result.toList, ∃ bytes, entry.encode = .ok bytes := by
  have pushed
      {entries : Array Entry}
      {last : Entry}
      (encoded : ∀ entry ∈ entries.toList, ∃ bytes, entry.encode = .ok bytes)
      (lastEncoded : ∃ bytes, last.encode = .ok bytes) :
      ∀ entry ∈ (entries.push last).toList, ∃ bytes, entry.encode = .ok bytes := by
    intro entry member
    rcases List.mem_append.mp (Array.toList_push ▸ member) with member | member
    · exact encoded entry member
    · rw [List.mem_singleton.mp member]
      exact lastEncoded
  induction entries using fill.induct count generalizing taken with
  | case1 entries short recurseWide recurse =>
      rw [fill, if_pos short] at reads
      obtain ⟨entry, _, _, _, first, reads⟩ := (reads_bind_iff local_reader).mp reads
      obtain ⟨tag, _, _, _, _, operands⟩ := (reads_bind_iff local_u1).mp first
      have grown := pushed encoded (exists_encode_of_reads_operands operands)
      split at reads
      · split at reads
        · rename_i roomWide
          exact recurseWide entry roomWide (pushed grown ⟨[], rfl⟩) reads
        · exact absurd reads not_reads_fail
      · exact recurse entry grown reads
  | case2 entries full =>
      rw [fill, if_neg full] at reads
      obtain ⟨_, rfl⟩ := reads_pure_iff.mp reads
      exact encoded

end Entry

namespace Pool

/-- The entries can be counted, and the bytes of every text. -/
structure Writable (pool : Pool) : Prop where
  short : pool.size ≤ 65535
  texts : ∀ text, .utf8 text ∈ pool.entries.toList → (ModifiedUtf8.encode text).length ≤ 65535

/-- A pool behind the unusable entry has bytes exactly if it is writable. -/
theorem exists_encode_iff
    {pool : Pool}
    (first : pool.entries.toList.head? = some .unusable) :
    (∃ bytes, pool.encode = .ok bytes) ↔ pool.Writable := by
  obtain ⟨later, shape⟩ := List.head?_eq_some_iff.mp first
  have entries :
      (∃ pieces, later.mapM Entry.encode = .ok pieces) ↔
        ∀ text, .utf8 text ∈ pool.entries.toList → (ModifiedUtf8.encode text).length ≤ 65535 := by
    simp only [exists_mapM_eq_ok_iff, Entry.exists_encode_iff, shape]
    constructor
    · intro each text member
      obtain impossible | member := List.mem_cons.mp member
      · cases impossible
      · exact each _ member text rfl
    · rintro each _ member text rfl
      exact each text (List.mem_cons_of_mem _ member)
  unfold encode
  rw [shape]
  split
  · rename_i short
    constructor
    · rintro ⟨bytes, encoded⟩
      obtain ⟨pieces, encoded, _⟩ := bind_eq_ok_iff.mp encoded
      exact ⟨by omega, entries.mp ⟨pieces, encoded⟩⟩
    · intro writable
      obtain ⟨pieces, encoded⟩ := entries.mpr writable.texts
      exact ⟨_, bind_eq_ok_iff.mpr ⟨pieces, encoded, rfl⟩⟩
  · rename_i long
    exact ⟨nofun, fun writable => absurd writable.short (by omega)⟩

/-- A pool that was read has bytes. -/
theorem exists_encode_of_reads
    {taken : Bytes}
    {pool : Pool}
    (reads : reader.Reads taken pool) :
    ∃ bytes, pool.encode = .ok bytes := by
  have adopted := adopted_of_reads reads
  refine (exists_encode_iff adopted.sound.first).mpr ⟨Nat.le_of_lt_succ adopted.short, ?_⟩
  obtain ⟨entries, _, _, _, tableReads, adopting⟩ := (reads_bind_iff local_tableReader).mp reads
  obtain ⟨_, made⟩ := reads_lift_iff.mp adopting
  obtain ⟨count, _, _, _, _, filling⟩ := (reads_bind_iff local_u2).mp tableReads
  intro text member
  rw [entries_of_ofEntries made] at member
  split at filling
  · exact absurd filling not_reads_fail
  · have each := Entry.exists_encode_of_reads_fill (by simp [Entry.encode]) filling
    exact Entry.exists_encode_iff.mp (each _ member) text rfl

/-- A pool that no constant was asked for yet: an empty one, or that of a class file. -/
inductive Fresh : Pool → Prop
  | empty : Fresh .empty
  | ofBytes
      {bytes : Bytes}
      {file : ClassFile}
      (read : ClassFile.ofBytes bytes = .ok file) :
      Fresh file.pool

/-- Fresh pools are sound, and their index misses none of their constants. -/
theorem Fresh.sound_complete
    {pool : Pool}
    (fresh : pool.Fresh) :
    pool.Sound ∧ pool.Complete := by
  cases fresh with
  | empty =>
      exact
        ⟨sound_of_ofEntries (by decide) rfl (by exact .nil) ofEntries_unusable,
          complete_of_ofEntries rfl ofEntries_unusable⟩
  | ofBytes read =>
      obtain ⟨_, _, _, _, _, poolRead, _⟩ :=
        ClassFile.reads_reader_iff.mp (ClassFile.ofBytes_eq_ok_iff.mp read)
      have adopted := adopted_of_reads poolRead
      exact ⟨adopted.sound, adopted.known⟩

/-- Each constant stands at the number that was given for it. -/
theorem standsAt_of_internAll
    {pool : Pool}
    (constants : List Constant)
    (coherent : pool.Coherent)
    (fits : (internAll constants pool).2.size ≤ 2 ^ 16) :
    List.Forall₂ (fun constant number => constant.StandsAt (internAll constants pool).2.entries number)
      constants (internAll constants pool).1 := by
  induction constants generalizing pool with
  | nil => exact .nil
  | cons constant rest inductionHypothesis =>
      rcases interned : intern constant pool with ⟨number, next⟩
      have run := internAll_cons constant rest pool
      rw [interned] at run
      simp only [run] at fits ⊢
      have kept := extends_internAll rest next
      obtain ⟨advances, stands⟩ :=
        advances_intern coherent interned (Nat.le_trans kept.size_le fits)
      exact .cons (stands.extend kept) (inductionHypothesis advances.coherent fits)

/--
Whatever constants a fresh pool is asked for one after another: if its entries can be
counted and its texts are short enough, it has bytes, and read with anything behind
them these give the same entries, which are adopted once more.  Otherwise it has no
bytes.  So wherever there are bytes, each number names the constant that it was given
for.
-/
theorem written_of_internAll
    {pool after : Pool}
    {constants : List Constant}
    {numbers : List UInt16}
    (fresh : pool.Fresh)
    (run : internAll constants pool = (numbers, after)) :
    (after.Writable →
      ∃ bytes again,
        after.encode = .ok bytes ∧
          reader.Reads bytes again ∧
            again.entries = after.entries ∧ ofEntries after.entries = .ok again) ∧
      (¬ after.Writable → ∃ error, after.encode = .error error) ∧
        ∀ bytes, after.encode = .ok bytes →
          List.Forall₂ (fun constant number => constant.StandsAt after.entries number)
            constants numbers := by
  obtain ⟨sound, complete⟩ := fresh.sound_complete
  have kept : Entry.Extends pool.entries after.entries := by
    have kept := extends_internAll constants pool
    rwa [run] at kept
  have first : after.entries.toList.head? = some .unusable := by
    rw [List.head?_eq_getElem?, Array.getElem?_toList]
    refine kept 0 _ ?_
    rw [← Array.getElem?_toList, ← List.head?_eq_getElem?]
    exact sound.first
  refine ⟨?_, ?_, ?_⟩
  · intro writable
    obtain ⟨bytes, encoded⟩ := (exists_encode_iff first).mpr writable
    have fits : after.size ≤ 2 ^ 16 := Nat.le_succ_of_le writable.short
    have advances : Advances pool (internAll constants pool).2 :=
      (advances_internAll sound.coherent complete (by rwa [run])).1
    rw [run] at advances
    have afterSound := (advances.grows sound).sound
    obtain ⟨again, adopted⟩ := afterSound.exists_ofEntries fits
    exact
      ⟨bytes, again, encoded, reads_of_encode afterSound encoded adopted,
        entries_of_ofEntries adopted, adopted⟩
  · intro notWritable
    cases encoded : after.encode with
    | error error => exact ⟨error, rfl⟩
    | ok bytes => exact absurd ((exists_encode_iff first).mp ⟨bytes, encoded⟩) notWritable
  · intro bytes encoded
    have writable := (exists_encode_iff first).mp ⟨bytes, encoded⟩
    have stands :=
      standsAt_of_internAll constants sound.coherent
        (by rw [run]; exact Nat.le_succ_of_le writable.short)
    rwa [run] at stands

/-- A class file that holds one `long` is asked for it, and for a text that is appended. -/
theorem written_of_long_and_text :
    ∃ pool after bytes again,
      Fresh pool ∧
        internAll [.long 7, .utf8 "A"] pool = ([1, 3], after) ∧
          after.Writable ∧
            after.encode = .ok bytes ∧
              reader.Reads bytes again ∧
                again.entries = #[.unusable, .long 7, .unusable, .utf8 "A"] := by
  have found :
      (ClassFile.ofBytes
          [0xCA, 0xFE, 0xBA, 0xBE, 0, 0, 0, 50, 0, 3, 5, 0, 0, 0, 0, 0, 0, 0, 7,
            0, 0, 0, 0, 0, 0, 0, 0, 0, 0, 0, 0, 0, 0]).toOption.map
          (fun file =>
            ((internAll [.long 7, .utf8 "A"] file.pool).1,
              (internAll [.long 7, .utf8 "A"] file.pool).2.entries)) =
        some ([1, 3], #[.unusable, .long 7, .unusable, .utf8 "A"]) := by
    decide +kernel
  obtain ⟨file, read, pair⟩ := Option.map_eq_some_iff.mp found
  replace read := toOption_eq_some_iff.mp read
  obtain ⟨numbers, entries⟩ := Prod.mk.inj pair
  have run :
      internAll [.long 7, .utf8 "A"] file.pool =
        ([1, 3], (internAll [.long 7, .utf8 "A"] file.pool).2) :=
    Prod.ext numbers rfl
  have writable : (internAll [.long 7, .utf8 "A"] file.pool).2.Writable := by
    refine ⟨by rw [size, entries]; decide, ?_⟩
    intro text member
    simp only [entries, List.mem_cons, Entry.utf8.injEq, reduceCtorEq, List.not_mem_nil, false_or,
      or_false] at member
    subst member
    decide +kernel
  obtain ⟨bytes, again, encoded, reads, same, _⟩ :=
    (written_of_internAll (.ofBytes read) run).1 writable
  exact ⟨_, _, bytes, again, .ofBytes read, run, writable, encoded, reads, same.trans entries⟩

end Pool

/-!
## Texts that are written back

A text in memory is some characters, whatever groups of bytes they were read from.
It is written with the shortest group for each code unit, which takes no more room
than the text took, so the two bytes for its length are always enough.
-/

namespace Pool

/-- Every text of a class file that was read has bytes. -/
theorem exists_encode_of_ofBytes
    {bytes : Bytes}
    {file : ClassFile}
    {text : String}
    (read : ClassFile.ofBytes bytes = .ok file)
    (member : .utf8 text ∈ file.pool.entries.toList) :
    ∃ written, (Entry.utf8 text).encode = .ok written := by
  obtain ⟨_, _, _, _, _, poolReads, _⟩ :=
    ClassFile.reads_reader_iff.mp (ClassFile.ofBytes_eq_ok_iff.mp read)
  have writable : file.pool.Writable :=
    (exists_encode_iff (adopted_of_reads poolReads).sound.first).mp (exists_encode_of_reads poolReads)
  refine Entry.exists_encode_iff.mpr fun other same => ?_
  cases same
  exact writable.texts text member

end Pool

namespace ModifiedUtf8

/--
A text is read back from its bytes, none of which is zero.  Bytes that can be read
fall, in one way only, into groups for the code units of the text that is read.  This
text takes no more bytes, and the same bytes exactly if every group is the shortest for
its code unit.  So the texts of a class file that was read can be written.
-/
theorem encode_eq_iff_of_decode :
    (∀ text, 0 ∉ encode text ∧ decode (encode text) = .ok text) ∧
      (∀ bytes text, decode bytes = .ok text →
        (encode text).length ≤ bytes.length ∧
          ∃ groups,
            groups.flatten = bytes ∧
              List.Forall₂ Group groups (text.toList.flatMap unitsOfChar) ∧
              (∀ others : List (List UInt8),
                others.flatten = bytes → (∀ group ∈ others, ∃ unit, Group group unit) →
                  others = groups) ∧
              (encode text = bytes ↔
                List.Forall₂ IsShortest groups (text.toList.flatMap unitsOfChar))) ∧
        ∀ bytes file text,
          ClassFile.ofBytes bytes = .ok file → .utf8 text ∈ file.pool.entries.toList →
            ∃ written, (Entry.utf8 text).encode = .ok written := by
  refine ⟨fun text => ⟨zero_not_mem_encode text, decode_encode text⟩, ?_,
    fun _ _ _ => Pool.exists_encode_of_ofBytes⟩
  intro bytes text decoded
  obtain ⟨groups, flat, stand⟩ := exists_groups_of_decode decoded
  refine ⟨length_encode_le_of_decode decoded, groups, flat, stand, ?_, ?_⟩
  · intro others otherFlat othersStand
    exact Group.eq_of_flatten othersStand (Group.exists_of_mem stand) (otherFlat.trans flat.symm)
  · rw [encode, ← flat]
    exact flatMap_encodeUnit_eq_iff stand

/-- A class file that holds a text of one letter, which is spelled with two bytes. -/
def spelledOut : Bytes :=
  [0xCA, 0xFE, 0xBA, 0xBE, 0, 0, 0, 50, 0, 2, 1, 0, 2, 0xC1, 0x81, 0, 0, 0, 0, 0, 0, 0, 0, 0, 0,
    0, 0, 0, 0]

/-- The letter is read from a group that is not the shortest, so it is not written as that. -/
theorem encode_ne_of_spelledOut :
    decode [0xC1, 0x81] = .ok "A" ∧
      encode "A" ≠ [0xC1, 0x81] ∧
        (∃ groups,
          groups.flatten = [0xC1, 0x81] ∧
            List.Forall₂ Group groups [0x41] ∧ ¬ List.Forall₂ IsShortest groups [0x41]) ∧
          ∃ file,
            ClassFile.ofBytes spelledOut = .ok file ∧
              .utf8 "A" ∈ file.pool.entries.toList ∧
                ∃ written, (Entry.utf8 "A").encode = .ok written := by
  obtain ⟨_, spelled, written⟩ := encode_eq_iff_of_decode
  have decoded : decode [0xC1, 0x81] = .ok "A" := rfl
  have units : "A".toList.flatMap unitsOfChar = [0x41] := rfl
  have other : encode "A" ≠ [0xC1, 0x81] := by decide
  obtain ⟨_, groups, flat, stand, _, same⟩ := spelled _ _ decoded
  rw [units] at stand same
  have found :
      (ClassFile.ofBytes spelledOut).toOption.map (fun file => file.pool.entries) =
        some #[.unusable, .utf8 "A"] := by
    decide +kernel
  obtain ⟨file, read, entries⟩ := Option.map_eq_some_iff.mp found
  replace read := toOption_eq_some_iff.mp read
  have member : .utf8 "A" ∈ file.pool.entries.toList := by simp [entries]
  exact ⟨decoded, other, ⟨groups, flat, stand, fun all => other (same.mpr all)⟩, file, read, member,
    written _ _ _ read member⟩

end ModifiedUtf8
end JvmClass
