import JvmClass.Proofs.Bytes.Reader

namespace JvmClass.Reader

/-!
# Readers and the writers that they undo

Where a value has only one form in bytes, its reader takes exactly the bytes
that its writer gives.  Tables inherit this from their elements.
-/

variable {α β : Type}

/--
The reader takes for a value the bytes that the writer gives for it and no
others, and it gives only values that fit.
-/
structure Inverts
    (reader : Reader α)
    (encode : α → Bytes)
    (Fits : α → Prop) : Prop where
  isLocal : reader.Local
  reads_iff :
    ∀ {taken : Bytes} {value : α}, reader.Reads taken value ↔ taken = encode value ∧ Fits value

theorem inverts_u2 : Inverts u2 Bytes.ofUInt16 fun _ => True :=
  ⟨local_u2, by simp⟩

section Rows

variable {item : Reader α} {encode : α → Bytes} {Fits : α → Prop}

theorem Inverts.row_iff
    (inverts : Inverts item encode Fits)
    {pieces : List Bytes}
    {values : List α} :
    List.Forall₂ item.Reads pieces values ↔
      pieces = values.map encode ∧ ∀ value ∈ values, Fits value := by
  induction values generalizing pieces with
  | nil => simp
  | cons value values inductionHypothesis =>
      constructor
      · intro all
        cases all with
        | cons first others =>
            obtain ⟨rfl, fits⟩ := inverts.reads_iff.mp first
            obtain ⟨rfl, othersFit⟩ := inductionHypothesis.mp others
            exact ⟨rfl, by simpa using ⟨fits, othersFit⟩⟩
      · rintro ⟨rfl, fits⟩
        simp only [List.mem_cons, forall_eq_or_imp] at fits
        exact .cons (inverts.reads_iff.mpr ⟨rfl, fits.1⟩) (inductionHypothesis.mpr ⟨rfl, fits.2⟩)

theorem Inverts.times_iff
    (inverts : Inverts item encode Fits)
    {count : Nat}
    {taken : Bytes}
    {values : List α} :
    (times count item).Reads taken values ↔
      taken = values.flatMap encode ∧ values.length = count ∧ ∀ value ∈ values, Fits value := by
  rw [reads_times_iff inverts.isLocal]
  simp only [inverts.row_iff, List.flatMap_def]
  constructor
  · rintro ⟨pieces, ⟨rfl, fits⟩, length, rfl⟩
    exact ⟨rfl, length, fits⟩
  · rintro ⟨rfl, length, fits⟩
    exact ⟨_, ⟨rfl, fits⟩, length, rfl⟩

theorem Inverts.table16
    (inverts : Inverts item encode Fits) :
    Inverts (Reader.table16 item) (Bytes.table16 encode)
      fun values => values.length < 2 ^ 16 ∧ ∀ value ∈ values, Fits value := by
  refine ⟨local_table16 inverts.isLocal, ?_⟩
  intro taken values
  rw [reads_table16_iff inverts.isLocal, Bytes.table16]
  simp only [inverts.row_iff, List.flatMap_def]
  constructor
  · rintro ⟨pieces, ⟨rfl, fits⟩, short, rfl⟩
    exact ⟨rfl, short, fits⟩
  · rintro ⟨rfl, short, fits⟩
    exact ⟨_, ⟨rfl, fits⟩, short, rfl⟩

end Rows

/-! ## Readers that need a depth -/

/-- The bytes are read as the value with any depth that is no less than their number. -/
def ReadsBack
    (reader : Nat → Reader α)
    (bytes : Bytes)
    (value : α) : Prop :=
  bytes.length < 2 ^ 32 → ∀ depth, bytes.length ≤ depth → (reader depth).Reads bytes value

section ReadsBack

variable {reader : Nat → Reader α} {depth : Nat} {pieces : List Bytes} {values : List α}

theorem reads_row_of_readsBack
    (readsBack : List.Forall₂ (ReadsBack reader) pieces values)
    (small : ∀ piece ∈ pieces, piece.length < 2 ^ 32)
    (deep : pieces.flatten.length ≤ depth) :
    List.Forall₂ (reader depth).Reads pieces values := by
  induction readsBack with
  | nil => exact .nil
  | cons first _ inductionHypothesis =>
      rw [List.forall_mem_cons] at small
      simp only [List.flatten_cons, List.length_append] at deep
      exact .cons (first small.1 depth (by omega)) (inductionHypothesis small.2 (by omega))

/-- Values whose bytes are read back make a table that is, if those of each can be counted. -/
theorem reads_table_of_small
    (isLocal : (reader depth).Local)
    (readsBack : List.Forall₂ (ReadsBack reader) pieces values)
    (short : values.length < 2 ^ 16)
    (small : ∀ piece ∈ pieces, piece.length < 2 ^ 32)
    (deep : pieces.flatten.length ≤ depth) :
    (table16 (reader depth)).Reads (Bytes.count16 values ++ pieces.flatten) values :=
  (reads_table16_iff isLocal).mpr
    ⟨pieces, reads_row_of_readsBack readsBack small deep, short, rfl⟩

/-- Values whose bytes are read back make a table that is. -/
theorem reads_table_of_readsBack
    (isLocal : (reader depth).Local)
    (readsBack : List.Forall₂ (ReadsBack reader) pieces values)
    (short : values.length < 2 ^ 16)
    (small : pieces.flatten.length < 2 ^ 32)
    (deep : pieces.flatten.length ≤ depth) :
    (table16 (reader depth)).Reads (Bytes.count16 values ++ pieces.flatten) values :=
  reads_table_of_small isLocal readsBack short
    (fun _ member => Nat.lt_of_le_of_lt (List.sublist_flatten_of_mem member).length_le small) deep

end ReadsBack

end JvmClass.Reader
