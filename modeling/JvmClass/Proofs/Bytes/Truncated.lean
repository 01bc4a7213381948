import JvmClass.Proofs.Bytes.Reader

namespace JvmClass.Reader

/-!
# Readers of input that was cut off

A reader that took some bytes runs out of input where the last of them are
missing: nothing that it checks on the way comes out differently before the cut.
This is stated of two readers at once, because how deep attributes may nest is
bounded by the number of bytes, and fewer bytes allow less.
-/

variable {α β : Type} {limit : Nat}

/--
Up to a number of bytes, the second reader takes what the first one takes, and
runs out of input where only a part of that is left.
-/
structure Tracks
    (limit : Nat)
    (reader other : Reader α) : Prop where
  isLocal : reader.Local
  whole :
    ∀ {taken : Bytes} {value : α},
      reader.Reads taken value → taken.length ≤ limit → other.Reads taken value
  cut :
    ∀ {front behind : Bytes} {value : α},
      reader.Reads (front ++ behind) value → behind ≠ [] → front.length ≤ limit →
        other front = .error .endOfInput

/-! ## Putting readers together -/

theorem tracks_pure (value : α) : Tracks limit (pure value : Reader α) (pure value) where
  isLocal := local_pure value
  whole reads _ := reads
  cut reads missing _ := by
    obtain ⟨empty, _⟩ := reads_pure_iff.mp reads
    exact absurd (List.append_eq_nil_iff.mp empty).2 missing

theorem tracks_fail (error : ReadError) : Tracks limit (fail error : Reader α) (fail error) where
  isLocal := local_fail error
  whole reads _ := reads
  cut reads _ _ := absurd reads not_reads_fail

theorem tracks_lift (step : Except ReadError α) :
    Tracks limit (liftM step : Reader α) (liftM step) where
  isLocal := local_lift step
  whole reads _ := reads
  cut reads missing _ := by
    obtain ⟨empty, _⟩ := reads_lift_iff.mp reads
    exact absurd (List.append_eq_nil_iff.mp empty).2 missing

/-- Where the first reader runs out of input, the second one is not reached. -/
theorem bind_eq_endOfInput
    {first : Reader α}
    {second : α → Reader β}
    {input : Bytes}
    (ended : first input = .error .endOfInput) :
    (first >>= second) input = .error .endOfInput := by
  rw [bind_apply, ended]
  rfl

theorem Tracks.bind
    {first firstOther : Reader α}
    {second secondOther : α → Reader β}
    (firstTracks : Tracks limit first firstOther)
    (secondTracks : ∀ value, Tracks limit (second value) (secondOther value)) :
    Tracks limit (first >>= second) (firstOther >>= secondOther) where
  isLocal := firstTracks.isLocal.bind fun value => (secondTracks value).isLocal
  whole reads short := by
    obtain ⟨value, firstTaken, secondTaken, rfl, firstReads, secondReads⟩ :=
      (reads_bind_iff firstTracks.isLocal).mp reads
    rw [List.length_append] at short
    exact
      Reads.bind (firstTracks.whole firstReads (by omega))
        ((secondTracks value).whole secondReads (by omega))
  cut {front behind _} reads missing short := by
    obtain ⟨value, firstTaken, secondTaken, shape, firstReads, secondReads⟩ :=
      (reads_bind_iff firstTracks.isLocal).mp reads
    -- The cut is either behind what the first reader takes or within it.
    by_cases reached : firstTaken <+: front
    · obtain ⟨middle, rfl⟩ := reached
      rw [List.append_assoc, List.append_cancel_left_eq] at shape
      subst shape
      rw [List.length_append] at short
      rw [bind_apply, firstTracks.whole firstReads (by omega)]
      exact (secondTracks value).cut secondReads missing (by omega)
    · have inside : front <+: firstTaken :=
        (List.prefix_or_prefix_of_prefix ⟨_, rfl⟩ ⟨secondTaken, shape.symm⟩).resolve_right reached
      obtain ⟨rest, rfl⟩ := inside
      refine bind_eq_endOfInput (firstTracks.cut firstReads ?_ short)
      rintro rfl
      exact reached ⟨[], by simp⟩

theorem tracks_ite
    {condition : Prop}
    [Decidable condition]
    {first firstOther second secondOther : Reader α}
    (firstTracks : Tracks limit first firstOther)
    (secondTracks : Tracks limit second secondOther) :
    Tracks limit (if condition then first else second)
      (if condition then firstOther else secondOther) := by
  split
  · exact firstTracks
  · exact secondTracks

/-! ## Numbers and bytes -/

theorem tracks_u1 : Tracks limit u1 u1 where
  isLocal := local_u1
  whole reads _ := reads
  cut {front behind _} reads missing _ := by
    cases front with
    | nil => rfl
    | cons byte front =>
        obtain ⟨_, empty⟩ := List.cons.inj (reads_u1_iff.mp reads)
        exact absurd (List.append_eq_nil_iff.mp empty).2 missing

theorem tracks_u2 : Tracks limit u2 u2 :=
  tracks_u1.bind fun _ => tracks_u1.bind fun _ => tracks_pure _

theorem tracks_u4 : Tracks limit u4 u4 :=
  tracks_u2.bind fun _ => tracks_u2.bind fun _ => tracks_pure _

theorem tracks_u8 : Tracks limit u8 u8 :=
  tracks_u4.bind fun _ => tracks_u4.bind fun _ => tracks_pure _

/-- Fewer bytes than asked for are not enough. -/
theorem splitFront_eq_endOfInput
    {done input : Bytes}
    {count : Nat}
    (short : input.length < count) :
    splitFront done count input = .error .endOfInput := by
  induction count generalizing done input with
  | zero => exact absurd short (Nat.not_lt_zero _)
  | succ count inductionHypothesis =>
      cases input with
      | nil => rfl
      | cons byte input => exact inductionHypothesis (Nat.lt_of_succ_lt_succ short)

theorem tracks_bytes (count : Nat) : Tracks limit (bytes count) (bytes count) where
  isLocal := local_bytes count
  whole reads _ := reads
  cut {front behind _} reads missing _ := by
    obtain ⟨rfl, length⟩ := reads_bytes_iff.mp reads
    have positive := List.length_pos_iff.mpr missing
    rw [List.length_append] at length
    exact splitFront_eq_endOfInput (by omega)

/-! ## Repetition -/

section Repetition

variable {item other : Reader α}

theorem Tracks.repeatAfter
    (tracks : Tracks limit item other)
    (done : List α)
    (count : Nat) :
    Tracks limit (repeatAfter item done count) (Reader.repeatAfter other done count) := by
  induction count generalizing done with
  | zero => exact tracks_pure _
  | succ count inductionHypothesis =>
      exact tracks.bind fun value => inductionHypothesis (value :: done)

theorem Tracks.times
    (tracks : Tracks limit item other)
    (count : Nat) :
    Tracks limit (times count item) (Reader.times count other) :=
  tracks.repeatAfter [] count

theorem Tracks.table16
    (tracks : Tracks limit item other) :
    Tracks limit (table16 item) (Reader.table16 other) :=
  tracks_u2.bind fun count => tracks.times count.toNat

end Repetition

end JvmClass.Reader
