import JvmClass.Bytes.Reader
import JvmClass.Proofs.Steps
import Mathlib.Data.Nat.Bitwise

namespace JvmClass.Bytes

/-!
# What readers take

A reader looks at no more than it takes: whatever stands behind the bytes that
it took does not matter.  So a reader is a relation between the bytes that it
takes and the value that it gives, and this relation is put together the way the
reader is.
-/

/-!
## Numbers and their bytes

A number is put together from an upper and a lower half, and each half is what
is left of it on its own side.
-/

/-- Two bytes make the number whose halves they are. -/
theorem toNat_join_bytes
    (high low : UInt8) :
    (high.toUInt16 <<< 8 ||| low.toUInt16).toNat = high.toNat * 2 ^ 8 + low.toNat := by
  have highBound := high.toNat_lt
  have lowBound := low.toNat_lt
  simp only [UInt16.toNat_or, UInt16.toNat_shiftLeft, UInt8.toNat_toUInt16]
  rw [show (8 : UInt16).toNat % 16 = 8 from rfl, Nat.mod_eq_of_lt (by
    rw [Nat.shiftLeft_eq]
    omega), ← Nat.shiftLeft_add_eq_or_of_lt (by omega), Nat.shiftLeft_eq]

/-- Two 16-bit halves make the number whose halves they are. -/
theorem toNat_join_16
    (high low : UInt16) :
    (high.toUInt32 <<< 16 ||| low.toUInt32).toNat = high.toNat * 2 ^ 16 + low.toNat := by
  have highBound := high.toNat_lt
  have lowBound := low.toNat_lt
  simp only [UInt32.toNat_or, UInt32.toNat_shiftLeft, UInt16.toNat_toUInt32]
  rw [show (16 : UInt32).toNat % 32 = 16 from rfl, Nat.mod_eq_of_lt (by
    rw [Nat.shiftLeft_eq]
    omega), ← Nat.shiftLeft_add_eq_or_of_lt (by omega), Nat.shiftLeft_eq]

/-- Two 32-bit halves make the number whose halves they are. -/
theorem toNat_join_32
    (high low : UInt32) :
    (high.toUInt64 <<< 32 ||| low.toUInt64).toNat = high.toNat * 2 ^ 32 + low.toNat := by
  have highBound := high.toNat_lt
  have lowBound := low.toNat_lt
  simp only [UInt64.toNat_or, UInt64.toNat_shiftLeft, UInt32.toNat_toUInt64]
  rw [show (32 : UInt64).toNat % 64 = 32 from rfl, Nat.mod_eq_of_lt (by
    rw [Nat.shiftLeft_eq]
    omega), ← Nat.shiftLeft_add_eq_or_of_lt (by omega), Nat.shiftLeft_eq]

/-- A 16-bit number is written as two given bytes exactly if they make it. -/
theorem ofUInt16_eq_iff
    {value : UInt16}
    {high low : UInt8} :
    ofUInt16 value = [high, low] ↔ high.toUInt16 <<< 8 ||| low.toUInt16 = value := by
  have joined := toNat_join_bytes high low
  have lowBound := low.toNat_lt
  have highBound := high.toNat_lt
  have valueBound := value.toNat_lt
  have upper : (value >>> 8).toUInt8.toNat = value.toNat / 2 ^ 8 % 2 ^ 8 := by
    simp [UInt16.toNat_shiftRight, Nat.shiftRight_eq_div_pow]
  have lower : value.toUInt8.toNat = value.toNat % 2 ^ 8 := by simp
  simp only [ofUInt16, List.cons.injEq, and_true, ← UInt8.toNat_inj, ← UInt16.toNat_inj,
    joined, upper, lower]
  omega

/-- A 32-bit number is written as its halves. -/
theorem ofUInt32_eq_halves
    (value : UInt32) :
    ofUInt32 value = ofUInt16 (value >>> 16).toUInt16 ++ ofUInt16 value.toUInt16 := by
  have valueBound := value.toNat_lt
  simp only [ofUInt32, ofUInt16, List.cons_append, List.nil_append, List.cons.injEq,
    and_true, ← UInt8.toNat_inj]
  simp only [UInt32.toNat_toUInt8, UInt32.toNat_shiftRight, UInt16.toNat_toUInt8,
    UInt16.toNat_shiftRight, UInt32.toNat_toUInt16, UInt32.reduceToNat, UInt16.reduceToNat,
    Nat.reduceMod, Nat.shiftRight_eq_div_pow]
  omega

/-- A 32-bit number is made of two given halves exactly if they are its halves. -/
theorem halves_32_iff
    {value : UInt32}
    {high low : UInt16} :
    (value >>> 16).toUInt16 = high ∧ value.toUInt16 = low ↔
      high.toUInt32 <<< 16 ||| low.toUInt32 = value := by
  have joined := toNat_join_16 high low
  have lowBound := low.toNat_lt
  have highBound := high.toNat_lt
  have valueBound := value.toNat_lt
  simp only [← UInt16.toNat_inj, ← UInt32.toNat_inj, joined, UInt32.toNat_toUInt16,
    UInt32.toNat_shiftRight, UInt32.reduceToNat, Nat.reduceMod, Nat.shiftRight_eq_div_pow]
  omega

/-- A 64-bit number is made of two given halves exactly if they are its halves. -/
theorem halves_64_iff
    {value : UInt64}
    {high low : UInt32} :
    (value >>> 32).toUInt32 = high ∧ value.toUInt32 = low ↔
      high.toUInt64 <<< 32 ||| low.toUInt64 = value := by
  have joined := toNat_join_32 high low
  have lowBound := low.toNat_lt
  have highBound := high.toNat_lt
  have valueBound := value.toNat_lt
  simp only [← UInt32.toNat_inj, ← UInt64.toNat_inj, joined, UInt64.toNat_toUInt32,
    UInt64.toNat_shiftRight, UInt64.reduceToNat, Nat.reduceMod, Nat.shiftRight_eq_div_pow]
  omega

@[simp] theorem length_ofUInt16
    (value : UInt16) :
    (ofUInt16 value).length = 2 := rfl

@[simp] theorem length_ofUInt32
    (value : UInt32) :
    (ofUInt32 value).length = 4 := rfl

@[simp] theorem length_ofUInt64
    (value : UInt64) :
    (ofUInt64 value).length = 8 := rfl

@[simp] theorem length_count16
    {α : Type}
    (elements : List α) :
    (count16 elements).length = 2 := rfl

@[simp] theorem length_count32
    (bytes : Bytes) :
    (count32 bytes).length = 4 := rfl

end JvmClass.Bytes

namespace JvmClass.Reader

variable {α β : Type}

/-- The reader takes exactly these bytes for the value, whatever stands behind them. -/
def Reads
    (reader : Reader α)
    (taken : Bytes)
    (value : α) : Prop :=
  ∀ rest, reader (taken ++ rest) = .ok (value, rest)

/-- The reader looks at no more than it takes. -/
def Local (reader : Reader α) : Prop :=
  ∀ input value rest,
    reader input = .ok (value, rest) →
      ∃ taken, input = taken ++ rest ∧ reader.Reads taken value

/-- Reading two things in turn hands the rest of the first on to the second. -/
theorem bind_apply
    (first : Reader α)
    (second : α → Reader β)
    (input : Bytes) :
    (first >>= second) input =
      (first input >>= fun (value, rest) => second value rest) :=
  rfl

/-- What is read does not depend on what stands behind it. -/
theorem Reads.eq_ok
    {reader : Reader α}
    {taken : Bytes}
    {value : α}
    (reads : reader.Reads taken value) :
    reader taken = .ok (value, []) := by
  simpa using reads []

/-! ## Putting readers together -/

theorem local_pure (value : α) : Local (pure value : Reader α) := by
  intro input result rest read
  cases read
  exact ⟨[], rfl, fun _ => rfl⟩

theorem local_fail (error : ReadError) : Local (fail error : Reader α) := by
  intro input result rest read
  cases read

theorem Local.bind
    {first : Reader α}
    {second : α → Reader β}
    (firstLocal : first.Local)
    (secondLocal : ∀ value, (second value).Local) :
    (first >>= second).Local := by
  intro input result rest read
  rw [bind_apply] at read
  obtain ⟨⟨value, middle⟩, firstRead, secondRead⟩ := bind_eq_ok_iff.mp read
  obtain ⟨firstTaken, rfl, firstReads⟩ := firstLocal _ _ _ firstRead
  obtain ⟨secondTaken, rfl, secondReads⟩ := secondLocal value _ _ _ secondRead
  refine ⟨firstTaken ++ secondTaken, by simp, ?_⟩
  intro behind
  rw [List.append_assoc, bind_apply, firstReads]
  exact secondReads behind

theorem Local.map
    {reader : Reader α}
    (isLocal : reader.Local)
    (change : α → β) :
    (change <$> reader).Local :=
  isLocal.bind fun value => local_pure (change value)

theorem local_ite
    {condition : Prop}
    [Decidable condition]
    {first second : Reader α}
    (firstLocal : first.Local)
    (secondLocal : second.Local) :
    (if condition then first else second).Local := by
  split
  · exact firstLocal
  · exact secondLocal

@[simp] theorem reads_pure_iff
    {value result : α}
    {taken : Bytes} :
    Reads (pure value : Reader α) taken result ↔ taken = [] ∧ value = result := by
  constructor
  · intro reads
    obtain ⟨same, nothing⟩ := Prod.mk.inj (Except.ok.inj reads.eq_ok)
    exact ⟨nothing, same⟩
  · rintro ⟨rfl, rfl⟩ rest
    rfl

@[simp] theorem not_reads_fail
    {error : ReadError}
    {value : α}
    {taken : Bytes} :
    ¬ Reads (fail error : Reader α) taken value := by
  intro reads
  cases reads.eq_ok

/-- A check of what was read takes nothing. -/
theorem local_lift
    (step : Except ReadError α) :
    Local (liftM step : Reader α) := by
  intro input value rest read
  cases step with
  | error => cases read
  | ok found =>
      cases read
      exact ⟨[], rfl, fun _ => rfl⟩

theorem reads_lift_iff
    {step : Except ReadError α}
    {value : α}
    {taken : Bytes} :
    Reads (liftM step : Reader α) taken value ↔ taken = [] ∧ step = .ok value := by
  constructor
  · intro reads
    have read := reads.eq_ok
    cases step with
    | error => cases read
    | ok found =>
        cases read
        exact ⟨rfl, rfl⟩
  · rintro ⟨rfl, rfl⟩ rest
    rfl

/-- What is read in turn is the one behind the other. -/
theorem Reads.bind
    {first : Reader α}
    {second : α → Reader β}
    {firstTaken secondTaken : Bytes}
    {value : α}
    {result : β}
    (firstReads : first.Reads firstTaken value)
    (secondReads : (second value).Reads secondTaken result) :
    (first >>= second).Reads (firstTaken ++ secondTaken) result := by
  intro rest
  rw [List.append_assoc, bind_apply, firstReads]
  exact secondReads rest

/-- What is read in turn is the one behind the other, and nothing else is. -/
theorem reads_bind_iff
    {first : Reader α}
    {second : α → Reader β}
    (firstLocal : first.Local)
    {taken : Bytes}
    {result : β} :
    (first >>= second).Reads taken result ↔
      ∃ value firstTaken secondTaken,
        taken = firstTaken ++ secondTaken ∧
          first.Reads firstTaken value ∧ (second value).Reads secondTaken result := by
  constructor
  · intro reads
    have read := reads.eq_ok
    rw [bind_apply] at read
    obtain ⟨⟨value, middle⟩, firstRead, _⟩ := bind_eq_ok_iff.mp read
    obtain ⟨firstTaken, rfl, firstReads⟩ := firstLocal _ _ _ firstRead
    refine ⟨value, firstTaken, middle, rfl, firstReads, ?_⟩
    intro rest
    have read := reads rest
    rw [List.append_assoc, bind_apply, firstReads] at read
    exact read
  · rintro ⟨value, firstTaken, secondTaken, rfl, firstReads, secondReads⟩
    exact firstReads.bind secondReads

/-- What is made of a value is read as the value is. -/
theorem reads_bind_pure_iff
    {reader : Reader α}
    (isLocal : reader.Local)
    {change : α → β}
    {taken : Bytes}
    {result : β} :
    (reader >>= fun value => pure (change value)).Reads taken result ↔
      ∃ value, reader.Reads taken value ∧ change value = result := by
  rw [reads_bind_iff isLocal]
  constructor
  · rintro ⟨value, firstTaken, secondTaken, rfl, reads, last⟩
    obtain ⟨rfl, rfl⟩ := reads_pure_iff.mp last
    exact ⟨value, by simpa using reads, rfl⟩
  · rintro ⟨value, reads, rfl⟩
    exact ⟨value, taken, [], by simp, reads, reads_pure_iff.mpr ⟨rfl, rfl⟩⟩

theorem reads_map_iff
    {reader : Reader α}
    (isLocal : reader.Local)
    {change : α → β}
    {taken : Bytes}
    {result : β} :
    (change <$> reader).Reads taken result ↔
      ∃ value, reader.Reads taken value ∧ change value = result :=
  reads_bind_pure_iff isLocal

/-! ## Reading numbers -/

theorem local_u1 : Local u1 := by
  intro input value rest read
  cases input with
  | nil => cases read
  | cons byte behind =>
      cases read
      exact ⟨[value], rfl, fun _ => rfl⟩

@[simp] theorem reads_u1_iff
    {taken : Bytes}
    {value : UInt8} :
    u1.Reads taken value ↔ taken = [value] := by
  constructor
  · intro reads
    have read := reads.eq_ok
    cases taken with
    | nil => cases read
    | cons byte behind =>
        cases read
        rfl
  · rintro rfl rest
    rfl

theorem local_u2 : Local u2 :=
  local_u1.bind fun _ => local_u1.bind fun _ => local_pure _

@[simp] theorem reads_u2_iff
    {taken : Bytes}
    {value : UInt16} :
    u2.Reads taken value ↔ taken = Bytes.ofUInt16 value := by
  unfold u2
  simp only [reads_bind_iff local_u1, reads_u1_iff, reads_pure_iff]
  constructor
  · rintro ⟨high, _, _, rfl, rfl, low, _, _, rfl, rfl, rfl, joined⟩
    exact (Bytes.ofUInt16_eq_iff.mpr joined).symm
  · rintro rfl
    refine ⟨(value >>> 8).toUInt8, [_], [value.toUInt8], rfl, rfl, value.toUInt8, _, [], ?_,
      rfl, rfl, ?_⟩
    · simp
    · exact Bytes.ofUInt16_eq_iff.mp rfl

theorem local_u4 : Local u4 :=
  local_u2.bind fun _ => local_u2.bind fun _ => local_pure _

@[simp] theorem reads_u4_iff
    {taken : Bytes}
    {value : UInt32} :
    u4.Reads taken value ↔ taken = Bytes.ofUInt32 value := by
  unfold u4
  simp only [reads_bind_iff local_u2, reads_u2_iff, reads_pure_iff]
  rw [Bytes.ofUInt32_eq_halves]
  constructor
  · rintro ⟨high, _, _, rfl, rfl, low, _, _, rfl, rfl, rfl, joined⟩
    obtain ⟨rfl, rfl⟩ := Bytes.halves_32_iff.mpr joined
    simp
  · rintro rfl
    refine ⟨(value >>> 16).toUInt16, _, _, rfl, rfl, value.toUInt16, _, [], ?_, rfl, rfl, ?_⟩
    · simp
    · exact Bytes.halves_32_iff.mp ⟨rfl, rfl⟩

theorem local_u8 : Local u8 :=
  local_u4.bind fun _ => local_u4.bind fun _ => local_pure _

@[simp] theorem reads_u8_iff
    {taken : Bytes}
    {value : UInt64} :
    u8.Reads taken value ↔ taken = Bytes.ofUInt64 value := by
  unfold u8
  simp only [reads_bind_iff local_u4, reads_u4_iff, reads_pure_iff]
  unfold Bytes.ofUInt64
  constructor
  · rintro ⟨high, _, _, rfl, rfl, low, _, _, rfl, rfl, rfl, joined⟩
    obtain ⟨rfl, rfl⟩ := Bytes.halves_64_iff.mpr joined
    simp
  · rintro rfl
    refine ⟨(value >>> 32).toUInt32, _, _, rfl, rfl, value.toUInt32, _, [], ?_, rfl, rfl, ?_⟩
    · simp
    · exact Bytes.halves_64_iff.mp ⟨rfl, rfl⟩

/-! ## One number and what follows it -/

/-- What is made of a value is read from the bytes of the value. -/
theorem Reads.bind_pure
    {reader : Reader α}
    {change : α → β}
    {taken : Bytes}
    {value : α}
    (reads : reader.Reads taken value) :
    (reader >>= fun value => pure (change value)).Reads taken (change value) := by
  rw [← List.append_nil taken]
  exact reads.bind (reads_pure_iff.mpr ⟨rfl, rfl⟩)

theorem Reads.behind_u1
    {second : UInt8 → Reader β}
    {taken : Bytes}
    {first : UInt8}
    {result : β}
    (reads : (second first).Reads taken result) :
    (u1 >>= second).Reads (first :: taken) result :=
  Reads.bind (reads_u1_iff.mpr rfl) reads

theorem Reads.behind_u2
    {second : UInt16 → Reader β}
    {taken : Bytes}
    {first : UInt16}
    {result : β}
    (reads : (second first).Reads taken result) :
    (u2 >>= second).Reads (Bytes.ofUInt16 first ++ taken) result :=
  Reads.bind (reads_u2_iff.mpr rfl) reads

theorem Reads.behind_u4
    {second : UInt32 → Reader β}
    {taken : Bytes}
    {first : UInt32}
    {result : β}
    (reads : (second first).Reads taken result) :
    (u4 >>= second).Reads (Bytes.ofUInt32 first ++ taken) result :=
  Reads.bind (reads_u4_iff.mpr rfl) reads

theorem Reads.behind_lift
    {step : Except ReadError α}
    {second : α → Reader β}
    {taken : Bytes}
    {value : α}
    {result : β}
    (found : step = .ok value)
    (reads : (second value).Reads taken result) :
    ((liftM step : Reader α) >>= second).Reads taken result :=
  Reads.bind (reads_lift_iff.mpr ⟨rfl, found⟩) reads

/-! ## Bytes -/

theorem splitFront_eq_ok_iff
    {done input taken rest : Bytes}
    {count : Nat} :
    splitFront done count input = .ok (taken, rest) ↔
      ∃ front, front.length = count ∧ input = front ++ rest ∧ taken = done.reverse ++ front := by
  induction count generalizing done input with
  | zero =>
      simp only [splitFront, Except.ok.injEq, Prod.mk.injEq, List.length_eq_zero_iff]
      constructor
      · rintro ⟨rfl, rfl⟩
        exact ⟨[], rfl, rfl, by simp⟩
      · rintro ⟨front, rfl, rfl, rfl⟩
        simp
  | succ count inductionHypothesis =>
      cases input with
      | nil =>
          simp only [splitFront, reduceCtorEq, false_iff, not_exists, not_and]
          rintro front length shape
          simp only [List.nil_eq, List.append_eq_nil_iff] at shape
          simp [shape.1] at length
      | cons byte behind =>
          simp only [splitFront, inductionHypothesis]
          constructor
          · rintro ⟨front, rfl, rfl, rfl⟩
            exact ⟨byte :: front, rfl, rfl, by simp⟩
          · rintro ⟨front, length, shape, rfl⟩
            cases front with
            | nil => cases length
            | cons first front =>
                simp only [List.cons_append, List.cons.injEq] at shape
                obtain ⟨rfl, rfl⟩ := shape
                exact ⟨front, by simpa using length, rfl, by simp⟩

theorem local_bytes (count : Nat) : Local (bytes count) := by
  intro input value rest read
  obtain ⟨front, length, rfl, shape⟩ := splitFront_eq_ok_iff.mp read
  simp only [List.reverse_nil, List.nil_append] at shape
  subst shape
  exact ⟨value, rfl, fun behind => splitFront_eq_ok_iff.mpr ⟨value, length, rfl, rfl⟩⟩

@[simp] theorem reads_bytes_iff
    {count : Nat}
    {taken value : Bytes} :
    (bytes count).Reads taken value ↔ taken = value ∧ value.length = count := by
  constructor
  · intro reads
    obtain ⟨front, length, shape, rfl⟩ := splitFront_eq_ok_iff.mp reads.eq_ok
    simp only [List.append_nil] at shape
    subst shape
    exact ⟨by simp, by simpa using length⟩
  · rintro ⟨rfl, length⟩ rest
    exact splitFront_eq_ok_iff.mpr ⟨taken, length, rfl, rfl⟩

/-! ## Repetition -/

theorem local_repeatAfter
    {item : Reader α}
    (itemLocal : item.Local)
    (done : List α)
    (count : Nat) :
    Local (repeatAfter item done count) := by
  induction count generalizing done with
  | zero => exact local_pure _
  | succ count inductionHypothesis =>
      exact itemLocal.bind fun value => inductionHypothesis (value :: done)

theorem reads_repeatAfter_iff
    {item : Reader α}
    (itemLocal : item.Local)
    {done values : List α}
    {count : Nat}
    {taken : Bytes} :
    (repeatAfter item done count).Reads taken values ↔
      ∃ pieces later,
        List.Forall₂ item.Reads pieces later ∧ later.length = count ∧
          taken = pieces.flatten ∧ values = done.reverse ++ later := by
  induction count generalizing done taken with
  | zero =>
      simp only [repeatAfter, reads_pure_iff]
      constructor
      · rintro ⟨rfl, rfl⟩
        exact ⟨[], [], .nil, rfl, rfl, by simp⟩
      · rintro ⟨pieces, later, all, length, rfl, rfl⟩
        obtain rfl := List.length_eq_zero_iff.mp length
        cases all
        simp
  | succ count inductionHypothesis =>
      unfold repeatAfter
      rw [reads_bind_iff itemLocal]
      simp only [inductionHypothesis]
      constructor
      · rintro ⟨value, firstTaken, _, rfl, first, pieces, later, all, rfl, rfl, rfl⟩
        exact ⟨firstTaken :: pieces, value :: later, .cons first all, rfl, rfl, by simp⟩
      · rintro ⟨pieces, later, all, length, rfl, rfl⟩
        cases all with
        | nil => cases length
        | @cons piece value pieces later first others =>
            exact
              ⟨value, piece, pieces.flatten, rfl, first, pieces, later, others,
                by simpa using length, rfl, by simp⟩

theorem flatten_length_of_forall₂
    {item : Reader α}
    {width : Nat}
    {pieces : List Bytes}
    {values : List α}
    (sized : ∀ taken value, item.Reads taken value → taken.length = width)
    (all : List.Forall₂ item.Reads pieces values) :
    pieces.flatten.length = width * values.length := by
  induction all with
  | nil => rfl
  | cons reads _ inductionHypothesis =>
      rw [List.flatten_cons, List.length_append, inductionHypothesis, sized _ _ reads,
        List.length_cons, Nat.mul_succ]
      omega

theorem local_times
    {item : Reader α}
    (itemLocal : item.Local)
    (count : Nat) :
    Local (times count item) :=
  local_repeatAfter itemLocal [] count

theorem reads_times_iff
    {item : Reader α}
    (itemLocal : item.Local)
    {values : List α}
    {count : Nat}
    {taken : Bytes} :
    (times count item).Reads taken values ↔
      ∃ pieces,
        List.Forall₂ item.Reads pieces values ∧ values.length = count ∧
          taken = pieces.flatten := by
  unfold times
  rw [reads_repeatAfter_iff itemLocal]
  constructor
  · rintro ⟨pieces, later, all, length, rfl, rfl⟩
    exact ⟨pieces, by simpa using all, by simpa using length, rfl⟩
  · rintro ⟨pieces, all, length, rfl⟩
    exact ⟨pieces, values, all, length, rfl, rfl⟩

theorem local_table16
    {item : Reader α}
    (itemLocal : item.Local) :
    Local (table16 item) :=
  local_u2.bind fun _ => local_times itemLocal _

theorem reads_table16_iff
    {item : Reader α}
    (itemLocal : item.Local)
    {values : List α}
    {taken : Bytes} :
    (table16 item).Reads taken values ↔
      ∃ pieces,
        List.Forall₂ item.Reads pieces values ∧ values.length < 2 ^ 16 ∧
          taken = Bytes.count16 values ++ pieces.flatten := by
  unfold table16
  rw [reads_bind_iff local_u2]
  simp only [reads_u2_iff, reads_times_iff itemLocal]
  constructor
  · rintro ⟨count, _, _, rfl, rfl, pieces, all, length, rfl⟩
    refine ⟨pieces, all, length ▸ count.toNat_lt, ?_⟩
    rw [Bytes.count16, length, UInt16.ofNat_toNat]
  · rintro ⟨pieces, all, bound, rfl⟩
    exact
      ⟨UInt16.ofNat values.length, _, _, rfl, rfl, pieces, all,
        (UInt16.toNat_ofNat_of_lt' bound).symm, rfl⟩

end JvmClass.Reader
