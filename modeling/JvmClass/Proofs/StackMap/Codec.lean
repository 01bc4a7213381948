import JvmClass.Proofs.Bytes.Codec
import JvmClass.StackMap.Codec

namespace JvmClass.StackMap

/-!
# Frames and their bytes

Every frame has one form in bytes.  A frame that was read fits its form: short
forms hold short distances, and the number of locals dropped or added is small.
-/

open Reader

namespace TypeInfo

theorem local_reader : Local reader := by
  refine local_u1.bind fun tag => ?_
  split
  case h_8 | h_9 => exact local_u2.bind fun _ => local_pure _
  case h_10 => exact local_fail _
  all_goals exact local_pure _

/-- A type is read from its own bytes and from no others. -/
theorem inverts_reader : Inverts reader encode fun _ => True := by
  refine ⟨local_reader, ?_⟩
  intro taken value
  rw [and_true]
  constructor
  · intro whole
    obtain ⟨tag, _, operands, rfl, first, reads⟩ := (reads_bind_iff local_u1).mp whole
    obtain rfl := reads_u1_iff.mp first
    split at reads
    case h_8 | h_9 =>
      obtain ⟨operand, second, rfl⟩ := (reads_bind_pure_iff local_u2).mp reads
      obtain rfl := reads_u2_iff.mp second
      rfl
    case h_10 => exact absurd reads not_reads_fail
    all_goals
      obtain ⟨rfl, rfl⟩ := reads_pure_iff.mp reads
      rfl
  · rintro rfl
    cases value with
    | object operand | uninitialized operand =>
        exact Reads.bind (reads_u1_iff.mpr rfl)
          ((reads_bind_pure_iff local_u2).mpr ⟨operand, reads_u2_iff.mpr rfl, rfl⟩)
    | _ => exact Reads.bind (reads_u1_iff.mpr rfl) (reads_pure_iff.mpr ⟨rfl, rfl⟩)

end TypeInfo

namespace Frame

/-- The distance and the numbers of types fit the form of a frame. -/
def Encodable : Frame → Prop
  | .same delta | .oneStack delta _ => delta ≤ shortLimit
  | .sameExtended _ | .oneStackExtended _ _ => True
  | .chop _ count => 1 ≤ count ∧ count ≤ 3
  | .append _ locals => 1 ≤ locals.length ∧ locals.length ≤ 3
  | .full _ locals stack => locals.length < 2 ^ 16 ∧ stack.length < 2 ^ 16

theorem local_reader : Local reader := by
  refine local_u1.bind fun form => ?_
  refine local_ite (local_pure _) (local_ite ?_ (local_ite (local_fail _) ?_))
  · exact TypeInfo.local_reader.bind fun _ => local_pure _
  · refine local_u2.bind fun delta => ?_
    refine local_ite ?_ (local_ite (local_pure _) (local_ite (local_pure _) (local_ite ?_ ?_)))
    · exact TypeInfo.local_reader.bind fun _ => local_pure _
    · exact (local_times TypeInfo.local_reader _).bind fun _ => local_pure _
    · exact (local_table16 TypeInfo.local_reader).bind fun _ =>
        (local_table16 TypeInfo.local_reader).bind fun _ => local_pure _

/-! The byte of a form, with the distance or the count that it holds. -/

theorem same_form
    (form : UInt8)
    (short : form ≤ 63) :
    form.toUInt16.toUInt8 = form ∧ form.toUInt16 ≤ shortLimit := by
  obtain ⟨⟨form⟩⟩ := form
  revert form
  decide +kernel

theorem oneStack_form
    (form : UInt8)
    (long : ¬ form ≤ 63)
    (short : form ≤ 127) :
    (form - 64).toUInt16.toUInt8 + 64 = form ∧ (form - 64).toUInt16 ≤ shortLimit := by
  obtain ⟨⟨form⟩⟩ := form
  revert form
  decide +kernel

theorem chop_form
    (form : UInt8)
    (defined : ¬ form ≤ 246)
    (other : form ≠ 247)
    (small : form ≤ 250) :
    251 - (251 - form) = form ∧ 1 ≤ 251 - form ∧ 251 - form ≤ 3 := by
  obtain ⟨⟨form⟩⟩ := form
  revert form
  decide +kernel

theorem append_form
    (form : UInt8)
    (large : ¬ form ≤ 250)
    (other : form ≠ 251)
    (small : form ≤ 254) :
    251 + UInt8.ofNat (form - 251).toNat = form ∧
      1 ≤ (form - 251).toNat ∧ (form - 251).toNat ≤ 3 := by
  obtain ⟨⟨form⟩⟩ := form
  revert form
  decide +kernel

theorem full_form
    (form : UInt8)
    (large : ¬ form ≤ 254) :
    form = 255 := by
  obtain ⟨⟨form⟩⟩ := form
  revert form
  decide +kernel

theorem encodable_of_reads
    {taken : Bytes}
    {frame : Frame}
    (reads : reader.Reads taken frame) :
    taken = frame.encode ∧ frame.Encodable := by
  obtain ⟨form, _, _, rfl, first, second⟩ := (reads_bind_iff local_u1).mp reads
  clear reads
  obtain rfl := reads_u1_iff.mp first
  split at second
  · rename_i short
    obtain ⟨rfl, rfl⟩ := reads_pure_iff.mp second
    obtain ⟨same, fits⟩ := same_form form short
    exact ⟨by simp only [encode, same, List.append_nil], fits⟩
  rename_i long
  split at second
  · rename_i short
    obtain ⟨value, typed, rfl⟩ := (reads_bind_pure_iff TypeInfo.local_reader).mp second
    obtain ⟨rfl, _⟩ := TypeInfo.inverts_reader.reads_iff.mp typed
    obtain ⟨same, fits⟩ := oneStack_form form long short
    exact ⟨by simp only [encode, same, List.singleton_append], fits⟩
  split at second
  · exact absurd second not_reads_fail
  rename_i defined
  obtain ⟨delta, _, _, rfl, distance, third⟩ := (reads_bind_iff local_u2).mp second
  clear second
  obtain rfl := reads_u2_iff.mp distance
  split at third
  · rename_i isOneStack
    subst isOneStack
    obtain ⟨value, typed, rfl⟩ := (reads_bind_pure_iff TypeInfo.local_reader).mp third
    obtain ⟨rfl, _⟩ := TypeInfo.inverts_reader.reads_iff.mp typed
    exact ⟨rfl, trivial⟩
  rename_i notOneStack
  split at third
  · rename_i isChop
    obtain ⟨rfl, rfl⟩ := reads_pure_iff.mp third
    obtain ⟨same, fits⟩ := chop_form form defined notOneStack isChop
    exact ⟨by simp only [encode, same, List.append_nil, List.singleton_append], fits⟩
  rename_i notChop
  split at third
  · rename_i isSame
    subst isSame
    obtain ⟨rfl, rfl⟩ := reads_pure_iff.mp third
    exact ⟨rfl, trivial⟩
  rename_i notSame
  split at third
  · rename_i isAppend
    obtain ⟨locals, localsRead, rfl⟩ :=
      (reads_bind_pure_iff (local_times TypeInfo.local_reader _)).mp third
    obtain ⟨rfl, length, _⟩ := TypeInfo.inverts_reader.times_iff.mp localsRead
    obtain ⟨same, fits⟩ := append_form form notChop notSame isAppend
    rw [← length] at same fits
    exact ⟨by simp only [encode, same, List.nil_append, List.cons_append], fits⟩
  · rename_i notAppend
    obtain rfl := full_form form notAppend
    have inverts := TypeInfo.inverts_reader.table16
    obtain ⟨locals, _, _, rfl, localsRead, fourth⟩ := (reads_bind_iff inverts.isLocal).mp third
    obtain ⟨stack, stackRead, rfl⟩ := (reads_bind_pure_iff inverts.isLocal).mp fourth
    obtain ⟨rfl, localsShort, _⟩ := inverts.reads_iff.mp localsRead
    obtain ⟨rfl, stackShort, _⟩ := inverts.reads_iff.mp stackRead
    refine ⟨?_, localsShort, stackShort⟩
    simp only [encode, List.nil_append, List.cons_append, List.append_assoc]

/-! A short distance and the byte of the form that holds it. -/

theorem form_same
    (delta : UInt16)
    (short : delta ≤ shortLimit) :
    delta.toUInt8 ≤ 63 ∧ delta.toUInt8.toUInt16 = delta := by
  rw [UInt16.le_iff_toNat_le, show shortLimit.toNat = 63 from rfl] at short
  rw [UInt8.le_iff_toNat_le, ← UInt16.toNat_inj, UInt8.toNat_toUInt16, UInt16.toNat_toUInt8,
    show (63 : UInt8).toNat = 63 from rfl]
  omega

theorem form_oneStack
    (delta : UInt8)
    (short : delta ≤ 63) :
    ¬ delta + 64 ≤ 63 ∧ delta + 64 ≤ 127 ∧ delta + 64 - 64 = delta := by
  obtain ⟨⟨delta⟩⟩ := delta
  revert delta
  decide +kernel

theorem form_chop
    (count : UInt8)
    (small : 1 ≤ count ∧ count ≤ 3) :
    ¬ 251 - count ≤ 63 ∧ ¬ 251 - count ≤ 127 ∧ ¬ 251 - count ≤ 246 ∧ 251 - count ≠ 247 ∧
      251 - count ≤ 250 ∧ 251 - (251 - count) = count := by
  obtain ⟨⟨count⟩⟩ := count
  revert count
  decide +kernel

theorem form_append
    (count : Nat)
    (some : 1 ≤ count)
    (few : count ≤ 3) :
    ¬ 251 + UInt8.ofNat count ≤ 63 ∧ ¬ 251 + UInt8.ofNat count ≤ 127 ∧
      ¬ 251 + UInt8.ofNat count ≤ 246 ∧ 251 + UInt8.ofNat count ≠ 247 ∧
      ¬ 251 + UInt8.ofNat count ≤ 250 ∧ 251 + UInt8.ofNat count ≠ 251 ∧
      251 + UInt8.ofNat count ≤ 254 ∧ (251 + UInt8.ofNat count - 251).toNat = count := by
  obtain rfl | rfl | rfl : count = 1 ∨ count = 2 ∨ count = 3 := by omega
  all_goals decide

theorem reads_of_encodable
    {frame : Frame}
    (fits : frame.Encodable) :
    reader.Reads frame.encode frame := by
  have typed (value : TypeInfo) : TypeInfo.reader.Reads value.encode value :=
    TypeInfo.inverts_reader.reads_iff.mpr ⟨rfl, trivial⟩
  have inverts := TypeInfo.inverts_reader.table16
  cases frame with
  | same delta =>
      obtain ⟨short, same⟩ := form_same delta fits
      refine Reads.behind_u1 ?_
      rw [if_pos short, same]
      exact reads_pure_iff.mpr ⟨rfl, rfl⟩
  | sameExtended delta =>
      refine Reads.behind_u1 ?_
      rw [if_neg (by decide), if_neg (by decide), if_neg (by decide)]
      exact Reads.bind_pure (reads_u2_iff.mpr rfl)
  | oneStack delta value =>
      obtain ⟨short, same⟩ := form_same delta fits
      obtain ⟨notSame, isOneStack, back⟩ := form_oneStack delta.toUInt8 short
      refine Reads.behind_u1 ?_
      rw [if_neg notSame, if_pos isOneStack, back, same]
      exact (typed value).bind_pure
  | oneStackExtended delta value =>
      refine Reads.behind_u1 ?_
      rw [if_neg (by decide), if_neg (by decide), if_neg (by decide)]
      exact Reads.behind_u2 (typed value).bind_pure
  | chop delta count =>
      obtain ⟨notSame, notOneStack, defined, notExtended, isChop, back⟩ := form_chop count fits
      refine Reads.behind_u1 ?_
      rw [if_neg notSame, if_neg notOneStack, if_neg defined]
      simp only [if_neg notExtended, if_pos isChop, back]
      exact Reads.bind_pure (reads_u2_iff.mpr rfl)
  | append delta locals =>
      obtain ⟨notSame, notOneStack, defined, notExtended, notChop, notSameExtended, isAppend, back⟩ :=
        form_append locals.length fits.1 fits.2
      refine Reads.behind_u1 ?_
      rw [if_neg notSame, if_neg notOneStack, if_neg defined]
      refine Reads.behind_u2 ?_
      rw [if_neg notExtended, if_neg notChop, if_neg notSameExtended, if_pos isAppend, back]
      exact Reads.bind_pure
        (TypeInfo.inverts_reader.times_iff.mpr ⟨rfl, rfl, fun _ _ => trivial⟩)
  | full delta locals stack =>
      simp only [encode, List.cons_append, List.append_assoc]
      refine Reads.behind_u1 ?_
      rw [if_neg (by decide), if_neg (by decide), if_neg (by decide)]
      refine Reads.behind_u2 ?_
      rw [if_neg (by decide), if_neg (by decide), if_neg (by decide), if_neg (by decide)]
      refine Reads.bind (inverts.reads_iff.mpr ⟨rfl, fits.1, fun _ _ => trivial⟩) ?_
      exact Reads.bind_pure (inverts.reads_iff.mpr ⟨rfl, fits.2, fun _ _ => trivial⟩)

/-- A frame is read from its own bytes and from no others. -/
theorem inverts_reader : Inverts reader encode Encodable := by
  refine ⟨local_reader, ?_⟩
  intro taken frame
  constructor
  · exact encodable_of_reads
  · rintro ⟨rfl, fits⟩
    exact reads_of_encodable fits

end Frame
end JvmClass.StackMap
