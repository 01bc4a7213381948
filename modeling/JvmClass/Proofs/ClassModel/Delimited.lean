import JvmClass.Proofs.Attribute.RoundTrip
import JvmClass.Proofs.Bytes.Truncated
import JvmClass.Proofs.ClassModel.Read

namespace JvmClass

/-!
# Class files say where they end

Every count and length stands in front of what it measures, so each part of a
class file knows its end without looking behind it.  A class file that lost its
last bytes is one that ran out of them, and bytes behind a class file are told
by their number.
-/

open Reader

variable {limit : Nat}

/-! ## Pools -/

namespace Entry

theorem tracks_operandReader (tag : UInt8) :
    Tracks limit (operandReader tag) (operandReader tag) := by
  unfold operandReader
  split
  case h_1 =>
    refine tracks_u2.bind fun length => (tracks_bytes _).bind fun bytes => ?_
    split
    · exact tracks_pure _
    · exact tracks_fail _
  case h_2 | h_3 => exact tracks_u4.bind fun _ => tracks_pure _
  case h_4 | h_5 => exact tracks_u8.bind fun _ => tracks_pure _
  case h_6 | h_7 | h_13 | h_16 | h_17 => exact tracks_u2.bind fun _ => tracks_pure _
  case h_8 | h_9 | h_10 | h_11 | h_14 | h_15 =>
    exact tracks_u2.bind fun _ => tracks_u2.bind fun _ => tracks_pure _
  case h_12 => exact tracks_u1.bind fun _ => tracks_u2.bind fun _ => tracks_pure _
  case h_18 => exact tracks_fail _

theorem tracks_reader : Tracks limit reader reader :=
  tracks_u1.bind tracks_operandReader

theorem tracks_fill
    (count : Nat)
    (entries : Array Entry) :
    Tracks limit (fill count entries) (fill count entries) := by
  induction entries using fill.induct count with
  | case1 entries short recurseWide recurse =>
      rw [fill, if_pos short]
      refine tracks_reader.bind fun entry => ?_
      split
      · split
        · rename_i room
          exact recurseWide entry room
        · exact tracks_fail _
      · exact recurse entry
  | case2 entries full =>
      rw [fill, if_neg full]
      exact tracks_pure _

end Entry

theorem Pool.tracks_reader : Tracks limit reader reader := by
  refine Tracks.bind ?_ fun entries => tracks_lift _
  exact tracks_u2.bind fun count => tracks_ite (tracks_fail _) (Entry.tracks_fill _ _)

/-! ## Attributes -/

namespace Attribute

/-- Reads the name of an attribute and the bytes of its content. -/
def headReader (pool : Pool) : Reader (String × Bytes) := do
  let nameIndex ← u2
  let length ← u4
  let name ← pool.text nameIndex
  let content ← bytes length.toNat
  return (name, content)

/-- The content of an attribute is cut out before it is taken apart. -/
theorem reader_succ
    (pool : Pool)
    (depth : Nat) :
    reader pool (depth + 1) =
      headReader pool >>= fun head => liftM (ofContent (tableReader pool depth) head.1 head.2) := by
  simp only [reader, headReader, bind_assoc, pure_bind]
  rfl

theorem tracks_headReader (pool : Pool) : Tracks limit (headReader pool) (headReader pool) :=
  tracks_u2.bind fun _ => tracks_u4.bind fun _ => (tracks_lift _).bind fun _ =>
    (tracks_bytes _).bind fun _ => tracks_pure _

/-- Attributes of so many bytes are read at every depth that is no less. -/
theorem tracks_reader
    {depth other : Nat}
    (pool : Pool)
    (deep : limit ≤ other) :
    Tracks limit (reader pool depth) (reader pool other) where
  isLocal := local_reader pool depth
  whole reads short := readsDeep_of_reads reads other (Nat.le_trans short deep)
  cut {front behind item} reads missing short := by
    cases depth with
    | zero => exact absurd reads not_reads_fail
    | succ depth =>
        cases other with
        | zero => rfl
        | succ other =>
            rw [reader_succ] at reads ⊢
            have head : Tracks limit _ _ := tracks_headReader pool
            obtain ⟨_, taken, _, shape, headReads, opened⟩ := (reads_bind_iff head.isLocal).mp reads
            obtain ⟨rfl, _⟩ := reads_lift_iff.mp opened
            rw [List.append_nil] at shape
            subst shape
            exact bind_eq_endOfInput (head.cut headReads missing short)

theorem tracks_tableReader
    {depth other : Nat}
    (pool : Pool)
    (deep : limit ≤ other) :
    Tracks limit (tableReader pool depth) (tableReader pool other) :=
  (tracks_reader pool deep).table16

end Attribute

/-! ## Members and classes -/

section Members

variable {depth other : Nat}

theorem MemberInfo.tracks_reader
    (pool : Pool)
    (deep : limit ≤ other) :
    Tracks limit (reader pool depth) (reader pool other) :=
  tracks_u2.bind fun _ => tracks_u2.bind fun _ => tracks_u2.bind fun _ =>
    (Attribute.tracks_tableReader pool deep).bind fun _ => tracks_pure _

theorem ClassFile.tracks_reader
    (deep : limit ≤ other) :
    Tracks limit (reader depth) (reader other) := by
  refine tracks_u4.bind fun _ => tracks_ite (tracks_fail _) ?_
  refine tracks_u2.bind fun _ => tracks_u2.bind fun _ => tracks_ite (tracks_fail _) ?_
  refine Pool.tracks_reader.bind fun pool => tracks_u2.bind fun _ => tracks_u2.bind fun _ =>
    tracks_u2.bind fun _ => tracks_u2.table16.bind fun _ => ?_
  have members : Tracks limit (Reader.table16 (MemberInfo.reader pool depth)) _ :=
    (MemberInfo.tracks_reader pool deep).table16
  refine members.bind fun _ => members.bind fun _ => ?_
  exact (Attribute.tracks_tableReader pool deep).bind fun _ => tracks_pure _

end Members

/--
Where bytes hold a class file, a proper part of their front runs out of input,
and with more bytes behind them exactly those are left over.
-/
theorem ClassFile.ofBytes_eq_error_of_read
    {bytes : Bytes}
    {file : ClassFile}
    (read : ofBytes bytes = .ok file) :
    (∀ front, front <+: bytes → front ≠ bytes → ofBytes front = .error .endOfInput) ∧
      ∀ extra, extra ≠ [] → ofBytes (bytes ++ extra) = .error (.trailingBytes extra.length) := by
  have reads := ofBytes_eq_ok_iff.mp read
  constructor
  · rintro front ⟨behind, rfl⟩ proper
    have missing : behind ≠ [] := by
      rintro rfl
      exact proper (List.append_nil front).symm
    have cut := (tracks_reader (Nat.le_refl front.length)).cut reads missing (Nat.le_refl _)
    exact bind_eq_error_iff.mpr (.inl cut)
  · intro extra present
    have deep : bytes.length ≤ (bytes ++ extra).length := by simp
    have whole := (tracks_reader deep).whole reads (Nat.le_refl _) extra
    refine bind_eq_error_iff.mpr (.inr ⟨(file, extra), whole, ?_⟩)
    exact if_neg (by simpa using present)

/-- A class with one method, whose body returns at once. -/
def ClassFile.emptyMethod : Bytes :=
  [0xCA, 0xFE, 0xBA, 0xBE, 0, 0, 0, 52, 0, 2, 1, 0, 4, 67, 111, 100, 101, 0, 33, 0, 0, 0, 0,
    0, 0, 0, 0, 0, 1, 0, 8, 0, 1, 0, 1, 0, 1, 0, 1, 0, 0, 0, 13, 0, 0, 0, 0, 0, 0, 0, 1, 177,
    0, 0, 0, 0, 0, 0]

/-- The class with a method, cut off within the body, and with two bytes behind it. -/
theorem ClassFile.ofBytes_eq_error_of_emptyMethod :
    (∃ file, ofBytes emptyMethod = .ok file) ∧
      ofBytes (emptyMethod.take 52) = .error .endOfInput ∧
        ofBytes (emptyMethod ++ [202, 254]) = .error (.trailingBytes 2) := by
  have found : (ofBytes emptyMethod).toOption.isSome = true := by decide +kernel
  obtain ⟨file, found⟩ := Option.isSome_iff_exists.mp found
  have read := toOption_eq_some_iff.mp found
  obtain ⟨cut, extended⟩ := ofBytes_eq_error_of_read read
  exact
    ⟨⟨file, read⟩, cut _ (List.take_prefix 52 emptyMethod) (by decide),
      extended [202, 254] (by decide)⟩

end JvmClass
