import JvmClass.Attribute.Reader
import JvmClass.Attribute.Writer
import JvmClass.Proofs.Pool.Codec
import JvmClass.Proofs.StackMap.Codec

namespace JvmClass

/-!
# Attributes and their bytes

An attribute that was read has counts that fit their fields, and its names are
known to the pool.  Such an attribute is read back from the bytes that are
written for it, against the same pool or one that has grown.
-/

open Reader

/-! ## Rows of tables -/

namespace HandlerEntry

theorem inverts_reader : Inverts reader encode fun _ => True := by
  refine ⟨local_u2.bind fun _ => local_u2.bind fun _ => local_u2.bind fun _ =>
    local_u2.bind fun _ => local_pure _, ?_⟩
  intro taken entry
  constructor
  · intro reads
    simp only [reader, reads_bind_iff local_u2, reads_u2_iff, reads_pure_iff] at reads
    obtain ⟨start, _, _, rfl, rfl, stop, _, _, rfl, rfl, handler, _, _, rfl, rfl, catchType, _, _,
      rfl, rfl, rfl, rfl⟩ := reads
    simp [encode]
  · rintro ⟨rfl, _⟩
    simp only [encode, List.append_assoc]
    exact Reads.behind_u2 (Reads.behind_u2 (Reads.behind_u2 (Reads.bind_pure (reads_u2_iff.mpr rfl))))

end HandlerEntry

namespace LineEntry

theorem inverts_reader : Inverts reader encode fun _ => True := by
  refine ⟨local_u2.bind fun _ => local_u2.bind fun _ => local_pure _, ?_⟩
  intro taken entry
  constructor
  · intro reads
    simp only [reader, reads_bind_iff local_u2, reads_u2_iff, reads_pure_iff] at reads
    obtain ⟨start, _, _, rfl, rfl, line, _, _, rfl, rfl, rfl, rfl⟩ := reads
    simp [encode]
  · rintro ⟨rfl, _⟩
    exact Reads.behind_u2 (Reads.bind_pure (reads_u2_iff.mpr rfl))

end LineEntry

namespace LocalEntry

theorem inverts_reader : Inverts reader encode fun _ => True := by
  refine ⟨local_u2.bind fun _ => local_u2.bind fun _ => local_u2.bind fun _ =>
    local_u2.bind fun _ => local_u2.bind fun _ => local_pure _, ?_⟩
  intro taken entry
  constructor
  · intro reads
    simp only [reader, reads_bind_iff local_u2, reads_u2_iff, reads_pure_iff] at reads
    obtain ⟨start, _, _, rfl, rfl, length, _, _, rfl, rfl, name, _, _, rfl, rfl, descriptor, _, _,
      rfl, rfl, index, _, _, rfl, rfl, rfl, rfl⟩ := reads
    simp [encode]
  · rintro ⟨rfl, _⟩
    simp only [encode, List.append_assoc]
    exact Reads.behind_u2 (Reads.behind_u2 (Reads.behind_u2 (Reads.behind_u2
      (Reads.bind_pure (reads_u2_iff.mpr rfl)))))

end LocalEntry

namespace InnerClass

theorem inverts_reader : Inverts reader encode fun _ => True := by
  refine ⟨local_u2.bind fun _ => local_u2.bind fun _ => local_u2.bind fun _ =>
    local_u2.bind fun _ => local_pure _, ?_⟩
  intro taken entry
  constructor
  · intro reads
    simp only [reader, reads_bind_iff local_u2, reads_u2_iff, reads_pure_iff] at reads
    obtain ⟨inner, _, _, rfl, rfl, outer, _, _, rfl, rfl, name, _, _, rfl, rfl, access, _, _,
      rfl, rfl, rfl, rfl⟩ := reads
    simp [encode]
  · rintro ⟨rfl, _⟩
    simp only [encode, List.append_assoc]
    exact Reads.behind_u2 (Reads.behind_u2 (Reads.behind_u2 (Reads.bind_pure (reads_u2_iff.mpr rfl))))

end InnerClass

namespace BootstrapMethod

theorem inverts_reader :
    Inverts reader encode fun entry => entry.arguments.length < 2 ^ 16 := by
  have inverts := inverts_u2.table16
  refine ⟨local_u2.bind fun _ => inverts.isLocal.bind fun _ => local_pure _, ?_⟩
  intro taken entry
  constructor
  · intro reads
    obtain ⟨method, _, _, rfl, first, second⟩ := (reads_bind_iff local_u2).mp reads
    obtain rfl := reads_u2_iff.mp first
    obtain ⟨arguments, argumentsRead, rfl⟩ := (reads_bind_pure_iff inverts.isLocal).mp second
    obtain ⟨rfl, short, _⟩ := inverts.reads_iff.mp argumentsRead
    exact ⟨rfl, short⟩
  · rintro ⟨rfl, short⟩
    exact Reads.behind_u2
      (Reads.bind_pure (inverts.reads_iff.mpr ⟨rfl, short, fun _ _ => trivial⟩))

end BootstrapMethod

namespace MethodParameter

theorem inverts_reader : Inverts reader encode fun _ => True := by
  refine ⟨local_u2.bind fun _ => local_u2.bind fun _ => local_pure _, ?_⟩
  intro taken entry
  constructor
  · intro reads
    simp only [reader, reads_bind_iff local_u2, reads_u2_iff, reads_pure_iff] at reads
    obtain ⟨name, _, _, rfl, rfl, access, _, _, rfl, rfl, rfl, rfl⟩ := reads
    simp [encode]
  · rintro ⟨rfl, _⟩
    exact Reads.behind_u2 (Reads.bind_pure (reads_u2_iff.mpr rfl))

end MethodParameter

namespace Attribute

/-! ## Bodies -/

theorem local_codeReader
    {nested : Reader (List Attribute)}
    (nestedLocal : nested.Local) :
    Local (codeReader nested) := by
  refine local_u2.bind fun _ => local_u2.bind fun _ => local_u4.bind fun length => ?_
  refine local_ite (local_fail _) (local_ite (local_fail _) ?_)
  refine (local_bytes _).bind fun _ => (local_table16 HandlerEntry.inverts_reader.isLocal).bind ?_
  exact fun _ => nestedLocal.bind fun _ => local_pure _

/-- The parts of a body in front of its attributes fit their fields. -/
structure HeadFits (body : CodeAttribute Attribute) : Prop where
  nonempty : 1 ≤ body.code.length
  short : body.code.length ≤ maxCodeLength
  handlers : body.handlers.length < 2 ^ 16

/-- A body is read from its own head and whatever its attributes are read from. -/
theorem reads_codeReader_iff
    {nested : Reader (List Attribute)}
    (nestedLocal : nested.Local)
    {taken : Bytes}
    {body : CodeAttribute Attribute} :
    (codeReader nested).Reads taken body ↔
      HeadFits body ∧
        ∃ behind, taken = codeHead body ++ behind ∧ nested.Reads behind body.attributes := by
  have inverts := HandlerEntry.inverts_reader.table16
  constructor
  · intro reads
    obtain ⟨maxStack, _, _, rfl, first, second⟩ := (reads_bind_iff local_u2).mp reads
    clear reads
    obtain ⟨maxLocals, _, _, rfl, localsRead, third⟩ := (reads_bind_iff local_u2).mp second
    clear second
    obtain ⟨length, _, _, rfl, lengthRead, fourth⟩ := (reads_bind_iff local_u4).mp third
    clear third
    obtain rfl := reads_u2_iff.mp first
    obtain rfl := reads_u2_iff.mp localsRead
    obtain rfl := reads_u4_iff.mp lengthRead
    split at fourth
    · exact absurd fourth not_reads_fail
    rename_i short
    split at fourth
    · exact absurd fourth not_reads_fail
    rename_i nonzero
    obtain ⟨_, bytecode, _, rfl, codeRead, fifth⟩ := (reads_bind_iff (local_bytes _)).mp fourth
    clear fourth
    obtain ⟨rfl, codeLength⟩ := reads_bytes_iff.mp codeRead
    obtain ⟨handlers, _, _, rfl, handlersRead, sixth⟩ := (reads_bind_iff inverts.isLocal).mp fifth
    clear fifth
    obtain ⟨rfl, handlersShort, _⟩ := inverts.reads_iff.mp handlersRead
    obtain ⟨attributes, attributesRead, rfl⟩ := (reads_bind_pure_iff nestedLocal).mp sixth
    have positive : 1 ≤ length.toNat := by
      by_contra zero
      exact nonzero (UInt32.toNat_inj.mp (show length.toNat = 0 by omega))
    have counted : Bytes.count32 bytecode = Bytes.ofUInt32 length := by
      rw [Bytes.count32, codeLength, UInt32.ofNat_toNat]
    refine ⟨⟨?_, ?_, handlersShort⟩, _, ?_, attributesRead⟩
    · rw [codeLength]
      exact positive
    · show bytecode.length ≤ maxCodeLength
      omega
    · simp only [codeHead, counted, List.append_assoc]
  · rintro ⟨fits, behind, rfl, attributesRead⟩
    have length : (UInt32.ofNat body.code.length).toNat = body.code.length := by
      have short := fits.short
      rw [maxCodeLength] at short
      exact UInt32.toNat_ofNat_of_lt' (by
        show body.code.length < 2 ^ 32
        omega)
    simp only [codeHead, List.append_assoc]
    refine Reads.behind_u2 (Reads.behind_u2 (Reads.behind_u4 ?_))
    rw [if_neg (by rw [length]; exact Nat.not_lt.mpr fits.short), if_neg]
    · refine Reads.bind (reads_bytes_iff.mpr ⟨rfl, length.symm⟩) ?_
      refine Reads.bind (inverts.reads_iff.mpr ⟨rfl, fits.handlers, fun _ _ => trivial⟩) ?_
      exact Reads.bind_pure attributesRead
    · intro zero
      have nonempty := fits.nonempty
      rw [zero] at length
      rw [← length] at nonempty
      exact absurd nonempty (by decide)

/-! ## Attributes that hold no other -/

/-- An attribute that holds no other, with counts that fit their fields. -/
def Leaf : Attribute → Prop
  | .code _ => False
  | .exceptions indices => indices.length < 2 ^ 16
  | .lineNumberTable entries => entries.length < 2 ^ 16
  | .localVariableTable entries => entries.length < 2 ^ 16
  | .stackMapTable frames => frames.length < 2 ^ 16 ∧ ∀ frame ∈ frames, frame.Encodable
  | .innerClasses classes => classes.length < 2 ^ 16
  | .bootstrapMethods methods =>
      methods.length < 2 ^ 16 ∧ ∀ entry ∈ methods, entry.arguments.length < 2 ^ 16
  | .methodParameters parameters => parameters.length < 2 ^ 8
  | .unknown name _ => ∀ nested, contentReader? nested name = none
  | .constantValue _ | .sourceFile _ | .signature _ | .deprecated | .synthetic
  | .enclosingMethod _ _ => True

/-- Which names are known does not depend on how nested attributes are read. -/
theorem contentReader?_eq_none
    {nested : Reader (List Attribute)}
    {name : String}
    (missing : contentReader? nested name = none)
    (other : Reader (List Attribute)) :
    contentReader? other name = none := by
  unfold contentReader? at missing ⊢
  split at missing
  case h_15 => rfl
  all_goals cases missing

/-- How the parameters of a method are read. -/
theorem reads_methodParameters_iff
    {taken : Bytes}
    {item : Attribute} :
    Reads
        (u1 >>= fun count =>
          times count.toNat MethodParameter.reader >>= fun parameters =>
            pure (methodParameters parameters))
        taken item ↔
      ∃ parameters : List MethodParameter,
        item = .methodParameters parameters ∧ parameters.length < 2 ^ 8 ∧
          taken = item.flatContent := by
  have inverts := MethodParameter.inverts_reader
  constructor
  · intro reads
    obtain ⟨count, _, _, rfl, first, second⟩ := (reads_bind_iff local_u1).mp reads
    obtain rfl := reads_u1_iff.mp first
    obtain ⟨parameters, rowRead, rfl⟩ :=
      (reads_bind_pure_iff (local_times inverts.isLocal _)).mp second
    obtain ⟨rfl, length, _⟩ := inverts.times_iff.mp rowRead
    refine ⟨parameters, rfl, length ▸ count.toNat_lt, ?_⟩
    simp [flatContent, length]
  · rintro ⟨parameters, rfl, short, rfl⟩
    have length : (UInt8.ofNat parameters.length).toNat = parameters.length :=
      UInt8.toNat_ofNat_of_lt' short
    refine Reads.behind_u1 ?_
    rw [length]
    exact Reads.bind_pure (inverts.times_iff.mpr ⟨rfl, rfl, fun _ _ => trivial⟩)

theorem local_contentReader?
    {nested : Reader (List Attribute)}
    {reader : Reader Attribute}
    {name : String}
    (nestedLocal : nested.Local)
    (found : contentReader? nested name = some reader) :
    reader.Local := by
  unfold contentReader? at found
  split at found <;> cases found
  case h_1 => exact (local_codeReader nestedLocal).map _
  case h_2 | h_4 | h_7 => exact local_u2.map _
  case h_3 => exact inverts_u2.table16.isLocal.map _
  case h_5 => exact LineEntry.inverts_reader.table16.isLocal.map _
  case h_6 => exact LocalEntry.inverts_reader.table16.isLocal.map _
  case h_8 => exact StackMap.Frame.inverts_reader.table16.isLocal.map _
  case h_9 | h_10 => exact local_pure _
  case h_11 => exact InnerClass.inverts_reader.table16.isLocal.map _
  case h_12 => exact local_u2.bind fun _ => local_u2.bind fun _ => local_pure _
  case h_13 => exact BootstrapMethod.inverts_reader.table16.isLocal.map _
  case h_14 =>
    exact local_u1.bind fun _ =>
      (local_times MethodParameter.inverts_reader.isLocal _).bind fun _ => local_pure _

/-- The content of an attribute of a known name is taken apart completely. -/
theorem ofContent_eq_ok_iff_of_known
    {nested : Reader (List Attribute)}
    {reader : Reader Attribute}
    {name : String}
    {content : Bytes}
    {item : Attribute}
    (nestedLocal : nested.Local)
    (found : contentReader? nested name = some reader) :
    ofContent nested name content = .ok item ↔ reader.Reads content item := by
  unfold ofContent
  simp only [found]
  constructor
  · intro read
    obtain ⟨⟨result, rest⟩, readContent, whole⟩ := bind_eq_ok_iff.mp read
    split at whole
    · rename_i empty
      cases whole
      obtain ⟨taken, rfl, reads⟩ := local_contentReader? nestedLocal found _ _ _ readContent
      obtain rfl : rest = [] := List.isEmpty_iff.mp empty
      simpa using reads
    · cases whole
  · intro reads
    exact bind_eq_ok_iff.mpr ⟨(item, []), reads.eq_ok, rfl⟩

/-- What an attribute is taken apart into is a body, or written as what it was taken out of. -/
theorem leaf_of_ofContent
    {nested : Reader (List Attribute)}
    {name : String}
    {content : Bytes}
    {item : Attribute}
    (nestedLocal : nested.Local)
    (read : ofContent nested name content = .ok item) :
    item.name = name ∧
      (item.Leaf ∧ content = item.flatContent ∨
        ∃ body, item = .code body ∧ (codeReader nested).Reads content body) := by
  cases found : contentReader? nested name with
  | none =>
      unfold ofContent at read
      simp only [found] at read
      cases read
      exact ⟨rfl, .inl ⟨contentReader?_eq_none found, rfl⟩⟩
  | some reader =>
      have reads := (ofContent_eq_ok_iff_of_known nestedLocal found).mp read
      unfold contentReader? at found
      split at found <;> cases found
      case h_1 =>
        obtain ⟨body, bodyReads, rfl⟩ := (reads_map_iff (local_codeReader nestedLocal)).mp reads
        exact ⟨rfl, .inr ⟨body, rfl, bodyReads⟩⟩
      case h_2 | h_4 | h_7 =>
        obtain ⟨index, indexRead, rfl⟩ := (reads_map_iff local_u2).mp reads
        exact ⟨rfl, .inl ⟨trivial, reads_u2_iff.mp indexRead⟩⟩
      case h_3 =>
        obtain ⟨indices, rowReads, rfl⟩ := (reads_map_iff inverts_u2.table16.isLocal).mp reads
        obtain ⟨same, short, _⟩ := inverts_u2.table16.reads_iff.mp rowReads
        exact ⟨rfl, .inl ⟨short, same⟩⟩
      case h_5 =>
        have inverts := LineEntry.inverts_reader.table16
        obtain ⟨entries, rowReads, rfl⟩ := (reads_map_iff inverts.isLocal).mp reads
        obtain ⟨same, short, _⟩ := inverts.reads_iff.mp rowReads
        exact ⟨rfl, .inl ⟨short, same⟩⟩
      case h_6 =>
        have inverts := LocalEntry.inverts_reader.table16
        obtain ⟨entries, rowReads, rfl⟩ := (reads_map_iff inverts.isLocal).mp reads
        obtain ⟨same, short, _⟩ := inverts.reads_iff.mp rowReads
        exact ⟨rfl, .inl ⟨short, same⟩⟩
      case h_8 =>
        have inverts := StackMap.Frame.inverts_reader.table16
        obtain ⟨frames, rowReads, rfl⟩ := (reads_map_iff inverts.isLocal).mp reads
        obtain ⟨same, fits⟩ := inverts.reads_iff.mp rowReads
        exact ⟨rfl, .inl ⟨fits, same⟩⟩
      case h_9 | h_10 =>
        obtain ⟨same, rfl⟩ := reads_pure_iff.mp reads
        exact ⟨rfl, .inl ⟨trivial, same⟩⟩
      case h_11 =>
        have inverts := InnerClass.inverts_reader.table16
        obtain ⟨classes, rowReads, rfl⟩ := (reads_map_iff inverts.isLocal).mp reads
        obtain ⟨same, short, _⟩ := inverts.reads_iff.mp rowReads
        exact ⟨rfl, .inl ⟨short, same⟩⟩
      case h_12 =>
        obtain ⟨owner, _, _, rfl, ownerRead, second⟩ := (reads_bind_iff local_u2).mp reads
        obtain ⟨method, methodRead, rfl⟩ := (reads_bind_pure_iff local_u2).mp second
        obtain rfl := reads_u2_iff.mp ownerRead
        obtain rfl := reads_u2_iff.mp methodRead
        exact ⟨rfl, .inl ⟨trivial, rfl⟩⟩
      case h_13 =>
        have inverts := BootstrapMethod.inverts_reader.table16
        obtain ⟨methods, rowReads, rfl⟩ := (reads_map_iff inverts.isLocal).mp reads
        obtain ⟨same, fits⟩ := inverts.reads_iff.mp rowReads
        exact ⟨rfl, .inl ⟨fits, same⟩⟩
      case h_14 =>
        obtain ⟨parameters, rfl, short, same⟩ := reads_methodParameters_iff.mp reads
        exact ⟨rfl, .inl ⟨short, same⟩⟩

/-- An attribute that holds no other is taken out of the bytes that are written for it. -/
theorem ofContent_flatContent
    {nested : Reader (List Attribute)}
    {item : Attribute}
    (nestedLocal : nested.Local)
    (leaf : item.Leaf) :
    ofContent nested item.name item.flatContent = .ok item := by
  cases item with
  | code body => exact leaf.elim
  | unknown name content =>
      unfold ofContent
      simp only [Attribute.name, leaf nested]
      rfl
  | constantValue index | sourceFile index | signature index =>
      exact (ofContent_eq_ok_iff_of_known nestedLocal rfl).mpr
        ((reads_map_iff local_u2).mpr ⟨index, reads_u2_iff.mpr rfl, rfl⟩)
  | exceptions indices =>
      have inverts := inverts_u2.table16
      exact (ofContent_eq_ok_iff_of_known nestedLocal rfl).mpr
        ((reads_map_iff inverts.isLocal).mpr
          ⟨indices, inverts.reads_iff.mpr ⟨rfl, leaf, fun _ _ => trivial⟩, rfl⟩)
  | lineNumberTable entries =>
      have inverts := LineEntry.inverts_reader.table16
      exact (ofContent_eq_ok_iff_of_known nestedLocal rfl).mpr
        ((reads_map_iff inverts.isLocal).mpr
          ⟨entries, inverts.reads_iff.mpr ⟨rfl, leaf, fun _ _ => trivial⟩, rfl⟩)
  | localVariableTable entries =>
      have inverts := LocalEntry.inverts_reader.table16
      exact (ofContent_eq_ok_iff_of_known nestedLocal rfl).mpr
        ((reads_map_iff inverts.isLocal).mpr
          ⟨entries, inverts.reads_iff.mpr ⟨rfl, leaf, fun _ _ => trivial⟩, rfl⟩)
  | stackMapTable frames =>
      have inverts := StackMap.Frame.inverts_reader.table16
      exact (ofContent_eq_ok_iff_of_known nestedLocal rfl).mpr
        ((reads_map_iff inverts.isLocal).mpr
          ⟨frames, inverts.reads_iff.mpr ⟨rfl, leaf⟩, rfl⟩)
  | deprecated | synthetic =>
      exact (ofContent_eq_ok_iff_of_known nestedLocal rfl).mpr (reads_pure_iff.mpr ⟨rfl, rfl⟩)
  | innerClasses classes =>
      have inverts := InnerClass.inverts_reader.table16
      exact (ofContent_eq_ok_iff_of_known nestedLocal rfl).mpr
        ((reads_map_iff inverts.isLocal).mpr
          ⟨classes, inverts.reads_iff.mpr ⟨rfl, leaf, fun _ _ => trivial⟩, rfl⟩)
  | enclosingMethod owner method =>
      exact (ofContent_eq_ok_iff_of_known nestedLocal rfl).mpr
        (Reads.behind_u2 (Reads.bind_pure (reads_u2_iff.mpr rfl)))
  | bootstrapMethods methods =>
      have inverts := BootstrapMethod.inverts_reader.table16
      exact (ofContent_eq_ok_iff_of_known nestedLocal rfl).mpr
        ((reads_map_iff inverts.isLocal).mpr
          ⟨methods, inverts.reads_iff.mpr ⟨rfl, leaf⟩, rfl⟩)
  | methodParameters parameters =>
      exact (ofContent_eq_ok_iff_of_known nestedLocal rfl).mpr
        (reads_methodParameters_iff.mpr ⟨parameters, rfl, leaf, rfl⟩)

/-! ## Attributes of any kind -/

/-- An attribute with counts that fit their fields, whose name is known at every depth. -/
inductive Fits (pool : Pool) : Attribute → Prop
  | leaf
      {item : Attribute}
      (known : pool.Knows (.utf8 item.name))
      (isLeaf : item.Leaf) :
      Fits pool item
  | body
      {content : CodeAttribute Attribute}
      (known : pool.Knows (.utf8 "Code"))
      (head : HeadFits content)
      (short : content.attributes.length < 2 ^ 16)
      (nested : ∀ item ∈ content.attributes, Fits pool item) :
      Fits pool (.code content)

theorem local_reader
    (pool : Pool)
    (depth : Nat) :
    Local (reader pool depth) := by
  induction depth with
  | zero => exact local_fail _
  | succ depth inductionHypothesis =>
      exact local_u2.bind fun _ => local_u4.bind fun _ => (local_lift _).bind fun _ =>
        (local_bytes _).bind fun _ => local_lift _

theorem local_tableReader
    (pool : Pool)
    (depth : Nat) :
    Local (tableReader pool depth) :=
  local_table16 (local_reader pool depth)

/-- An attribute is a name, a length and content of that length that is taken apart. -/
theorem reads_reader_iff
    {pool : Pool}
    {depth : Nat}
    {taken : Bytes}
    {item : Attribute} :
    (reader pool (depth + 1)).Reads taken item ↔
      ∃ nameIndex name content,
        taken = frame nameIndex content ∧ content.length < 2 ^ 32 ∧
          pool.text nameIndex = .ok name ∧
          ofContent (tableReader pool depth) name content = .ok item := by
  constructor
  · intro reads
    obtain ⟨nameIndex, _, _, rfl, first, second⟩ := (reads_bind_iff local_u2).mp reads
    obtain ⟨length, _, _, rfl, lengthRead, third⟩ := (reads_bind_iff local_u4).mp second
    obtain ⟨name, _, _, rfl, nameRead, fourth⟩ := (reads_bind_iff (local_lift _)).mp third
    obtain ⟨_, content, _, rfl, contentRead, fifth⟩ := (reads_bind_iff (local_bytes _)).mp fourth
    obtain rfl := reads_u2_iff.mp first
    obtain rfl := reads_u4_iff.mp lengthRead
    obtain ⟨rfl, named⟩ := reads_lift_iff.mp nameRead
    obtain ⟨rfl, contentLength⟩ := reads_bytes_iff.mp contentRead
    obtain ⟨rfl, opened⟩ := reads_lift_iff.mp fifth
    refine ⟨nameIndex, name, content, ?_, contentLength ▸ length.toNat_lt, named, opened⟩
    simp [frame, Bytes.count32, contentLength]
  · rintro ⟨nameIndex, name, content, rfl, short, named, opened⟩
    have length : (UInt32.ofNat content.length).toNat = content.length :=
      UInt32.toNat_ofNat_of_lt' short
    simp only [frame, List.append_assoc]
    refine Reads.behind_u2 (Reads.behind_u4 (Reads.behind_lift named ?_))
    exact (reads_bind_iff (local_bytes _)).mpr
      ⟨content, content, [], (List.append_nil content).symm,
        reads_bytes_iff.mpr ⟨rfl, length.symm⟩, reads_lift_iff.mpr ⟨rfl, opened⟩⟩

/-- What is read fits, and the pool knows its names. -/
theorem fits_of_reads
    {pool : Pool}
    {depth : Nat}
    {taken : Bytes}
    {item : Attribute}
    (adopted : pool.Adopted)
    (reads : (reader pool depth).Reads taken item) :
    item.Fits pool := by
  induction depth generalizing taken item with
  | zero => exact absurd reads not_reads_fail
  | succ depth inductionHypothesis =>
      obtain ⟨nameIndex, name, content, rfl, _, named, opened⟩ := reads_reader_iff.mp reads
      have known : pool.Knows (.utf8 name) := adopted.known (.utf8 name) nameIndex named
      obtain ⟨rfl, ⟨isLeaf, _⟩ | ⟨body, rfl, bodyReads⟩⟩ :=
        leaf_of_ofContent (local_tableReader pool depth) opened
      · exact .leaf known isLeaf
      · obtain ⟨head, behind, rfl, nestedReads⟩ :=
          (reads_codeReader_iff (local_tableReader pool depth)).mp bodyReads
        obtain ⟨pieces, all, short, rfl⟩ :=
          (reads_table16_iff (local_reader pool depth)).mp nestedReads
        refine .body known head short ?_
        intro inner member
        obtain ⟨piece, _, innerReads⟩ := exists_of_forall₂ all member
        exact inductionHypothesis innerReads

theorem fits_of_reads_table
    {pool : Pool}
    {depth : Nat}
    {taken : Bytes}
    {items : List Attribute}
    (adopted : pool.Adopted)
    (reads : (tableReader pool depth).Reads taken items) :
    items.length < 2 ^ 16 ∧ ∀ item ∈ items, item.Fits pool := by
  obtain ⟨pieces, all, short, rfl⟩ := (reads_table16_iff (local_reader pool depth)).mp reads
  refine ⟨short, ?_⟩
  intro item member
  obtain ⟨piece, _, itemReads⟩ := exists_of_forall₂ all member
  exact fits_of_reads adopted itemReads

/-- A leaf is read from its name and its own bytes. -/
theorem reads_of_leaf
    {pool : Pool}
    {depth : Nat}
    {item : Attribute}
    {nameIndex : UInt16}
    (named : pool.text nameIndex = .ok item.name)
    (isLeaf : item.Leaf)
    (small : item.flatContent.length < 2 ^ 32) :
    (reader pool (depth + 1)).Reads (frame nameIndex item.flatContent) item :=
  reads_reader_iff.mpr
    ⟨nameIndex, item.name, item.flatContent, rfl, small, named,
      ofContent_flatContent (local_tableReader pool depth) isLeaf⟩

/-- A body is read from its head and what its attributes are read from. -/
theorem reads_of_body
    {pool : Pool}
    {depth : Nat}
    {content : CodeAttribute Attribute}
    {nameIndex : UInt16}
    {behind : Bytes}
    (named : pool.text nameIndex = .ok "Code")
    (head : HeadFits content)
    (small : (codeHead content ++ behind).length < 2 ^ 32)
    (nested : (tableReader pool depth).Reads behind content.attributes) :
    (reader pool (depth + 1)).Reads (frame nameIndex (codeHead content ++ behind))
      (.code content) := by
  have nestedLocal := local_tableReader pool depth
  have bodyReads := (reads_codeReader_iff nestedLocal).mpr ⟨head, behind, rfl, nested⟩
  refine reads_reader_iff.mpr ⟨nameIndex, "Code", _, rfl, small, named, ?_⟩
  exact (ofContent_eq_ok_iff_of_known nestedLocal rfl).mpr
    ((reads_map_iff (local_codeReader nestedLocal)).mpr ⟨content, bodyReads, rfl⟩)

/-- The bytes are read as the attribute against any pool that has grown from this one. -/
def ReadBack
    (pool : Pool)
    (bytes : Bytes)
    (item : Attribute) : Prop :=
  ∀ after : Pool,
    Entry.Extends pool.entries after.entries → ReadsBack (reader after) bytes item

/-- Attributes whose bytes are read back make a table that is. -/
theorem reads_table_of_readBack
    {pool after : Pool}
    {depth : Nat}
    {pieces : List Bytes}
    {items : List Attribute}
    (readBack : List.Forall₂ (ReadBack pool) pieces items)
    (kept : Entry.Extends pool.entries after.entries)
    (short : items.length < 2 ^ 16)
    (small : pieces.flatten.length < 2 ^ 32)
    (deep : pieces.flatten.length ≤ depth) :
    (tableReader after depth).Reads (Bytes.count16 items ++ pieces.flatten) items :=
  reads_table_of_readsBack (local_reader after depth)
    (readBack.imp fun _ _ each => each after kept) short small deep

/-- A leaf is read back from its name and its own bytes. -/
theorem readBack_of_leaf
    {pool : Pool}
    {item : Attribute}
    {nameIndex : UInt16}
    (named : Entry.textAt pool.entries nameIndex = .ok item.name)
    (isLeaf : item.Leaf) :
    ReadBack pool (frame nameIndex item.flatContent) item := by
  intro after kept small depth deep
  simp only [frame, List.length_append, Bytes.length_ofUInt16, Bytes.length_count32] at small deep
  cases depth with
  | zero => omega
  | succ depth => exact reads_of_leaf (kept.textAt named) isLeaf (by omega)

/-- A body is read back from its head and the table of its attributes. -/
theorem readBack_of_body
    {pool : Pool}
    {content : CodeAttribute Attribute}
    {nameIndex : UInt16}
    {pieces : List Bytes}
    (named : Entry.textAt pool.entries nameIndex = .ok "Code")
    (head : HeadFits content)
    (short : content.attributes.length < 2 ^ 16)
    (readBack : List.Forall₂ (ReadBack pool) pieces content.attributes) :
    ReadBack pool
      (frame nameIndex (codeHead content ++ (Bytes.count16 content.attributes ++ pieces.flatten)))
      (.code content) := by
  intro after kept small depth deep
  simp only [frame, List.length_append, Bytes.length_ofUInt16, Bytes.length_count32,
    Bytes.length_count16] at small deep
  cases depth with
  | zero => omega
  | succ depth =>
      have table :=
        reads_table_of_readBack readBack kept short (show _ < 2 ^ 32 by omega)
          (show _ ≤ depth by omega)
      refine reads_of_body (kept.textAt named) head ?_ table
      simp only [List.length_append, Bytes.length_count16]
      omega

/-- A row of attributes is written one behind the other, each as it is written alone. -/
theorem encodeAll_eq
    {pool : Pool}
    (done : List Bytes)
    {items : List Attribute}
    (each : ∀ item ∈ items, ∃ bytes, encode item pool = (bytes, pool) ∧ ReadBack pool bytes item) :
    ∃ pieces,
      encodeAll done items pool = ((done.reverse ++ pieces).flatten, pool) ∧
        List.Forall₂ (ReadBack pool) pieces items := by
  induction items generalizing done with
  | nil => exact ⟨[], by simp [encodeAll, pure_apply], .nil⟩
  | cons item items inductionHypothesis =>
      simp only [List.mem_cons, forall_eq_or_imp] at each
      obtain ⟨⟨bytes, encoded, readBack⟩, others⟩ := each
      obtain ⟨pieces, rest, all⟩ := inductionHypothesis (bytes :: done) others
      refine ⟨bytes :: pieces, ?_, .cons readBack all⟩
      simp only [encodeAll, bind, StateT.bind, encoded, rest]
      simp

/--
An attribute that fits is written without a new constant, and what is written is
read back as the attribute.
-/
theorem Fits.readBack
    {pool : Pool}
    {item : Attribute}
    (sound : pool.Sound)
    (fits : item.Fits pool) :
    ∃ bytes, encode item pool = (bytes, pool) ∧ ReadBack pool bytes item := by
  induction fits with
  | @leaf item known isLeaf =>
      obtain ⟨nameIndex, interned, named⟩ := Pool.internText_of_known sound known
      refine ⟨frame nameIndex item.flatContent, ?_, readBack_of_leaf named isLeaf⟩
      cases item with
      | code body => exact isLeaf.elim
      | _ => simp only [encode, bind, StateT.bind, interned, pure_apply]
  | @body content known head short nested inductionHypothesis =>
      obtain ⟨nameIndex, interned, named⟩ := Pool.internText_of_known sound known
      obtain ⟨pieces, encoded, readBack⟩ := encodeAll_eq [] inductionHypothesis
      refine ⟨_, ?_, readBack_of_body named head short readBack⟩
      obtain ⟨maxStack, maxLocals, code, handlers, attributes⟩ := content
      simp only [encode, bind, StateT.bind, interned, encoded, pure_apply, frame,
        List.reverse_nil, List.nil_append, List.append_assoc]

section Tables

variable {pool : Pool} {items : List Attribute}

theorem encodeAll_of_fits
    (sound : pool.Sound)
    (fits : ∀ item ∈ items, item.Fits pool) :
    ∃ pieces,
      encodeAll [] items pool = (pieces.flatten, pool) ∧
        List.Forall₂ (ReadBack pool) pieces items :=
  encodeAll_eq [] fun item member => (fits item member).readBack sound

theorem encodeTable_of_fits
    (sound : pool.Sound)
    (fits : ∀ item ∈ items, item.Fits pool) :
    ∃ pieces,
      encodeTable items pool = (Bytes.count16 items ++ pieces.flatten, pool) ∧
        List.Forall₂ (ReadBack pool) pieces items := by
  obtain ⟨pieces, encoded, readBack⟩ := encodeAll_of_fits sound fits
  refine ⟨pieces, ?_, readBack⟩
  simp only [encodeTable, bind, StateT.bind, encoded, pure_apply]

end Tables

end Attribute
end JvmClass
