import JvmClass.Proofs.Body.Size
import JvmClass.Proofs.ClassModel.Bodies
import JvmClass.Proofs.ClassModel.Read
import JvmClass.Verify

namespace JvmClass

/-!
# Class files that are written

A class for which nothing is computed is written as a class file that can be read, with
the code that its bodies were assembled to, whatever new constants its pool got on the way.
-/

/-!
## Sizes of classes that were read

The attributes of a class that was read take no more bytes than the class did.
-/

open Reader

/-- The attributes of members take no more bytes than the table of members that they are in. -/
theorem MemberInfo.sizeAll_le_of_reads
    {pool : Pool}
    {depth : Nat}
    {taken : Bytes}
    {infos : List MemberInfo}
    {info : MemberInfo}
    (reads : (Reader.table16 (MemberInfo.reader pool depth)).Reads taken infos)
    (member : info ∈ infos) :
    Attribute.sizeAll info.attributes ≤ taken.length := by
  obtain ⟨pieces, rows, _, rfl⟩ := (reads_table16_iff (local_reader pool depth)).mp reads
  obtain ⟨piece, among, infoReads⟩ := exists_of_forall₂ rows member
  obtain ⟨behind, rfl, tableReads⟩ := MemberInfo.reads_reader_iff.mp infoReads
  have size := Attribute.sizeAll_le_of_reads tableReads
  have inside := (List.sublist_flatten_of_mem among).length_le
  simp only [List.length_append] at inside ⊢
  omega

/-- The size of a body that there may be none of, apart from its instructions and tables. -/
def Method.looseSize (method : Method) : Nat :=
  (method.body.map Body.looseSize).getD 0

/-- A body and the other attributes take no more bytes than the attributes they were split off. -/
theorem Method.sizeAll_le_of_splitBody
    {pool : Pool}
    {body result : Option Body}
    {done attributes others : List Attribute}
    (split : splitBody pool body done attributes = .ok (result, others)) :
    (result.map Body.looseSize).getD 0 + Attribute.sizeAll others ≤
      (body.map Body.looseSize).getD 0 + Attribute.sizeAll done + Attribute.sizeAll attributes := by
  induction attributes generalizing body done with
  | nil =>
      cases split
      rw [Attribute.sizeAll_eq, List.map_reverse, List.sum_reverse, ← Attribute.sizeAll_eq]
      exact Nat.le_add_right _ _
  | cons first rest inductionHypothesis =>
      have skipped
          (later : splitBody pool body (first :: done) rest = .ok (result, others)) :
          (result.map Body.looseSize).getD 0 + Attribute.sizeAll others ≤
            (body.map Body.looseSize).getD 0 + Attribute.sizeAll done +
              Attribute.sizeAll (first :: rest) := by
        have size := inductionHypothesis later
        simp only [Attribute.sizeAll] at size ⊢
        omega
      cases first with
      | code raw =>
          cases body with
          | some body => cases split
          | none =>
              obtain ⟨decoded, read, later⟩ := bind_eq_ok_iff.mp split
              obtain ⟨_, _, decodes⟩ := Body.ofAttribute_eq_ok_iff.mp read
              have size := inductionHypothesis later
              have loose := decodes.looseSize_le
              simp only [Attribute.sizeAll, Option.map_some, Option.getD_some, Option.map_none,
                Option.getD_none] at size ⊢
              omega
      | _ => exact skipped split

namespace ClassModel

/-- No attribute table of a class takes more bytes than a class that is read may have. -/
structure Light (model : ClassModel) : Prop where
  fields : ∀ field ∈ model.fields, Attribute.sizeAll field.attributes ≤ maxClassSize
  methods :
    ∀ method ∈ model.methods,
      method.looseSize + Attribute.sizeAll method.attributes ≤ maxClassSize
  attributes : Attribute.sizeAll model.attributes ≤ maxClassSize

/-- A class that was read is light. -/
theorem light_of_read
    {bytes : Bytes}
    {model : ClassModel}
    (found : ClassModel.read bytes = .ok model) :
    model.Light := by
  obtain ⟨small, file, reads, resolves⟩ := read_eq_ok_iff.mp found
  obtain ⟨_, _, _, content, shape, _, _, fields, methods, attributes, contentShape, fieldsRead,
    methodsRead, attributesRead⟩ := ClassFile.reads_reader_iff.mp reads
  have whole := congrArg List.length shape
  rw [contentShape] at whole
  simp only [List.length_append] at whole
  constructor
  · intro field member
    obtain ⟨info, among, resolved⟩ := exists_of_forall₂ resolves.fields member
    obtain ⟨_, _, _, same⟩ := Field.ofInfo_eq_ok_iff.mp resolved
    have size := MemberInfo.sizeAll_le_of_reads fieldsRead among
    rw [same]
    omega
  · intro method member
    obtain ⟨info, among, resolved⟩ := exists_of_forall₂ resolves.methods member
    obtain ⟨split, _⟩ := Method.ofInfo_eq_ok_iff.mp resolved
    have size := MemberInfo.sizeAll_le_of_reads methodsRead among
    have parts := Method.sizeAll_le_of_splitBody split
    simp only [Option.map_none, Option.getD_none, Attribute.sizeAll] at parts
    rw [Method.looseSize]
    omega
  · have size := Attribute.sizeAll_le_of_reads attributesRead
    rw [resolves.attributes]
    omega

end ClassModel

/-! ## Written classes -/

open Reader Writing

/-- Where no attribute is a body, none is found. -/
theorem Verify.firstBody?_eq_none
    {attributes : List Attribute}
    (noBody : ∀ item ∈ attributes, item.isBody = false) :
    firstBody? attributes = none := by
  refine List.findSome?_eq_none_iff.mpr fun item member => ?_
  have none := noBody item member
  cases item with
  | code raw => cases none
  | _ => rfl

namespace Method

/-- The body of a method was read from the first body among the attributes. -/
theorem firstBody?_of_splitBody
    {pool : Pool}
    {done attributes others : List Attribute}
    {held : Option Body}
    (split : splitBody pool none done attributes = .ok (held, others)) :
    Option.Rel (fun raw body => Body.ofAttribute pool raw = .ok body)
      (Verify.firstBody? attributes) held := by
  induction attributes generalizing done with
  | nil =>
      cases split
      exact .none
  | cons first rest inductionHypothesis =>
      cases first with
      | code raw =>
          obtain ⟨decoded, read, later⟩ := bind_eq_ok_iff.mp split
          obtain ⟨_, _, _, ⟨rfl, _⟩ | ⟨none, _⟩⟩ := parts_of_splitBody later
          · exact .some read
          · cases none
      | _ => exact inductionHypothesis split

theorem exists_firstBody_of_splitBody
    {pool : Pool}
    {done attributes others : List Attribute}
    {body : Body}
    (split : splitBody pool none done attributes = .ok (some body, others)) :
    ∃ raw, Verify.firstBody? attributes = some raw ∧ Body.ofAttribute pool raw = .ok body := by
  have bodies := firstBody?_of_splitBody split
  cases found : Verify.firstBody? attributes with
  | none =>
      rw [found] at bodies
      cases bodies
  | some raw =>
      rw [found] at bodies
      cases bodies with
      | some read => exact ⟨raw, rfl, read⟩

/-- A method with counts that fit their fields, and a body that can be written if it has one. -/
structure Encodable
    (pool : Pool)
    (method : Method) : Prop where
  short : method.attributes.length + method.body.toList.length < 2 ^ 16
  fits : ∀ item ∈ method.attributes, item.Fits pool ∧ item.isBody = false
  body :
    ∀ body, method.body = some body →
      pool.Knows (.utf8 "Code") ∧ Node.Closed body.nodes ∧ body.Writable pool

/-- The code that the body of a method was assembled to on the way from one pool to another. -/
def EncodesBody
    (first last : Pool)
    (body : Body)
    (raw : CodeAttribute Attribute) : Prop :=
  ∃ start grown after labels written offsets,
    first.LeadsTo start ∧ body.Assembled start grown after labels written offsets raw ∧
      after.LeadsTo last

/-- What a method was written as on the way from one pool to another. -/
structure Encoded
    (first last : Pool)
    (method : Method)
    (info : MemberInfo) : Prop where
  access : info.access = method.access
  name : last.text info.name = .ok method.name
  descriptor : last.text info.descriptor = .ok method.descriptor
  bodiless : method.body = none → Verify.firstBody? info.attributes = none
  body :
    ∀ body, method.body = some body →
      ∃ raw, Verify.firstBody? info.attributes = some raw ∧ EncodesBody first last body raw

variable
  {context : WriteContext} {method : Method} {body : Body} {first last pool next : Pool}
  {bytes : Bytes}

/-- A body that can be written is read back as the code that it was assembled to. -/
theorem exists_readBack_of_encodeBody
    (sound : first.Sound)
    (short : last.size ≤ 2 ^ 16)
    (nothing : context.options = ⟨false, false⟩)
    (known : first.Knows (.utf8 "Code"))
    (closed : Node.Closed body.nodes)
    (writable : body.Writable first)
    (reached : first.LeadsTo pool)
    (written : method.encodeBody context body pool = .ok (bytes, next))
    (leads : next.LeadsTo last) :
    ∃ raw,
      EncodesBody first last body raw ∧ Attribute.ReadBack last bytes (.code raw) ∧
        (Attribute.code raw).size ≤ 2 ^ 21 + body.looseSize ∧
          bytes.length = (Attribute.code raw).size := by
  obtain ⟨raw, middle, assembles, framing⟩ := Writing.bind_eq_ok_iff.mp written
  rw [Writing.intern_bind_eq_ok_iff, Writing.intern_bind_eq_ok_iff] at framing
  have toMiddle := reached.trans (body.growing_assemble _ _ _ _ _ _ _ assembles)
  have fromMiddle :=
    (Attribute.growing_encodeCode raw middle).trans
      (Pool.growing_internText "Code" (Attribute.encodeCode raw middle).2)
  obtain ⟨grown, labels, rows, offsets, assembled⟩ :=
    Body.exists_assembled closed nothing assembles
  obtain ⟨rfl, same⟩ := Writing.pure_eq_ok_iff.mp framing
  have middleShort :=
    Nat.le_trans (fromMiddle.kept.trans (same ▸ leads.kept)).size_le short
  have grows := toMiddle.grows sound middleShort
  obtain ⟨pieces, encoded, readBack⟩ :=
    Attribute.encodeTable_of_fits grows.sound
      fun item member => (assembled.fits writable item member).grown grows
  obtain ⟨number, interned, named⟩ := Pool.internText_of_known grows.sound (grows.known _ known)
  have content :
      Attribute.encodeCode raw middle =
        (Attribute.codeHead raw ++ (Bytes.count16 raw.attributes ++ pieces.flatten), middle) := by
    simp only [Attribute.encodeCode, bind, StateT.bind, encoded, pure_apply]
  have size := Attribute.length_encodeTable raw.attributes middle
  rw [encoded] at size
  rw [content, interned] at same ⊢
  subst same
  refine ⟨raw, ⟨_, _, _, _, _, _, reached, assembled, leads⟩,
    (Attribute.readBack_of_body named (assembled.headFits writable)
      (assembled.length_attributes writable) readBack).grown leads.kept,
    assembled.size_le writable, ?_⟩
  rw [Attribute.length_frame, Attribute.size_code, List.length_append, size]
  omega

/-- The bodies of a method are read back from their pieces, in front of its attributes. -/
theorem exists_readBack_of_bodies
    {bodies : List Bytes}
    (sound : first.Sound)
    (short : last.size ≤ 2 ^ 16)
    (nothing : context.options = ⟨false, false⟩)
    (encodable : method.Encodable first)
    (reached : first.LeadsTo pool)
    (written : method.body.toList.mapM (method.encodeBody context) pool = .ok (bodies, next))
    (leads : next.LeadsTo last) :
    ∃ raws : List (CodeAttribute Attribute),
      List.Forall₂ (EncodesBody first last) method.body.toList raws ∧
        List.Forall₂ (Attribute.ReadBack last) bodies (raws.map .code) ∧
          bodies.flatten.length ≤ 2 ^ 21 + method.looseSize := by
  cases held : method.body with
  | none =>
      rw [held] at written
      obtain ⟨rfl, rfl⟩ := Writing.pure_eq_ok_iff.mp written
      exact ⟨[], .nil, .nil, Nat.zero_le _⟩
  | some body =>
      rw [held, Option.toList_some, List.mapM_cons] at written
      obtain ⟨piece, _, bodyWritten, written⟩ := Writing.bind_eq_ok_iff.mp written
      obtain ⟨_, _, none, ended⟩ := Writing.bind_eq_ok_iff.mp written
      obtain ⟨rfl, rfl⟩ := Writing.pure_eq_ok_iff.mp none
      obtain ⟨rfl, rfl⟩ := Writing.pure_eq_ok_iff.mp ended
      obtain ⟨known, closed, writable⟩ := encodable.body body held
      obtain ⟨raw, encodes, readBack, light, size⟩ :=
        exists_readBack_of_encodeBody sound short nothing known closed writable reached bodyWritten
          leads
      refine ⟨[raw], .cons encodes .nil, .cons readBack .nil, ?_⟩
      simpa [size, looseSize, held] using light

end Method

/-- A method that can be written is read back as what it was written as. -/
theorem Writing.Between.exists_methodInfo
    {context : WriteContext}
    {method : Method}
    {first last : Pool}
    {bytes : Bytes}
    (sound : first.Sound)
    (short : last.size ≤ 2 ^ 16)
    (nothing : context.options = ⟨false, false⟩)
    (encodable : method.Encodable first)
    (between : Between first last (Method.encode context) method bytes) :
    ∃ info,
      MemberInfo.ReadBack last bytes info ∧ Method.Encoded first last method info ∧
        bytes.length ≤
          2 ^ 22 + (method.looseSize + Attribute.sizeAll method.attributes) := by
  obtain ⟨before, after, reached, written, leads⟩ := between
  obtain ⟨_, second, _, third, bodies, fourth, nameWritten, descriptorWritten, bodyWritten, rfl,
    rfl⟩ := Method.exists_steps_of_encode written
  have toSecond := reached.trans (growing_text _ _ _ _ nameWritten)
  have toThird := toSecond.trans (growing_text _ _ _ _ descriptorWritten)
  have bodyGrowing := growing_mapM (Method.growing_encodeBody context method) _ _ _ bodyWritten
  have toFourth := toThird.trans bodyGrowing
  have fromFourth := (Attribute.growing_encodeAll [] method.attributes fourth).trans leads
  have fromThird := bodyGrowing.trans fromFourth
  have fromSecond := (growing_text _ _ _ _ descriptorWritten).trans fromThird
  have fromFirst := (growing_text _ _ _ _ nameWritten).trans fromSecond
  have growsTo {middle : Pool} (reached : first.LeadsTo middle) (leads : middle.LeadsTo last) :
      Pool.Grows first middle :=
    reached.grows sound (Nat.le_trans leads.kept.size_le short)
  obtain ⟨name, rfl, named⟩ :=
    exists_text (growsTo reached fromFirst).sound short nameWritten fromSecond
  obtain ⟨descriptor, rfl, described⟩ :=
    exists_text (growsTo toSecond fromSecond).sound short descriptorWritten fromThird
  obtain ⟨raws, encodes, bodiesReadBack, bodiesLight⟩ :=
    Method.exists_readBack_of_bodies sound short nothing encodable toThird bodyWritten fromFourth
  have grows := growsTo toFourth fromFourth
  obtain ⟨pieces, encoded, readBack⟩ :=
    Attribute.encodeAll_of_fits grows.sound
      fun item member => (encodable.fits item member).1.grown grows
  have size := Attribute.length_encodeAll [] method.attributes fourth
  rw [encoded] at size leads ⊢
  have noBody : ∀ item ∈ method.attributes, item.isBody = false :=
    fun item member => (encodable.fits item member).2
  have counts := bodiesReadBack.length_eq
  have bodiesCount := encodes.length_eq
  rw [List.length_map] at counts
  let info : MemberInfo :=
    ⟨method.access, name, descriptor, raws.map .code ++ method.attributes⟩
  have whole :=
    @MemberInfo.readBack_of_attributes last (bodies ++ pieces) info
      (by
        have few := encodable.short
        simp only [info, List.length_append, List.length_map]
        omega)
      (List.rel_append bodiesReadBack (readBack.imp fun _ _ each => each.grown leads.kept))
  refine ⟨info, ?_, ⟨rfl, named, described, fun none => ?_, fun body held => ?_⟩, ?_⟩
  · have shape :
        Bytes.count16 (raws.map Attribute.code ++ method.attributes) =
          Bytes.ofUInt16 (UInt16.ofNat (method.attributes.length + bodies.length)) := by
      rw [Bytes.count16, List.length_append, List.length_map, counts, Nat.add_comm]
    simpa only [info, shape, List.flatten_append, List.append_assoc] using whole
  · rw [none] at encodes
    cases encodes
    exact Verify.firstBody?_eq_none noBody
  · rw [held] at encodes
    obtain ⟨raw, _, encodesBody, _, rfl⟩ := List.forall₂_cons_left_iff.mp encodes
    exact ⟨raw, rfl, encodesBody⟩
  · simp only [List.flatten_nil, List.length_nil] at size
    simp only [List.length_append, Bytes.length_ofUInt16, size]
    omega

/-- A field takes as many bytes as its numbers and its attributes do. -/
theorem Field.length_encode
    {field : Field}
    {pool after : Pool}
    {bytes : Bytes}
    (written : field.encode pool = .ok (bytes, after)) :
    bytes.length = 8 + Attribute.sizeAll field.attributes := by
  have number {text : String} {bytes : Bytes} {before next : Pool}
      (written : Writing.text text before = .ok (bytes, next)) :
      bytes.length = 2 := by
    obtain ⟨rfl, _⟩ := Prod.mk.inj (Except.ok.inj written)
    exact Bytes.length_ofUInt16 _
  obtain ⟨_, second, _, third, attributeBytes, nameWritten, descriptorWritten, attributesWritten,
    rfl⟩ := Field.exists_steps_of_encode written
  have attributes := Attribute.length_encodeTable field.attributes third
  rw [show (Attribute.encodeTable field.attributes third).1 = attributeBytes from
    congrArg Prod.fst (Except.ok.inj attributesWritten)] at attributes
  simp only [List.length_append, Bytes.length_ofUInt16, number nameWritten,
    number descriptorWritten, attributes]
  omega

namespace ClassModel

/-- A class that can be written and read again, as long as nothing of it is computed. -/
structure Encodable (model : ClassModel) : Prop where
  sound : model.pool.Sound
  old : oldestVersion ≤ model.major
  new : model.major ≤ newestVersion
  interfacesShort : model.interfaces.length < 2 ^ 16
  fieldsShort : model.fields.length < 2 ^ 16
  methodsShort : model.methods.length < 2 ^ 16
  fields : ∀ field ∈ model.fields, Attribute.TableFits model.pool field.attributes
  methods : ∀ method ∈ model.methods, method.Encodable model.pool
  attributes : Attribute.TableFits model.pool model.attributes
  light : model.Light

/-- What is read of a class that was written as it is. -/
structure Reencoded
    (model : ClassModel)
    (file : ClassFile) : Prop where
  major : file.major = model.major
  methods :
    ∃ last : Pool,
      last.size ≤ 2 ^ 16 ∧ file.pool.entries = last.entries ∧
        List.Forall₂ (Method.Encoded model.pool last) model.methods file.methods

variable
  {model : ClassModel} {context : WriteContext} {parts : WrittenParts} (encodable : model.Encodable)
include encodable

theorem Encodable.exists_methodInfos
    (nothing : context.options = ⟨false, false⟩)
    (writtenAs : model.WrittenAs context parts) :
    ∃ infos,
      List.Forall₂ (MemberInfo.ReadBack parts.pool) parts.methods infos ∧
        List.Forall₂ (Method.Encoded model.pool parts.pool) model.methods infos ∧
          ∀ piece ∈ parts.methods, piece.length < 2 ^ 32 := by
  have rows := writtenAs.methods
  have methods := encodable.methods
  have light := encodable.light.methods
  generalize model.methods = methods at rows methods light
  generalize parts.methods = pieces at rows
  induction rows with
  | nil => exact ⟨[], .nil, .nil, nofun⟩
  | cons first _ inductionHypothesis =>
      rw [List.forall_mem_cons] at methods light
      obtain ⟨info, readBack, encoded, size⟩ :=
        first.exists_methodInfo encodable.sound (Nat.le_of_lt writtenAs.short) nothing methods.1
      obtain ⟨infos, others, othersEncoded, othersSmall⟩ := inductionHypothesis methods.2 light.2
      refine ⟨info :: infos, .cons readBack others, .cons encoded othersEncoded, ?_⟩
      have lightFirst := light.1
      rw [maxClassSize] at lightFirst
      exact List.forall_mem_cons.mpr ⟨by omega, othersSmall⟩

theorem Encodable.length_fields
    (writtenAs : model.WrittenAs context parts)
    (piece : Bytes)
    (member : piece ∈ parts.fields) :
    piece.length < 2 ^ 32 := by
  obtain ⟨field, among, _, _, _, written, _⟩ := exists_of_forall₂ writtenAs.fields member
  have light := encodable.light.fields field among
  rw [maxClassSize] at light
  rw [Field.length_encode written]
  omega

/-- A class that can be written can be read with the code that it was assembled to. -/
theorem exists_file_of_writeWith
    {options : WriteOptions}
    {hierarchy : Hierarchy}
    {written : Bytes}
    (nothing : options = ⟨false, false⟩)
    (encoded : model.writeWith options hierarchy = .ok written) :
    ∃ file, ClassFile.ofBytes written = .ok file ∧ Reencoded model file := by
  obtain ⟨parts, writtenAs, rfl⟩ := exists_parts_of_writeWith encodable.sound encoded
  obtain ⟨again, poolReads, sameEntries⟩ :=
    Pool.exists_reads_of_encode writtenAs.grows.sound writtenAs.poolEncoded
  have kept : Entry.Extends parts.pool.entries again.entries := sameEntries ▸ .refl _
  obtain ⟨fieldInfos, fieldsReadBack, fieldsResolved⟩ :=
    exists_fieldInfos_of_writtenAs encodable.sound writtenAs encodable.fields
  obtain ⟨methodInfos, methodsReadBack, methodsEncoded, methodsSmall⟩ :=
    encodable.exists_methodInfos nothing writtenAs
  obtain ⟨attributePieces, attributesShape, attributesReadBack⟩ :=
    Writing.Between.exists_attributePieces encodable.sound (Nat.le_of_lt writtenAs.short)
      encodable.attributes.fits writtenAs.attributes
  have fieldsCount := (fieldsResolved again sameEntries).length_eq
  have methodsCount := methodsEncoded.length_eq
  have interfacesCount := writtenAs.interfacesNamed.length_eq
  let file : ClassFile :=
    ⟨model.minor, model.major, again, model.access, parts.thisClass, parts.superClass,
      parts.interfaces, fieldInfos, methodInfos, model.attributes⟩
  refine ⟨file, ClassFile.ofBytes_eq_ok_iff.mpr ?_, rfl, parts.pool, Nat.le_of_lt writtenAs.short,
    sameEntries, methodsEncoded⟩
  generalize deep :
    (Bytes.ofUInt32 classMagic ++ (Bytes.ofUInt16 model.minor ++ (Bytes.ofUInt16 model.major ++
      (parts.poolBytes ++ parts.content model.access)))).length = depth
  simp only [WrittenParts.content, WrittenParts.fieldBytes, WrittenParts.methodBytes,
    List.length_append, Bytes.length_count16, attributesShape] at deep
  have membersLocal := MemberInfo.local_reader again depth
  have fieldsRead :=
    reads_table_of_small membersLocal (fieldsReadBack.imp fun _ _ each => each _ kept)
      (fieldsCount ▸ encodable.fieldsShort) (encodable.length_fields writtenAs)
      (show _ ≤ depth by omega)
  have methodsRead :=
    reads_table_of_small membersLocal (methodsReadBack.imp fun _ _ each => each _ kept)
      (methodsCount ▸ encodable.methodsShort) methodsSmall (show _ ≤ depth by omega)
  have attributesSmall : attributePieces.flatten.length < 2 ^ 32 := by
    obtain ⟨before, _, _, attributesWritten, _⟩ := writtenAs.attributes
    have size := Attribute.length_encodeTable model.attributes before
    have light := encodable.light.attributes
    rw [maxClassSize] at light
    rw [show (Attribute.encodeTable model.attributes before).1 = parts.attributes from
      congrArg Prod.fst (Except.ok.inj attributesWritten), attributesShape, List.length_append,
      Bytes.length_count16] at size
    omega
  have attributesRead :=
    Attribute.reads_table_of_readBack attributesReadBack kept encodable.attributes.short
      attributesSmall (show _ ≤ depth by omega)
  refine ClassFile.reads_reader_iff.mpr
    ⟨encodable.old, encodable.new, parts.poolBytes, parts.content model.access, rfl, poolReads,
      interfacesCount ▸ encodable.interfacesShort, _, _, _, ?_, fieldsRead, methodsRead,
      attributesRead⟩
  have sameFields := fieldsReadBack.length_eq
  have sameMethods := methodsReadBack.length_eq
  simp only [WrittenParts.content, WrittenParts.fieldBytes, WrittenParts.methodBytes,
    Bytes.count16, sameFields, sameMethods, attributesShape, file]

end ClassModel

end JvmClass
