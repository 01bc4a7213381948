import JvmClass.ClassModel.Write
import JvmClass.Proofs.Body.RoundTrip
import JvmClass.Proofs.ClassModel.Read

namespace JvmClass

/-!
# Classes survive being written

A class that was read is written without a new constant, and reading what was
written gives the same class.  Only distances of frames may differ, and writing
once more gives the same bytes.
-/

open Reader

/-! ## Names and tables -/

namespace Writing

variable {pool : Pool}

theorem text_of_known
    {value : String}
    (sound : pool.Sound)
    (known : pool.Knows (.utf8 value)) :
    ∃ number,
      Writing.text value pool = .ok (Bytes.ofUInt16 number, pool) ∧
        pool.text number = .ok value := by
  obtain ⟨number, interned, found⟩ := Pool.internText_of_known sound known
  refine ⟨number, ?_, found⟩
  show Except.ok (Bytes.ofUInt16 (Pool.internText value pool).1, (Pool.internText value pool).2) = _
  rw [interned]

theorem className_of_known
    {name : String}
    (sound : pool.Sound)
    (known : pool.Knows (.classRef name)) :
    ∃ number,
      Writing.className name pool = .ok (Bytes.ofUInt16 number, pool) ∧
        pool.className number = .ok name := by
  obtain ⟨number, interned, found⟩ := Pool.internClass_of_known sound known
  refine ⟨number, ?_, found⟩
  show Except.ok (Bytes.ofUInt16 (Pool.internClass name pool).1, (Pool.internClass name pool).2) = _
  rw [interned]

theorem classOrNone_of_known
    {name : Option String}
    (sound : pool.Sound)
    (known : ∀ found, name = some found → pool.Knows (.classRef found)) :
    ∃ number,
      Writing.classOrNone name pool = .ok (Bytes.ofUInt16 number, pool) ∧
        pool.ClassOrNone number name := by
  cases name with
  | none => exact ⟨0, rfl, rfl⟩
  | some name =>
      obtain ⟨number, written, named⟩ := className_of_known sound (known name rfl)
      have stands : (Constant.classRef name).StandsAt pool.entries number := named
      exact ⟨number, written, sound.ne_zero stands, named⟩

theorem attributes_of_fits
    {items : List Attribute}
    (sound : pool.Sound)
    (fits : ∀ item ∈ items, item.Fits pool) :
    ∃ pieces,
      Writing.attributes items pool = .ok (Bytes.count16 items ++ pieces.flatten, pool) ∧
        List.Forall₂ (Attribute.ReadBack pool) pieces items := by
  obtain ⟨pieces, encoded, readBack⟩ := Attribute.encodeTable_of_fits sound fits
  refine ⟨pieces, ?_, readBack⟩
  show Except.ok (Attribute.encodeTable items pool) = _
  rw [encoded]

/-- A table whose elements leave the pool alone is their bytes in a row. -/
theorem table16_eq_ok
    {α : Type}
    {encode : α → Writing Bytes}
    {elements : List α}
    {bytes : Bytes}
    {after : Pool}
    (unchanged :
      ∀ element ∈ elements, ∀ bytes after,
        encode element pool = .ok (bytes, after) → after = pool)
    (written : Writing.table16 encode elements pool = .ok (bytes, after)) :
    after = pool ∧
      ∃ pieces,
        bytes = Bytes.count16 elements ++ pieces.flatten ∧
          List.Forall₂ (fun element piece => encode element pool = .ok (piece, pool))
            elements pieces := by
  obtain ⟨pieces, middle, row, ended⟩ := Writing.bind_eq_ok_iff.mp written
  obtain ⟨rfl, pieceRow⟩ := Writing.row_of_mapM unchanged row
  obtain ⟨rfl, rfl⟩ := Writing.pure_eq_ok_iff.mp ended
  exact ⟨rfl, pieces, rfl, pieceRow⟩

end Writing

/-! ## Members -/

/-- The bytes are read as the member against any pool that has grown from this one. -/
def MemberInfo.ReadBack
    (pool : Pool)
    (bytes : Bytes)
    (info : MemberInfo) : Prop :=
  ∀ after : Pool,
    Entry.Extends pool.entries after.entries → ReadsBack (MemberInfo.reader after) bytes info

theorem MemberInfo.readBack_of_attributes
    {pool : Pool}
    {pieces : List Bytes}
    {info : MemberInfo}
    (short : info.attributes.length < 2 ^ 16)
    (readBack : List.Forall₂ (Attribute.ReadBack pool) pieces info.attributes) :
    MemberInfo.ReadBack pool
      (Bytes.ofUInt16 info.access ++ Bytes.ofUInt16 info.name ++ Bytes.ofUInt16 info.descriptor
        ++ (Bytes.count16 info.attributes ++ pieces.flatten))
      info := by
  intro after kept small depth deep
  simp only [List.length_append, Bytes.length_ofUInt16, Bytes.length_count16] at small deep
  have table :=
    Attribute.reads_table_of_readBack readBack kept short (show _ < 2 ^ 32 by omega)
      (show _ ≤ depth by omega)
  refine MemberInfo.reads_reader_iff.mpr ⟨_, ?_, table⟩
  simp only [List.append_assoc]

/-- A regular field is written without a new constant and read back from its bytes. -/
theorem Field.exists_readBack
    {pool : Pool}
    {field : Field}
    (sound : pool.Sound)
    (regular : field.Regular pool) :
    ∃ bytes info,
      field.encode pool = .ok (bytes, pool) ∧ Field.ofInfo pool info = .ok field ∧
        MemberInfo.ReadBack pool bytes info := by
  obtain ⟨name, nameWritten, named⟩ := Writing.text_of_known sound regular.name
  obtain ⟨descriptor, descriptorWritten, described⟩ :=
    Writing.text_of_known sound regular.descriptor
  obtain ⟨pieces, attributesWritten, readBack⟩ :=
    Writing.attributes_of_fits sound regular.attributes.fits
  refine ⟨_, ⟨field.access, name, descriptor, field.attributes⟩, ?_, ?_,
    MemberInfo.readBack_of_attributes regular.attributes.short readBack⟩
  · refine Writing.bind_eq_ok_iff.mpr ⟨_, pool, nameWritten, ?_⟩
    refine Writing.bind_eq_ok_iff.mpr ⟨_, pool, descriptorWritten, ?_⟩
    exact Writing.bind_eq_ok_iff.mpr ⟨_, pool, attributesWritten, rfl⟩
  · exact Field.ofInfo_eq_ok_iff.mpr ⟨rfl, named, described, rfl⟩

/-- A field is written step by step: its name, its descriptor and its attributes. -/
theorem Field.exists_steps_of_encode
    {pool after : Pool}
    {field : Field}
    {bytes : Bytes}
    (written : field.encode pool = .ok (bytes, after)) :
    ∃ nameBytes second descriptorBytes third attributeBytes,
      Writing.text field.name pool = .ok (nameBytes, second) ∧
        Writing.text field.descriptor second = .ok (descriptorBytes, third) ∧
          Writing.attributes field.attributes third = .ok (attributeBytes, after) ∧
            bytes =
              Bytes.ofUInt16 field.access ++ nameBytes ++ descriptorBytes ++ attributeBytes := by
  obtain ⟨nameBytes, second, nameWritten, written⟩ := Writing.bind_eq_ok_iff.mp written
  obtain ⟨descriptorBytes, third, descriptorWritten, written⟩ := Writing.bind_eq_ok_iff.mp written
  obtain ⟨attributeBytes, fourth, attributesWritten, ended⟩ := Writing.bind_eq_ok_iff.mp written
  obtain ⟨rfl, rfl⟩ := Writing.pure_eq_ok_iff.mp ended
  exact ⟨nameBytes, second, descriptorBytes, third, attributeBytes, nameWritten, descriptorWritten,
    attributesWritten, rfl⟩

namespace Method

/-- Two methods are the same, except for the distances of the frames of their bodies. -/
structure Alike
    (method again : Method) : Prop where
  same : again = { method with body := again.body }
  body : Option.Rel Body.Alike method.body again.body

/-- A regular body is written without a new constant and decoded from its bytes. -/
theorem exists_body_of_encodeBody
    {pool after : Pool}
    {context : WriteContext}
    {method : Method}
    {body : Body}
    {bytes : Bytes}
    {steps : List (Spot × Insn)}
    {last : Option Label}
    (sound : pool.Sound)
    (nothing : context.options = ⟨false, false⟩)
    (known : pool.Knows (.utf8 "Code"))
    (regular : body.Regular pool steps last)
    (few : body.FewRows)
    (written : method.encodeBody context body pool = .ok (bytes, after)) :
    after = pool ∧
      ∃ raw again,
        Attribute.ReadBack pool bytes (.code raw) ∧ Body.ofAttribute pool raw = .ok again ∧
          Body.Alike body again := by
  obtain ⟨raw, middle, assembled, framing⟩ := Writing.bind_eq_ok_iff.mp written
  obtain ⟨rfl, labels, rows, stop, tables, reassembled⟩ :=
    regular.reassembled_of_assemble sound nothing assembled
  obtain ⟨again, decoded, alike⟩ := reassembled.exists_alike regular
  obtain ⟨pieces, encoded, readBack⟩ :=
    Attribute.encodeTable_of_fits sound (reassembled.fits regular few)
  obtain ⟨number, interned, named⟩ := Pool.internText_of_known sound known
  have content :
      Attribute.encodeCode raw middle =
        (Attribute.codeHead raw ++ (Bytes.count16 raw.attributes ++ pieces.flatten), middle) := by
    simp only [Attribute.encodeCode, bind, StateT.bind, encoded, pure_apply]
  rw [Writing.intern_bind_eq_ok_iff, content, Writing.intern_bind_eq_ok_iff, interned] at framing
  obtain ⟨rfl, rfl⟩ := Writing.pure_eq_ok_iff.mp framing
  exact ⟨rfl, raw, again,
    Attribute.readBack_of_body named (reassembled.headFits regular)
      (reassembled.length_attributes regular) readBack,
    decoded, alike⟩

theorem intern_encodeAll_of_fits
    {pool : Pool}
    {items : List Attribute}
    (sound : pool.Sound)
    (fits : ∀ item ∈ items, item.Fits pool) :
    ∃ pieces,
      Writing.intern (Attribute.encodeAll [] items) pool = .ok (pieces.flatten, pool) ∧
        List.Forall₂ (Attribute.ReadBack pool) pieces items := by
  obtain ⟨pieces, encoded, readBack⟩ := Attribute.encodeAll_of_fits sound fits
  refine ⟨pieces, ?_, readBack⟩
  show Except.ok (Attribute.encodeAll [] items pool) = _
  rw [encoded]

/-- A regular method is written without a new constant and read back from its bytes. -/
theorem exists_readBack_of_encode
    {pool after : Pool}
    {context : WriteContext}
    {method : Method}
    {bytes : Bytes}
    (sound : pool.Sound)
    (nothing : context.options = ⟨false, false⟩)
    (regular : method.Regular pool)
    (few : ∀ body, method.body = some body → body.FewRows)
    (written : method.encode context pool = .ok (bytes, after)) :
    after = pool ∧
      ∃ info again,
        MemberInfo.ReadBack pool bytes info ∧ Method.ofInfo pool info = .ok again ∧
          Alike method again := by
  obtain ⟨access, ownName, ownDescriptor, body, attributes⟩ := method
  obtain ⟨name, nameWritten, named⟩ := Writing.text_of_known sound regular.name
  obtain ⟨descriptor, descriptorWritten, described⟩ :=
    Writing.text_of_known sound regular.descriptor
  obtain ⟨pieces, attributesWritten, readBack⟩ :=
    intern_encodeAll_of_fits sound fun item member => (regular.fits item member).1
  have noBody : ∀ item ∈ attributes, item.isBody = false :=
    fun item member => (regular.fits item member).2
  have short := regular.short
  obtain ⟨_, _, first, behindName⟩ := Writing.bind_eq_ok_iff.mp written
  rw [nameWritten] at first
  cases first
  obtain ⟨_, _, second, behindDescriptor⟩ := Writing.bind_eq_ok_iff.mp behindName
  rw [descriptorWritten] at second
  cases second
  cases body with
  | none =>
      obtain ⟨_, _, none, behindBody⟩ := Writing.bind_eq_ok_iff.mp behindDescriptor
      obtain ⟨rfl, rfl⟩ := Writing.pure_eq_ok_iff.mp none
      obtain ⟨_, _, third, ending⟩ := Writing.bind_eq_ok_iff.mp behindBody
      rw [attributesWritten] at third
      cases third
      obtain ⟨rfl, rfl⟩ := Writing.pure_eq_ok_iff.mp ending
      have members : List.Forall₂ (Attribute.ReadBack after) pieces
        (MemberInfo.mk access name descriptor attributes).attributes := readBack
      refine ⟨rfl, ⟨access, name, descriptor, attributes⟩, _, ?_,
        ofInfo_eq_ok_iff.mpr ⟨splitBody_of_noBody noBody, rfl, named, described⟩, rfl, .none⟩
      have whole := MemberInfo.readBack_of_attributes (by simpa using short) members
      simpa [Bytes.count16] using whole
  | some body =>
      obtain ⟨bodyBytes, middle, bodyWritten, behindBody⟩ :=
        Writing.bind_eq_ok_iff.mp behindDescriptor
      obtain ⟨known, steps, last, bodyRegular⟩ := regular.body body rfl
      obtain ⟨rfl, raw, again, bodyReadBack, decoded, alike⟩ :=
        exists_body_of_encodeBody sound nothing known bodyRegular (few body rfl) bodyWritten
      obtain ⟨_, _, third, ending⟩ := Writing.bind_eq_ok_iff.mp behindBody
      rw [attributesWritten] at third
      cases third
      obtain ⟨rfl, rfl⟩ := Writing.pure_eq_ok_iff.mp ending
      have members : List.Forall₂ (Attribute.ReadBack after) (bodyBytes :: pieces)
        (MemberInfo.mk access name descriptor (.code raw :: attributes)).attributes :=
        .cons bodyReadBack readBack
      have split :
          splitBody after none [] (.code raw :: attributes) = .ok (some again, attributes) :=
        bind_eq_ok_iff.mpr ⟨again, decoded, splitBody_of_noBody noBody⟩
      refine ⟨rfl, ⟨access, name, descriptor, .code raw :: attributes⟩,
        ⟨access, ownName, ownDescriptor, some again, attributes⟩, ?_,
        ofInfo_eq_ok_iff.mpr ⟨split, rfl, named, described⟩, rfl, .some alike⟩
      have whole := MemberInfo.readBack_of_attributes (by simpa using short) members
      simpa [Bytes.count16] using whole

/-- How a method is written does not depend on the distances of its frames. -/
theorem encode_eq_of_alike
    {method again : Method}
    {context : WriteContext}
    (alike : Alike method again)
    (nothing : context.options = ⟨false, false⟩) :
    again.encode context = method.encode context := by
  obtain ⟨access, name, descriptor, body, attributes⟩ := method
  obtain ⟨same, bodies⟩ := alike
  rw [same]
  generalize again.body = other at bodies ⊢
  cases bodies with
  | none => rfl
  | some alike =>
      have assembled := Body.assemble_eq_of_alike alike nothing access name descriptor
      simp only [encode, encodeBody, assembled, Option.isSome_some]

end Method

/-! ## Classes -/

/-- Two classes are the same, except for the distances of the frames of their methods. -/
structure ClassModel.Alike
    (model again : ClassModel) : Prop where
  same : again = { model with methods := again.methods }
  methods : List.Forall₂ Method.Alike model.methods again.methods

section Rows

variable {pool : Pool}

theorem exists_numbers
    {names : List String}
    {pieces : List Bytes}
    (sound : pool.Sound)
    (known : ∀ name ∈ names, pool.Knows (.classRef name))
    (written :
      List.Forall₂ (fun name piece => Writing.className name pool = .ok (piece, pool))
        names pieces) :
    ∃ numbers : List UInt16,
      pieces = numbers.map Bytes.ofUInt16 ∧
        List.Forall₂ (fun number name => pool.className number = .ok name) numbers names := by
  induction written with
  | nil => exact ⟨[], rfl, .nil⟩
  | cons first _ inductionHypothesis =>
      simp only [List.mem_cons, forall_eq_or_imp] at known
      obtain ⟨number, written, named⟩ := Writing.className_of_known sound known.1
      rw [written] at first
      cases first
      obtain ⟨numbers, rfl, others⟩ := inductionHypothesis known.2
      exact ⟨number :: numbers, rfl, .cons named others⟩

theorem exists_fieldInfos
    {fields : List Field}
    {pieces : List Bytes}
    (sound : pool.Sound)
    (regular : ∀ field ∈ fields, field.Regular pool)
    (written :
      List.Forall₂ (fun field piece => field.encode pool = .ok (piece, pool)) fields pieces) :
    ∃ infos,
      List.Forall₂ (MemberInfo.ReadBack pool) pieces infos ∧
        List.Forall₂ (fun info field => Field.ofInfo pool info = .ok field) infos fields := by
  induction written with
  | nil => exact ⟨[], .nil, .nil⟩
  | cons first _ inductionHypothesis =>
      simp only [List.mem_cons, forall_eq_or_imp] at regular
      obtain ⟨bytes, info, encoded, resolved, readBack⟩ :=
        Field.exists_readBack sound regular.1
      rw [encoded] at first
      cases first
      obtain ⟨infos, others, othersResolved⟩ := inductionHypothesis regular.2
      exact ⟨info :: infos, .cons readBack others, .cons resolved othersResolved⟩

theorem exists_methodInfos
    {context : WriteContext}
    {methods : List Method}
    {pieces : List Bytes}
    (sound : pool.Sound)
    (nothing : context.options = ⟨false, false⟩)
    (regular : ∀ method ∈ methods, method.Regular pool)
    (few : ∀ method ∈ methods, ∀ body, method.body = some body → body.FewRows)
    (written :
      List.Forall₂ (fun method piece => method.encode context pool = .ok (piece, pool))
        methods pieces) :
    ∃ infos agains,
      List.Forall₂ (MemberInfo.ReadBack pool) pieces infos ∧
        List.Forall₂ (fun info again => Method.ofInfo pool info = .ok again) infos agains ∧
          List.Forall₂ Method.Alike methods agains := by
  induction written with
  | nil => exact ⟨[], [], .nil, .nil, .nil⟩
  | cons first _ inductionHypothesis =>
      simp only [List.mem_cons, forall_eq_or_imp] at regular few
      obtain ⟨_, info, again, readBack, resolved, alike⟩ :=
        Method.exists_readBack_of_encode sound nothing regular.1 few.1 first
      obtain ⟨infos, agains, others, othersResolved, othersAlike⟩ :=
        inductionHypothesis regular.2 few.2
      exact ⟨info :: infos, again :: agains, .cons readBack others,
        .cons resolved othersResolved, .cons alike othersAlike⟩

end Rows

namespace ClassModel

variable {model : ClassModel} {context : WriteContext}

/-- The bodies of a class have tables whose rows can be counted in two bytes. -/
def FewRows (model : ClassModel) : Prop :=
  ∀ method ∈ model.methods, ∀ body, method.body = some body → body.FewRows

/-- What stands behind the pool needs no constant and holds the class. -/
theorem exists_file_of_encodeContent
    {content : Bytes}
    {after : Pool}
    (regular : model.Regular)
    (few : model.FewRows)
    (nothing : context.options = ⟨false, false⟩)
    (written : model.encodeContent context model.pool = .ok (content, after)) :
    after = model.pool ∧
      ∃ file again,
        Resolves file again ∧ Alike model again ∧
          (content.length < 2 ^ 32 →
            ∀ depth, content.length ≤ depth → file.ContentReads depth content) := by
  have sound := regular.adopted.sound
  obtain ⟨thisClass, thisWritten, thisNamed⟩ := Writing.className_of_known sound regular.name
  obtain ⟨_, _, first, behindThis⟩ := Writing.bind_eq_ok_iff.mp written
  rw [thisWritten] at first
  cases first
  obtain ⟨superClass, superWritten, superNamed⟩ :=
    Writing.classOrNone_of_known sound regular.superName
  obtain ⟨_, _, second, behindSuper⟩ := Writing.bind_eq_ok_iff.mp behindThis
  rw [superWritten] at second
  cases second
  obtain ⟨interfaceBytes, _, interfacesWritten, behindInterfaces⟩ :=
    Writing.bind_eq_ok_iff.mp behindSuper
  obtain ⟨rfl, interfacePieces, rfl, interfaceRow⟩ := by
    refine Writing.table16_eq_ok ?_ interfacesWritten
    intro name member bytes after encoded
    obtain ⟨number, known, _⟩ :=
      Writing.className_of_known sound (regular.interfaces name member)
    rw [known] at encoded
    cases encoded
    rfl
  obtain ⟨numbers, rfl, interfacesNamed⟩ :=
    exists_numbers sound regular.interfaces interfaceRow
  obtain ⟨fieldBytes, _, fieldsWritten, behindFields⟩ :=
    Writing.bind_eq_ok_iff.mp behindInterfaces
  obtain ⟨rfl, fieldPieces, rfl, fieldRow⟩ := by
    refine Writing.table16_eq_ok ?_ fieldsWritten
    intro field member bytes after encoded
    obtain ⟨_, _, known, _⟩ := Field.exists_readBack sound (regular.fields field member)
    rw [known] at encoded
    cases encoded
    rfl
  obtain ⟨fieldInfos, fieldsReadBack, fieldsResolved⟩ :=
    exists_fieldInfos sound regular.fields fieldRow
  obtain ⟨methodBytes, _, methodsWritten, behindMethods⟩ :=
    Writing.bind_eq_ok_iff.mp behindFields
  obtain ⟨rfl, methodPieces, rfl, methodRow⟩ := by
    refine Writing.table16_eq_ok ?_ methodsWritten
    intro method member bytes after encoded
    exact (Method.exists_readBack_of_encode sound nothing (regular.methods method member)
      (few method member) encoded).1
  obtain ⟨methodInfos, agains, methodsReadBack, methodsResolved, methodsAlike⟩ :=
    exists_methodInfos sound nothing regular.methods few methodRow
  obtain ⟨attributePieces, attributesWritten, attributesReadBack⟩ :=
    Writing.attributes_of_fits sound regular.attributes.fits
  obtain ⟨_, _, third, ending⟩ := Writing.bind_eq_ok_iff.mp behindMethods
  rw [attributesWritten] at third
  cases third
  obtain ⟨rfl, rfl⟩ := Writing.pure_eq_ok_iff.mp ending
  refine ⟨rfl,
    ⟨model.minor, model.major, model.pool, model.access, thisClass, superClass, numbers,
      fieldInfos, methodInfos, model.attributes⟩,
    { model with methods := agains }, ?_, ⟨rfl, methodsAlike⟩, ?_⟩
  · exact {
      minor := rfl
      major := rfl
      access := rfl
      pool := rfl
      name := thisNamed
      superName := superNamed
      interfaces := interfacesNamed
      fields := fieldsResolved
      methods := methodsResolved
      attributes := rfl }
  · intro short depth deep
    have interfacesLength := interfacesNamed.length_eq
    have fieldsLength := fieldsResolved.length_eq
    have methodsLength := methodsResolved.length_eq.trans methodsAlike.length_eq.symm
    have kept := Entry.Extends.refl model.pool.entries
    simp only [List.length_append, Bytes.length_ofUInt16, Bytes.length_count16] at short deep
    have membersLocal := MemberInfo.local_reader model.pool depth
    have fieldsRead :=
      reads_table_of_readsBack membersLocal (fieldsReadBack.imp fun _ _ each => each _ kept)
        (fieldsLength ▸ regular.fieldsShort) (show _ < 2 ^ 32 by omega) (show _ ≤ depth by omega)
    have methodsRead :=
      reads_table_of_readsBack membersLocal (methodsReadBack.imp fun _ _ each => each _ kept)
        (methodsLength ▸ regular.methodsShort) (show _ < 2 ^ 32 by omega)
        (show _ ≤ depth by omega)
    have attributesRead :=
      Attribute.reads_table_of_readBack attributesReadBack kept regular.attributes.short
        (show _ < 2 ^ 32 by omega) (show _ ≤ depth by omega)
    refine ⟨interfacesLength ▸ regular.interfacesShort, _, _, _, ?_, fieldsRead, methodsRead,
      attributesRead⟩
    simp only [Bytes.table16, Bytes.count16, interfacesLength, fieldsLength, methodsLength,
      List.flatMap_def, List.append_assoc]

/-- Writing a class that was read and reading the result gives the class. -/
theorem read_eq_ok_of_write
    {written : Bytes}
    (regular : model.Regular)
    (few : model.FewRows)
    (encoded : model.write ⟨false, false⟩ = .ok written)
    (small : written.length ≤ maxClassSize) :
    ∃ again, ClassModel.read written = .ok again ∧ Alike model again := by
  obtain ⟨⟨content, after⟩, contentWritten, encoded⟩ := bind_eq_ok_iff.mp encoded
  obtain ⟨rfl, file, again, resolves, alike, contentReads⟩ :=
    exists_file_of_encodeContent regular few rfl contentWritten
  obtain ⟨poolBytes, poolWritten, same⟩ := bind_eq_ok_iff.mp encoded
  cases same
  have minor : file.minor = model.minor := by rw [← resolves.minor, alike.same]
  have major : file.major = model.major := by rw [← resolves.major, alike.same]
  have pool : file.pool = model.pool := by rw [← resolves.pool, alike.same]
  have poolRead : Pool.reader.Reads poolBytes file.pool := by
    rw [pool]
    exact Pool.reads_of_encode regular.adopted.sound poolWritten regular.adopted.adopted
  refine ⟨again, read_eq_ok_iff.mpr ⟨small, file, ?_, resolves⟩, alike⟩
  rw [maxClassSize] at small
  simp only [List.length_append] at small ⊢
  refine ClassFile.reads_reader_iff.mpr
    ⟨?_, ?_, poolBytes, content, ?_, poolRead, contentReads (by omega) _ (by omega)⟩
  · rw [major]
    exact regular.old
  · rw [major]
    exact regular.new
  · rw [minor, major]
    simp only [List.append_assoc]

/-- What a class is written as does not depend on the distances of its frames. -/
theorem write_eq_of_alike
    {again : ClassModel}
    (alike : Alike model again) :
    again.write ⟨false, false⟩ = model.write ⟨false, false⟩ := by
  have methods := alike.methods
  rw [alike.same]
  generalize again.methods = others at methods ⊢
  have rows
      (context : WriteContext)
      (nothing : context.options = ⟨false, false⟩) :
      others.mapM (Method.encode context) = model.methods.mapM (Method.encode context) := by
    generalize model.methods = own at methods
    induction methods with
    | nil => rfl
    | cons first _ inductionHypothesis =>
        rw [List.mapM_cons, List.mapM_cons, inductionHypothesis,
          Method.encode_eq_of_alike first nothing]
  have content
      (context : WriteContext)
      (nothing : context.options = ⟨false, false⟩) :
      encodeContent { model with methods := others } context = encodeContent model context := by
    simp only [encodeContent, Writing.table16, Bytes.count16, rows context nothing,
      methods.length_eq]
  simp only [write, writeWith, ownTable]
  rw [content _ rfl]

/--
A class that was read, written as it is and read again is the same class, except for the
distances of its frames, and writing it a second time gives the same bytes.
-/
theorem exists_alike_of_read_write
    {bytes written : Bytes}
    {model : ClassModel}
    (found : ClassModel.read bytes = .ok model)
    (encoded : model.write ⟨false, false⟩ = .ok written)
    (small : written.length ≤ maxClassSize)
    (few : model.FewRows) :
    ∃ again,
      ClassModel.read written = .ok again ∧
        Alike model again ∧
          again.write ⟨false, false⟩ = .ok written := by
  obtain ⟨again, readAgain, alike⟩ :=
    read_eq_ok_of_write (regular_of_read found) few encoded small
  exact ⟨again, readAgain, alike, (write_eq_of_alike alike).trans encoded⟩

/-- A loop with an instruction in its wide form, a handler, a line and an extended frame. -/
def wideLoop : Bytes :=
  [ 0xCA, 0xFE, 0xBA, 0xBE, 0x00, 0x00, 0x00, 0x34, 0x00, 0x0A,
    0x01, 0x00, 0x01, 0x41, 0x07, 0x00, 0x01,
    0x01, 0x00, 0x10, 0x6A, 0x61, 0x76, 0x61, 0x2F, 0x6C, 0x61, 0x6E, 0x67, 0x2F, 0x4F, 0x62, 0x6A,
    0x65, 0x63, 0x74, 0x07, 0x00, 0x03, 0x01, 0x00, 0x04, 0x43, 0x6F, 0x64, 0x65,
    0x01, 0x00, 0x01, 0x6D, 0x01, 0x00, 0x04, 0x28, 0x49, 0x29, 0x56,
    0x01, 0x00, 0x0D, 0x53, 0x74, 0x61, 0x63, 0x6B, 0x4D, 0x61, 0x70, 0x54, 0x61, 0x62, 0x6C, 0x65,
    0x01, 0x00, 0x0F, 0x4C, 0x69, 0x6E, 0x65, 0x4E, 0x75, 0x6D, 0x62, 0x65, 0x72, 0x54, 0x61, 0x62,
    0x6C, 0x65, 0x00, 0x21, 0x00, 0x02, 0x00, 0x04, 0x00, 0x00, 0x00, 0x00,
    0x00, 0x01, 0x00, 0x09, 0x00, 0x06, 0x00, 0x07, 0x00, 0x01, 0x00, 0x05, 0x00, 0x00, 0x00, 0x33,
    0x00, 0x01, 0x00, 0x01, 0x00, 0x00, 0x00, 0x08,
    0xC4, 0x15, 0x00, 0x00, 0x99, 0xFF, 0xFC, 0xB1,
    0x00, 0x01, 0x00, 0x00, 0x00, 0x04, 0x00, 0x07, 0x00, 0x00,
    0x00, 0x02, 0x00, 0x09, 0x00, 0x00, 0x00, 0x06, 0x00, 0x01, 0x00, 0x00, 0x00, 0x07,
    0x00, 0x08, 0x00, 0x00, 0x00, 0x05, 0x00, 0x01, 0xFB, 0x00, 0x00, 0x00, 0x00 ]

/-- The loop is written shorter than it was read, and survives. -/
theorem exists_alike_of_wideLoop :
    ∃ model written again,
      ClassModel.read wideLoop = .ok model ∧
        model.write ⟨false, false⟩ = .ok written ∧
          written.length < wideLoop.length ∧
            ClassModel.read written = .ok again ∧
              Alike model again ∧
                again.write ⟨false, false⟩ = .ok written := by
  have outcome :
      (ClassModel.read wideLoop).toOption.map (fun model =>
          (model.methods.map fun method => method.body.map fun body =>
              ((LaidOut.lineMarks body.nodes).length, body.locals.length, body.frames.length),
            (model.write ⟨false, false⟩).toOption.map List.length)) =
        some ([some (1, 0, 1)], some 166) := by
    decide +kernel
  cases found : ClassModel.read wideLoop with
  | error => simp [found, Except.toOption] at outcome
  | ok model =>
      cases encoded : model.write ⟨false, false⟩ with
      | error => simp [found, encoded, Except.toOption] at outcome
      | ok written =>
          simp only [found, encoded, Except.toOption, Option.map_some, Option.some.injEq,
            Prod.mk.injEq] at outcome
          obtain ⟨rows, length⟩ := outcome
          have few : model.FewRows := by
            intro method member body some
            have listed := List.mem_map_of_mem
              (f := fun method : Method => method.body.map fun body =>
                ((LaidOut.lineMarks body.nodes).length, body.locals.length, body.frames.length))
              member
            rw [rows, some] at listed
            simp only [Option.map_some, List.mem_singleton, Option.some.injEq, Prod.mk.injEq]
              at listed
            obtain ⟨lines, locals, frames⟩ := listed
            exact ⟨by omega, by omega, by omega⟩
          obtain ⟨again, readAgain, alike, writtenAgain⟩ :=
            exists_alike_of_read_write found encoded (by rw [length]; decide) few
          exact ⟨model, written, again, rfl, encoded, by rw [length]; decide +kernel, readAgain, alike,
            writtenAgain⟩

end ClassModel

end JvmClass
