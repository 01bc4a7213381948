import JvmClass.Proofs.ClassModel.RoundTrip
import JvmClass.Proofs.ClassModel.Written

namespace JvmClass

/-!
# Reading what was written

A class that is written with new constants is read over a pool that has grown.
What stands in front of the methods is read as it was written, whatever stands
behind it, unless there are more fields than can be counted.
-/

/-- Two ways of reading the same bytes are the same. -/
theorem Reader.Reads.unique
    {α : Type}
    {reader : Reader α}
    {taken other rest last : Bytes}
    {value result : α}
    (reads : reader.Reads taken value)
    (others : reader.Reads other result)
    (same : taken ++ rest = other ++ last) :
    taken = other ∧ value = result ∧ rest = last := by
  have found := others last
  rw [← same, reads rest] at found
  obtain ⟨rfl, rfl⟩ := Prod.mk.inj (Except.ok.inj found)
  exact ⟨List.append_cancel_right same, rfl, rfl⟩

open Reader

/-! ## Attributes in a pool that has grown -/

namespace Attribute

/-- An attribute that fits a pool fits what the pool has grown to. -/
theorem Fits.grown
    {pool after : Pool}
    {item : Attribute}
    (grows : Pool.Grows pool after)
    (fits : item.Fits pool) :
    item.Fits after := by
  induction fits with
  | leaf known isLeaf => exact .leaf (grows.known _ known) isLeaf
  | body known head short _ inductionHypothesis =>
      exact .body (grows.known _ known) head short inductionHypothesis

theorem ReadBack.grown
    {pool after : Pool}
    {bytes : Bytes}
    {item : Attribute}
    (kept : Entry.Extends pool.entries after.entries)
    (readBack : ReadBack pool bytes item) :
    ReadBack after bytes item :=
  fun later keptLater => readBack later (kept.trans keptLater)

end Attribute

namespace Writing.Between

variable {first last : Pool}

/-- Where something is written on the way to a sound pool, the pools in between are sound. -/
theorem grows
    {α : Type}
    {encode : α → Writing Bytes}
    {item : α}
    {before next : Pool}
    {bytes : Bytes}
    (growing : Growing (encode item))
    (sound : first.Sound)
    (short : last.size ≤ 2 ^ 16)
    (reached : first.LeadsTo before)
    (written : encode item before = .ok (bytes, next))
    (leads : next.LeadsTo last) :
    Pool.Grows first before := by
  have fits := ((growing _ _ _ written).trans leads).kept.size_le
  exact reached.grows sound (Nat.le_trans fits short)

/-- Attributes that fit the first pool are read back from what they are written as. -/
theorem exists_attributePieces
    {items : List Attribute}
    {bytes : Bytes}
    (sound : first.Sound)
    (short : last.size ≤ 2 ^ 16)
    (fits : ∀ item ∈ items, item.Fits first)
    (between : Between first last Writing.attributes items bytes) :
    ∃ pieces,
      bytes = Bytes.count16 items ++ pieces.flatten ∧
        List.Forall₂ (Attribute.ReadBack last) pieces items := by
  obtain ⟨before, next, reached, written, leads⟩ := between
  have grown := grows (growing_attributes items) sound short reached written leads
  obtain ⟨pieces, encoded, readBack⟩ :=
    attributes_of_fits grown.sound fun item member => (fits item member).grown grown
  rw [encoded] at written
  cases written
  exact ⟨pieces, rfl, readBack.imp fun _ _ each => each.grown leads.kept⟩

/-- A field whose attributes fit the first pool is read back from what it is written as. -/
theorem exists_fieldInfo
    {field : Field}
    {bytes : Bytes}
    (sound : first.Sound)
    (short : last.size ≤ 2 ^ 16)
    (fits : Attribute.TableFits first field.attributes)
    (between : Between first last Field.encode field bytes) :
    ∃ info,
      MemberInfo.ReadBack last bytes info ∧
        ∀ after : Pool, after.entries = last.entries → Field.ofInfo after info = .ok field := by
  obtain ⟨before, next, reached, written, leads⟩ := between
  have grown := grows field.growing_encode sound short reached written leads
  obtain ⟨_, second, _, third, attributeBytes, nameWritten, descriptorWritten, attributesWritten,
    rfl⟩ := Field.exists_steps_of_encode written
  have toSecond := reached.trans (growing_text _ _ _ _ nameWritten)
  have toThird := toSecond.trans (growing_text _ _ _ _ descriptorWritten)
  have fromThird := (growing_attributes _ _ _ _ attributesWritten).trans leads
  have fromSecond := (growing_text _ _ _ _ descriptorWritten).trans fromThird
  have secondSound :=
    (toSecond.grows sound (Nat.le_trans fromSecond.kept.size_le short)).sound
  obtain ⟨name, rfl, named⟩ := exists_text grown.sound short nameWritten fromSecond
  obtain ⟨descriptor, rfl, described⟩ := exists_text secondSound short descriptorWritten fromThird
  obtain ⟨pieces, rfl, readBack⟩ :=
    exists_attributePieces sound short fits.fits ⟨third, _, toThird, attributesWritten, leads⟩
  have whole :=
    @MemberInfo.readBack_of_attributes last pieces
      ⟨field.access, name, descriptor, field.attributes⟩ fits.short readBack
  refine ⟨_, whole, fun after same => ?_⟩
  refine Field.ofInfo_eq_ok_iff.mpr ⟨rfl, ?_, ?_, rfl⟩
  · rw [Pool.text, same]
    exact named
  · rw [Pool.text, same]
    exact described

end Writing.Between

namespace ClassModel

variable {model again : ClassModel} {context : WriteContext} {parts : WrittenParts}

/-- The bytes of a class that is written in parts. -/
def writtenBytes (model : ClassModel) (parts : WrittenParts) : Bytes :=
  Bytes.ofUInt32 classMagic ++ (Bytes.ofUInt16 model.minor ++
    (Bytes.ofUInt16 model.major ++ (parts.poolBytes ++ parts.content model.access)))

/-- A class file that is read from written parts has its head from them, and its fields behind it. -/
structure HeadOf
    (model : ClassModel)
    (parts : WrittenParts)
    (depth : Nat)
    (file : ClassFile) : Prop where
  minor : file.minor = model.minor
  major : file.major = model.major
  access : file.access = model.access
  pool : file.pool.entries = parts.pool.entries
  thisClass : file.thisClass = parts.thisClass
  superClass : file.superClass = parts.superClass
  interfaces : file.interfaces = parts.interfaces
  rest :
    ∃ fields methods attributes,
      parts.fieldBytes ++ (parts.methodBytes ++ parts.attributes) =
          fields ++ (methods ++ attributes) ∧
        (Reader.table16 (MemberInfo.reader file.pool depth)).Reads fields file.fields ∧
        (Reader.table16 (MemberInfo.reader file.pool depth)).Reads methods file.methods ∧
        (Attribute.tableReader file.pool depth).Reads attributes file.attributes

/-- The head of a class is read as it was written. -/
theorem headOf_of_reads
    {depth : Nat}
    {file : ClassFile}
    (writtenAs : model.WrittenAs context parts)
    (interfacesShort : model.interfaces.length < 2 ^ 16)
    (reads : (ClassFile.reader depth).Reads (writtenBytes model parts) file) :
    HeadOf model parts depth file := by
  obtain ⟨_, _, poolBytes, content, shape, poolReads, interfacesFileShort, fields, methods,
    attributes, rfl, fieldsRead, methodsRead, attributesRead⟩ :=
    ClassFile.reads_reader_iff.mp reads
  obtain ⟨again, againReads, againEntries⟩ :=
    Pool.exists_reads_of_encode writtenAs.grows.sound writtenAs.poolEncoded
  have number {first second : UInt16} {rest last : Bytes}
      (same : Bytes.ofUInt16 first ++ rest = Bytes.ofUInt16 second ++ last) :
      first = second ∧ rest = last :=
    (Reads.unique (reads_u2_iff.mpr rfl) (reads_u2_iff.mpr rfl) same).2
  obtain ⟨minor, shape⟩ := number (List.append_cancel_left shape)
  obtain ⟨major, shape⟩ := number shape
  obtain ⟨_, rfl, shape⟩ := againReads.unique poolReads shape
  obtain ⟨access, shape⟩ := number shape
  obtain ⟨thisClass, shape⟩ := number shape
  obtain ⟨superClass, shape⟩ := number shape
  have interfacesRead {numbers : List UInt16} (short : numbers.length < 2 ^ 16) :=
    inverts_u2.table16.reads_iff.mpr ⟨rfl, short, fun _ _ => trivial⟩
  have short := writtenAs.interfacesNamed.length_eq.trans_lt interfacesShort
  obtain ⟨_, interfaces, shape⟩ :=
    (interfacesRead short).unique (interfacesRead interfacesFileShort) shape
  exact ⟨minor.symm, major.symm, access.symm, againEntries, thisClass.symm, superClass.symm,
    interfaces.symm, fields, methods, attributes, shape, fieldsRead, methodsRead, attributesRead⟩

theorem exists_fieldInfos_of_writtenAs
    (sound : model.pool.Sound)
    (writtenAs : model.WrittenAs context parts)
    (fits : ∀ field ∈ model.fields, Attribute.TableFits model.pool field.attributes) :
    ∃ infos,
      List.Forall₂ (MemberInfo.ReadBack parts.pool) parts.fields infos ∧
        ∀ after : Pool, after.entries = parts.pool.entries →
          List.Forall₂ (fun info field => Field.ofInfo after info = .ok field)
            infos model.fields := by
  have rows := writtenAs.fields
  generalize model.fields = fields at rows fits
  generalize parts.fields = pieces at rows
  induction rows with
  | nil => exact ⟨[], .nil, fun _ _ => .nil⟩
  | cons first _ inductionHypothesis =>
      rw [List.forall_mem_cons] at fits
      obtain ⟨info, readBack, resolved⟩ :=
        first.exists_fieldInfo sound (Nat.le_of_lt writtenAs.short) fits.1
      obtain ⟨infos, others, othersResolved⟩ := inductionHypothesis fits.2
      exact ⟨info :: infos, .cons readBack others,
        fun after same => .cons (resolved after same) (othersResolved after same)⟩

/-- As many fields as can be counted are read as they were written; one more is read as none. -/
theorem fields_of_headOf
    {depth : Nat}
    {file : ClassFile}
    (sound : model.pool.Sound)
    (writtenAs : model.WrittenAs context parts)
    (fits : ∀ field ∈ model.fields, Attribute.TableFits model.pool field.attributes)
    (small : parts.fieldBytes.length < 2 ^ 32)
    (deep : parts.fieldBytes.length ≤ depth)
    (head : HeadOf model parts depth file)
    (resolves : Resolves file again) :
    (model.fields.length < 2 ^ 16 →
      again.fields = model.fields ∧
        ∃ methods attributes,
          parts.methodBytes ++ parts.attributes = methods ++ attributes ∧
            (Reader.table16 (MemberInfo.reader file.pool depth)).Reads methods file.methods ∧
            (Attribute.tableReader file.pool depth).Reads attributes file.attributes) ∧
      (model.fields.length = 2 ^ 16 → again.fields = []) := by
  obtain ⟨fields, methods, attributes, shape, fieldsRead, methodsRead, attributesRead⟩ := head.rest
  obtain ⟨infos, readBack, resolved⟩ := exists_fieldInfos_of_writtenAs sound writtenAs fits
  have kept : Entry.Extends parts.pool.entries file.pool.entries := by
    rw [head.pool]
    exact .refl _
  have membersLocal := MemberInfo.local_reader file.pool depth
  have infosLength : infos.length = model.fields.length := (resolved _ head.pool).length_eq
  have piecesLength : parts.fields.length = infos.length := readBack.length_eq
  have counted : Bytes.count16 parts.fields = Bytes.count16 infos := by
    simp only [Bytes.count16, piecesLength]
  rw [WrittenParts.fieldBytes, counted] at small deep shape
  simp only [List.length_append, Bytes.length_count16] at small deep
  constructor
  · intro short
    have ownRead :=
      reads_table_of_readsBack membersLocal (readBack.imp fun _ _ each => each _ kept)
        (infosLength ▸ short) (show _ < 2 ^ 32 by omega) (show _ ≤ depth by omega)
    obtain ⟨_, same, behind⟩ := ownRead.unique fieldsRead shape
    refine ⟨?_, methods, attributes, behind, methodsRead, attributesRead⟩
    have written := mapM_eq_ok_iff.mpr (resolved _ head.pool)
    have found := mapM_eq_ok_iff.mpr resolves.fields
    rw [← same, written] at found
    exact (Except.ok.inj found).symm
  · intro full
    -- The count has lost its upper bit, so nothing is taken for a field.
    have noneRead :
        (Reader.table16 (MemberInfo.reader file.pool depth)).Reads (Bytes.count16 infos) [] := by
      refine (reads_table16_iff membersLocal).mpr ⟨[], .nil, by simp, ?_⟩
      simp only [Bytes.count16, infosLength, full]
      rfl
    rw [List.append_assoc] at shape
    obtain ⟨_, same, _⟩ := noneRead.unique fieldsRead shape
    have found := resolves.fields
    rw [← same] at found
    exact List.forall₂_nil_left_iff.mp found

/-- What reading a written class gives back of it, whatever became of its methods. -/
structure RereadAs
    (model again : ClassModel) : Prop where
  minor : again.minor = model.minor
  major : again.major = model.major
  access : again.access = model.access
  name : again.name = model.name
  superName : again.superName = model.superName
  interfaces : again.interfaces = model.interfaces
  pool : Entry.Extends model.pool.entries again.pool.entries
  fields : model.fields.length < 2 ^ 16 → again.fields = model.fields
  noFields : model.fields.length = 2 ^ 16 → again.fields = []

/-- A class that was written and is read again has its head and as many fields as can be counted. -/
theorem rereadAs_of_write
    {options : WriteOptions}
    {hierarchy : Hierarchy}
    {written : Bytes}
    (sound : model.pool.Sound)
    (interfacesShort : model.interfaces.length < 2 ^ 16)
    (fits : ∀ field ∈ model.fields, Attribute.TableFits model.pool field.attributes)
    (encoded : model.writeWith options hierarchy = .ok written)
    (found : ClassModel.read written = .ok again) :
    RereadAs model again := by
  obtain ⟨parts, writtenAs, rfl⟩ := exists_parts_of_writeWith sound encoded
  obtain ⟨small, file, reads, resolves⟩ := read_eq_ok_iff.mp found
  have head := headOf_of_reads writtenAs interfacesShort reads
  rw [maxClassSize] at small
  have length : parts.fieldBytes.length ≤ (writtenBytes model parts).length := by
    simp only [writtenBytes, WrittenParts.content, List.length_append]
    omega
  obtain ⟨fields, noFields⟩ :=
    fields_of_headOf sound writtenAs fits (Nat.lt_of_le_of_lt (Nat.le_trans length small) (by decide))
      length head resolves
  have sameNames : file.pool.className = parts.pool.className := by
    funext number
    rw [Pool.className, head.pool, Pool.className]
  have name : again.name = model.name := by
    have found := resolves.name
    rw [head.thisClass, sameNames, writtenAs.thisNamed] at found
    exact (Except.ok.inj found).symm
  have superName : again.superName = model.superName := by
    have found := Pool.classOrNone_iff.mpr resolves.superName
    rw [head.superClass, sameNames, Pool.classOrNone_iff.mpr writtenAs.superNamed] at found
    exact (Except.ok.inj found).symm
  have interfaces : again.interfaces = model.interfaces := by
    have found := mapM_eq_ok_iff.mpr resolves.interfaces
    rw [head.interfaces, sameNames, mapM_eq_ok_iff.mpr writtenAs.interfacesNamed] at found
    exact (Except.ok.inj found).symm
  refine {
    minor := resolves.minor.trans head.minor
    major := resolves.major.trans head.major
    access := resolves.access.trans head.access
    name
    superName
    interfaces
    pool := ?_
    fields := fun few => (fields few).1
    noFields }
  rw [resolves.pool, head.pool]
  exact writtenAs.grows.kept

end ClassModel

end JvmClass
