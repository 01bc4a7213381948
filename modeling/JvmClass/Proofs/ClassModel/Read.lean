import JvmClass.ClassModel.Read
import JvmClass.Proofs.Body.Decode

namespace JvmClass

/-!
# What reading a class gives

A class that was read has regular bodies, counts that fit their fields, and a
pool that knows every name in it.
-/

open Reader

namespace MemberInfo

theorem local_reader
    (pool : Pool)
    (depth : Nat) :
    Local (reader pool depth) :=
  local_u2.bind fun _ => local_u2.bind fun _ => local_u2.bind fun _ =>
    (Attribute.local_tableReader pool depth).bind fun _ => local_pure _

theorem reads_reader_iff
    {pool : Pool}
    {depth : Nat}
    {taken : Bytes}
    {info : MemberInfo} :
    (reader pool depth).Reads taken info ↔
      ∃ behind,
        taken =
            Bytes.ofUInt16 info.access ++ (Bytes.ofUInt16 info.name ++
              (Bytes.ofUInt16 info.descriptor ++ behind)) ∧
          (Attribute.tableReader pool depth).Reads behind info.attributes := by
  constructor
  · intro reads
    obtain ⟨access, _, _, rfl, first, second⟩ := (reads_bind_iff local_u2).mp reads
    obtain ⟨name, _, _, rfl, nameRead, third⟩ := (reads_bind_iff local_u2).mp second
    obtain ⟨descriptor, _, _, rfl, descriptorRead, fourth⟩ := (reads_bind_iff local_u2).mp third
    obtain ⟨attributes, attributesRead, rfl⟩ :=
      (reads_bind_pure_iff (Attribute.local_tableReader pool depth)).mp fourth
    obtain rfl := reads_u2_iff.mp first
    obtain rfl := reads_u2_iff.mp nameRead
    obtain rfl := reads_u2_iff.mp descriptorRead
    exact ⟨_, rfl, attributesRead⟩
  · rintro ⟨behind, rfl, attributesRead⟩
    exact Reads.behind_u2 (Reads.behind_u2 (Reads.behind_u2 (Reads.bind_pure attributesRead)))

end MemberInfo

namespace ClassFile

/-- The bytes behind the pool hold the rest of the class file. -/
structure ContentReads
    (file : ClassFile)
    (depth : Nat)
    (content : Bytes) : Prop where
  interfaces : file.interfaces.length < 2 ^ 16
  parts :
    ∃ fields methods attributes,
      content =
          Bytes.ofUInt16 file.access ++ (Bytes.ofUInt16 file.thisClass ++
            (Bytes.ofUInt16 file.superClass ++
              (Bytes.table16 Bytes.ofUInt16 file.interfaces ++
                (fields ++ (methods ++ attributes))))) ∧
        (Reader.table16 (MemberInfo.reader file.pool depth)).Reads fields file.fields ∧
        (Reader.table16 (MemberInfo.reader file.pool depth)).Reads methods file.methods ∧
        (Attribute.tableReader file.pool depth).Reads attributes file.attributes

/-- A class file is its head, the bytes of its pool and what stands behind them. -/
theorem reads_reader_iff
    {depth : Nat}
    {taken : Bytes}
    {file : ClassFile} :
    (reader depth).Reads taken file ↔
      oldestVersion ≤ file.major ∧ file.major ≤ newestVersion ∧
        ∃ pool content,
          taken =
              Bytes.ofUInt32 classMagic ++ (Bytes.ofUInt16 file.minor ++
                (Bytes.ofUInt16 file.major ++ (pool ++ content))) ∧
            Pool.reader.Reads pool file.pool ∧ ContentReads file depth content := by
  have interfacesInverts := inverts_u2.table16
  constructor
  · intro reads
    obtain ⟨magic, _, _, rfl, magicRead, second⟩ := (reads_bind_iff local_u4).mp reads
    clear reads
    obtain rfl := reads_u4_iff.mp magicRead
    split at second
    · exact absurd second not_reads_fail
    rename_i same
    obtain rfl := Decidable.not_not.mp same
    obtain ⟨minor, _, _, rfl, minorRead, third⟩ := (reads_bind_iff local_u2).mp second
    clear second
    obtain ⟨major, _, _, rfl, majorRead, fourth⟩ := (reads_bind_iff local_u2).mp third
    clear third
    obtain rfl := reads_u2_iff.mp minorRead
    obtain rfl := reads_u2_iff.mp majorRead
    split at fourth
    · exact absurd fourth not_reads_fail
    rename_i inRange
    obtain ⟨pool, poolBytes, _, rfl, poolRead, fifth⟩ :=
      (reads_bind_iff Pool.local_reader).mp fourth
    clear fourth
    have membersLocal := local_table16 (MemberInfo.local_reader pool depth)
    obtain ⟨access, _, _, rfl, accessRead, sixth⟩ := (reads_bind_iff local_u2).mp fifth
    clear fifth
    obtain ⟨thisClass, _, _, rfl, thisRead, seventh⟩ := (reads_bind_iff local_u2).mp sixth
    clear sixth
    obtain ⟨superClass, _, _, rfl, superRead, eighth⟩ := (reads_bind_iff local_u2).mp seventh
    clear seventh
    obtain ⟨interfaces, _, _, rfl, interfacesRead, ninth⟩ :=
      (reads_bind_iff interfacesInverts.isLocal).mp eighth
    clear eighth
    obtain ⟨fields, fieldBytes, _, rfl, fieldsRead, tenth⟩ :=
      (reads_bind_iff membersLocal).mp ninth
    clear ninth
    obtain ⟨methods, methodBytes, _, rfl, methodsRead, last⟩ :=
      (reads_bind_iff membersLocal).mp tenth
    clear tenth
    obtain ⟨attributes, attributesRead, rfl⟩ :=
      (reads_bind_pure_iff (Attribute.local_tableReader pool depth)).mp last
    obtain rfl := reads_u2_iff.mp accessRead
    obtain rfl := reads_u2_iff.mp thisRead
    obtain rfl := reads_u2_iff.mp superRead
    obtain ⟨rfl, short, _⟩ := interfacesInverts.reads_iff.mp interfacesRead
    rw [not_or, UInt16.not_lt, UInt16.not_lt] at inRange
    exact
      ⟨inRange.1, inRange.2, poolBytes, _, rfl, poolRead, short, fieldBytes, methodBytes, _, rfl,
        fieldsRead, methodsRead, attributesRead⟩
  · rintro ⟨old, new, pool, content, rfl, poolRead, short, fields, methods, attributes, rfl,
      fieldsRead, methodsRead, attributesRead⟩
    refine Reads.behind_u4 ?_
    rw [if_neg (Decidable.not_not.mpr rfl)]
    refine Reads.behind_u2 (Reads.behind_u2 ?_)
    rw [if_neg (not_or.mpr ⟨UInt16.not_lt.mpr old, UInt16.not_lt.mpr new⟩)]
    refine Reads.bind poolRead (Reads.behind_u2 (Reads.behind_u2 (Reads.behind_u2 ?_)))
    refine Reads.bind (interfacesInverts.reads_iff.mpr ⟨rfl, short, fun _ _ => trivial⟩) ?_
    exact Reads.bind fieldsRead (Reads.bind methodsRead (Reads.bind_pure attributesRead))

theorem local_reader (depth : Nat) : Local (reader depth) := by
  refine local_u4.bind fun _ => local_ite (local_fail _) ?_
  refine local_u2.bind fun _ => local_u2.bind fun _ => local_ite (local_fail _) ?_
  refine Pool.local_reader.bind fun pool => local_u2.bind fun _ => local_u2.bind fun _ =>
    local_u2.bind fun _ => inverts_u2.table16.isLocal.bind fun _ => ?_
  refine (local_table16 (MemberInfo.local_reader pool depth)).bind fun _ => ?_
  refine (local_table16 (MemberInfo.local_reader pool depth)).bind fun _ => ?_
  exact (Attribute.local_tableReader pool depth).bind fun _ => local_pure _

/-- Bytes that hold a class file are read as it, and none of them is left. -/
theorem ofBytes_eq_ok_iff
    {bytes : Bytes}
    {file : ClassFile} :
    ofBytes bytes = .ok file ↔ (reader bytes.length).Reads bytes file := by
  constructor
  · intro read
    obtain ⟨⟨found, rest⟩, readBytes, whole⟩ := bind_eq_ok_iff.mp read
    simp only at whole
    split at whole
    · rename_i empty
      cases whole
      obtain ⟨taken, shape, reads⟩ := local_reader bytes.length _ _ _ readBytes
      obtain rfl : rest = [] := List.isEmpty_iff.mp empty
      rw [List.append_nil] at shape
      subst shape
      exact reads
    · cases whole
  · intro reads
    exact bind_eq_ok_iff.mpr ⟨(file, []), reads.eq_ok, rfl⟩

end ClassFile

/-! ## Regular classes -/

/-- A table of attributes that were read. -/
structure Attribute.TableFits
    (pool : Pool)
    (attributes : List Attribute) : Prop where
  short : attributes.length < 2 ^ 16
  fits : ∀ item ∈ attributes, item.Fits pool

/-- The attribute is the body of a method. -/
def Attribute.isBody : Attribute → Bool
  | .code _ => true
  | _ => false

/-- A field whose names the pool knows. -/
structure Field.Regular
    (pool : Pool)
    (field : Field) : Prop where
  name : pool.Knows (.utf8 field.name)
  descriptor : pool.Knows (.utf8 field.descriptor)
  attributes : Attribute.TableFits pool field.attributes

/-- A method whose names the pool knows, with a regular body if it has one. -/
structure Method.Regular
    (pool : Pool)
    (method : Method) : Prop where
  name : pool.Knows (.utf8 method.name)
  descriptor : pool.Knows (.utf8 method.descriptor)
  short : method.attributes.length + method.body.toList.length < 2 ^ 16
  fits : ∀ item ∈ method.attributes, item.Fits pool ∧ item.isBody = false
  body :
    ∀ body, method.body = some body →
      pool.Knows (.utf8 "Code") ∧ ∃ steps last, body.Regular pool steps last

/-- A class whose names its pool knows, with regular bodies and counts that fit their fields. -/
structure ClassModel.Regular (model : ClassModel) : Prop where
  adopted : model.pool.Adopted
  old : oldestVersion ≤ model.major
  new : model.major ≤ newestVersion
  name : model.pool.Knows (.classRef model.name)
  superName : ∀ name, model.superName = some name → model.pool.Knows (.classRef name)
  interfacesShort : model.interfaces.length < 2 ^ 16
  interfaces : ∀ name ∈ model.interfaces, model.pool.Knows (.classRef name)
  fieldsShort : model.fields.length < 2 ^ 16
  fields : ∀ field ∈ model.fields, field.Regular model.pool
  methodsShort : model.methods.length < 2 ^ 16
  methods : ∀ method ∈ model.methods, method.Regular model.pool
  attributes : Attribute.TableFits model.pool model.attributes

/-- A class file as it is when it was read. -/
structure ClassFile.Regular (file : ClassFile) : Prop where
  adopted : file.pool.Adopted
  old : oldestVersion ≤ file.major
  new : file.major ≤ newestVersion
  interfacesShort : file.interfaces.length < 2 ^ 16
  fieldsShort : file.fields.length < 2 ^ 16
  fields : ∀ info ∈ file.fields, Attribute.TableFits file.pool info.attributes
  methodsShort : file.methods.length < 2 ^ 16
  methods : ∀ info ∈ file.methods, Attribute.TableFits file.pool info.attributes
  attributes : Attribute.TableFits file.pool file.attributes

namespace Attribute

theorem tableFits_of_reads
    {pool : Pool}
    {depth : Nat}
    {taken : Bytes}
    {items : List Attribute}
    (adopted : pool.Adopted)
    (reads : (tableReader pool depth).Reads taken items) :
    TableFits pool items := by
  obtain ⟨short, fits⟩ := fits_of_reads_table adopted reads
  exact ⟨short, fits⟩

end Attribute

/-- A class file that was read is regular. -/
theorem ClassFile.regular_of_reads
    {depth : Nat}
    {bytes : Bytes}
    {file : ClassFile}
    (reads : (reader depth).Reads bytes file) :
    file.Regular := by
  obtain ⟨old, new, poolBytes, content, _, poolReads, contentReads⟩ := reads_reader_iff.mp reads
  obtain ⟨interfacesShort, fieldBytes, methodBytes, attributeBytes, _, fieldsRead, methodsRead,
    attributesRead⟩ := contentReads
  have adopted := Pool.adopted_of_reads poolReads
  have memberLocal := MemberInfo.local_reader file.pool depth
  obtain ⟨_, fieldRows, fieldsShort, _⟩ := (reads_table16_iff memberLocal).mp fieldsRead
  obtain ⟨_, methodRows, methodsShort, _⟩ := (reads_table16_iff memberLocal).mp methodsRead
  have infoFits {pieces : List Bytes} {infos : List MemberInfo} {info : MemberInfo}
      (rows : List.Forall₂ (MemberInfo.reader file.pool depth).Reads pieces infos)
      (member : info ∈ infos) :
      Attribute.TableFits file.pool info.attributes := by
    obtain ⟨piece, _, infoReads⟩ := exists_of_forall₂ rows member
    obtain ⟨behind, _, tableReads⟩ := MemberInfo.reads_reader_iff.mp infoReads
    exact Attribute.tableFits_of_reads adopted tableReads
  exact {
    adopted
    old
    new
    interfacesShort
    fieldsShort
    fields := fun _ member => infoFits fieldRows member
    methodsShort
    methods := fun _ member => infoFits methodRows member
    attributes := Attribute.tableFits_of_reads adopted attributesRead }

namespace Method

/-- Splitting takes the one body out and keeps the other attributes in order. -/
theorem parts_of_splitBody
    {pool : Pool}
    {body result : Option Body}
    {done attributes others : List Attribute}
    (split : splitBody pool body done attributes = .ok (result, others)) :
    ∃ kept,
      others = done.reverse ++ kept ∧
        (∀ item ∈ kept, item ∈ attributes ∧ item.isBody = false) ∧
        (result = body ∧ kept.length = attributes.length ∨
          body = none ∧ ∃ raw decoded,
            .code raw ∈ attributes ∧ Body.ofAttribute pool raw = .ok decoded ∧
              result = some decoded ∧ kept.length + 1 = attributes.length) := by
  induction attributes generalizing body done with
  | nil =>
      cases split
      exact ⟨[], by simp, by simp, .inl ⟨rfl, rfl⟩⟩
  | cons first rest inductionHypothesis =>
      have skipped
          (noBody : first.isBody = false)
          (later : splitBody pool body (first :: done) rest = .ok (result, others)) :
          ∃ kept,
            others = done.reverse ++ kept ∧
              (∀ item ∈ kept, item ∈ first :: rest ∧ item.isBody = false) ∧
              (result = body ∧ kept.length = (first :: rest).length ∨
                body = none ∧ ∃ raw decoded,
                  .code raw ∈ first :: rest ∧ Body.ofAttribute pool raw = .ok decoded ∧
                    result = some decoded ∧ kept.length + 1 = (first :: rest).length) := by
        obtain ⟨kept, rfl, members, cases⟩ := inductionHypothesis later
        refine ⟨first :: kept, by simp, ?_, ?_⟩
        · intro item member
          rcases List.mem_cons.mp member with rfl | member
          · exact ⟨by simp, noBody⟩
          · exact ⟨by simp [(members item member).1], (members item member).2⟩
        · rcases cases with ⟨same, length⟩ | ⟨none, raw, decoded, member, read, some, length⟩
          · exact .inl ⟨same, by simp [length]⟩
          · exact .inr ⟨none, raw, decoded, by simp [member], read, some, by simp [← length]⟩
      cases first with
      | code raw =>
          cases body with
          | some body => cases split
          | none =>
              obtain ⟨decoded, read, later⟩ := bind_eq_ok_iff.mp split
              obtain ⟨kept, rfl, members, cases⟩ := inductionHypothesis later
              refine ⟨kept, rfl, ?_, .inr ⟨rfl, raw, decoded, by simp, read, ?_⟩⟩
              · exact fun item member => ⟨by simp [(members item member).1], (members item member).2⟩
              · rcases cases with ⟨same, length⟩ | ⟨none, _⟩
                · exact ⟨same, by simp [length]⟩
                · cases none
      | _ => exact skipped rfl split

theorem splitBody_of_noBody
    {pool : Pool}
    {body : Option Body}
    {done attributes : List Attribute}
    (noBody : ∀ item ∈ attributes, item.isBody = false) :
    splitBody pool body done attributes = .ok (body, done.reverse ++ attributes) := by
  induction attributes generalizing done with
  | nil => simp [splitBody]
  | cons first rest inductionHypothesis =>
      simp only [List.mem_cons, forall_eq_or_imp] at noBody
      have later :
          splitBody pool body (first :: done) rest =
            .ok (body, (first :: done).reverse ++ rest) :=
        inductionHypothesis noBody.2
      cases first with
      | code raw => cases noBody.1
      | _ =>
          refine later.trans ?_
          simp

theorem ofInfo_eq_ok_iff
    {pool : Pool}
    {info : MemberInfo}
    {method : Method} :
    ofInfo pool info = .ok method ↔
      splitBody pool none [] info.attributes = .ok (method.body, method.attributes) ∧
        method.access = info.access ∧ pool.text info.name = .ok method.name ∧
        pool.text info.descriptor = .ok method.descriptor := by
  constructor
  · intro resolved
    obtain ⟨⟨body, others⟩, split, resolved⟩ := bind_eq_ok_iff.mp resolved
    obtain ⟨name, named, resolved⟩ := bind_eq_ok_iff.mp resolved
    obtain ⟨descriptor, described, same⟩ := bind_eq_ok_iff.mp resolved
    cases same
    exact ⟨split, rfl, named, described⟩
  · rintro ⟨split, access, named, described⟩
    refine bind_eq_ok_iff.mpr ⟨_, split, bind_eq_ok_iff.mpr ⟨_, named, ?_⟩⟩
    refine bind_eq_ok_iff.mpr ⟨_, described, ?_⟩
    rw [← access]
    rfl

theorem regular_of_ofInfo
    {pool : Pool}
    {info : MemberInfo}
    {method : Method}
    (adopted : pool.Adopted)
    (fits : Attribute.TableFits pool info.attributes)
    (resolved : ofInfo pool info = .ok method) :
    method.Regular pool := by
  obtain ⟨split, _, named, described⟩ := ofInfo_eq_ok_iff.mp resolved
  obtain ⟨kept, same, members, cases⟩ := parts_of_splitBody split
  obtain rfl : method.attributes = kept := same
  have short := fits.short
  refine {
    name := adopted.known (.utf8 method.name) info.name named
    descriptor := adopted.known (.utf8 method.descriptor) info.descriptor described
    short := ?_
    fits := fun item member =>
      ⟨fits.fits item (members item member).1, (members item member).2⟩
    body := ?_ }
  · rcases cases with ⟨none, length⟩ | ⟨_, raw, decoded, _, _, some, length⟩
    · simpa [none, length] using short
    · simpa [some, length] using short
  · intro body held
    rcases cases with ⟨none, _⟩ | ⟨_, raw, decoded, member, read, some, _⟩
    · rw [none] at held
      cases held
    · rw [some] at held
      cases held
      cases fits.fits _ member with
      | leaf _ isLeaf => exact isLeaf.elim
      | body known head short nested =>
          exact ⟨known, Body.regular_of_ofAttribute adopted head short nested read⟩

end Method

namespace Field

theorem ofInfo_eq_ok_iff
    {pool : Pool}
    {info : MemberInfo}
    {field : Field} :
    ofInfo pool info = .ok field ↔
      field.access = info.access ∧ pool.text info.name = .ok field.name ∧
        pool.text info.descriptor = .ok field.descriptor ∧
        field.attributes = info.attributes := by
  constructor
  · intro resolved
    obtain ⟨name, named, resolved⟩ := bind_eq_ok_iff.mp resolved
    obtain ⟨descriptor, described, same⟩ := bind_eq_ok_iff.mp resolved
    cases same
    exact ⟨rfl, named, described, rfl⟩
  · rintro ⟨access, named, described, attributes⟩
    refine bind_eq_ok_iff.mpr ⟨_, named, bind_eq_ok_iff.mpr ⟨_, described, ?_⟩⟩
    rw [← access, ← attributes]
    rfl

theorem regular_of_ofInfo
    {pool : Pool}
    {info : MemberInfo}
    {field : Field}
    (adopted : pool.Adopted)
    (fits : Attribute.TableFits pool info.attributes)
    (resolved : ofInfo pool info = .ok field) :
    field.Regular pool := by
  obtain ⟨_, named, described, attributes⟩ := ofInfo_eq_ok_iff.mp resolved
  refine ⟨adopted.known (.utf8 field.name) info.name named,
    adopted.known (.utf8 field.descriptor) info.descriptor described, ?_⟩
  rw [attributes]
  exact fits

end Field

namespace ClassModel

/-- What resolving a class file has found. -/
structure Resolves
    (file : ClassFile)
    (model : ClassModel) : Prop where
  minor : model.minor = file.minor
  major : model.major = file.major
  access : model.access = file.access
  pool : model.pool = file.pool
  name : file.pool.className file.thisClass = .ok model.name
  superName : file.pool.ClassOrNone file.superClass model.superName
  interfaces :
    List.Forall₂ (fun number name => file.pool.className number = .ok name)
      file.interfaces model.interfaces
  fields :
    List.Forall₂ (fun info field => Field.ofInfo file.pool info = .ok field)
      file.fields model.fields
  methods :
    List.Forall₂ (fun info method => Method.ofInfo file.pool info = .ok method)
      file.methods model.methods
  attributes : model.attributes = file.attributes

theorem ofClassFile_eq_ok_iff
    {file : ClassFile}
    {model : ClassModel} :
    ofClassFile file = .ok model ↔ Resolves file model := by
  constructor
  · intro resolved
    obtain ⟨name, named, resolved⟩ := bind_eq_ok_iff.mp resolved
    obtain ⟨superName, superNamed, resolved⟩ := ite_bind_eq_ok_iff.mp resolved
    obtain ⟨interfaces, interfacesNamed, resolved⟩ := bind_eq_ok_iff.mp resolved
    obtain ⟨fields, fieldsResolved, resolved⟩ := bind_eq_ok_iff.mp resolved
    obtain ⟨methods, methodsResolved, same⟩ := bind_eq_ok_iff.mp resolved
    cases same
    exact {
      minor := rfl
      major := rfl
      access := rfl
      pool := rfl
      name := named
      superName := Pool.classOrNone_iff.mp superNamed
      interfaces := mapM_eq_ok_iff.mp interfacesNamed
      fields := mapM_eq_ok_iff.mp fieldsResolved
      methods := mapM_eq_ok_iff.mp methodsResolved
      attributes := rfl }
  · intro resolves
    obtain ⟨minor, major, access, pool, name, superName, interfaces, fields, methods, attributes⟩ :=
      model
    obtain ⟨minorSame, majorSame, accessSame, poolSame, named, superNamed, interfacesNamed,
      fieldsResolved, methodsResolved, attributesSame⟩ := resolves
    cases minorSame
    cases majorSame
    cases accessSame
    cases poolSame
    cases attributesSame
    refine bind_eq_ok_iff.mpr ⟨name, named, ?_⟩
    refine ite_bind_eq_ok_iff.mpr ⟨superName, Pool.classOrNone_iff.mpr superNamed, ?_⟩
    refine bind_eq_ok_iff.mpr ⟨interfaces, mapM_eq_ok_iff.mpr interfacesNamed, ?_⟩
    refine bind_eq_ok_iff.mpr ⟨fields, mapM_eq_ok_iff.mpr fieldsResolved, ?_⟩
    exact bind_eq_ok_iff.mpr ⟨methods, mapM_eq_ok_iff.mpr methodsResolved, rfl⟩

theorem read_eq_ok_iff
    {bytes : Bytes}
    {model : ClassModel} :
    read bytes = .ok model ↔
      bytes.length ≤ maxClassSize ∧
        ∃ file, (ClassFile.reader bytes.length).Reads bytes file ∧ Resolves file model := by
  unfold read
  split
  · rename_i large
    simp only [reduceCtorEq, false_iff, not_and]
    omega
  · rename_i small
    rw [bind_eq_ok_iff]
    simp only [ClassFile.ofBytes_eq_ok_iff, ofClassFile_eq_ok_iff]
    exact (and_iff_right (Nat.not_lt.mp small)).symm

/-- A class that was read is regular. -/
theorem regular_of_read
    {bytes : Bytes}
    {model : ClassModel}
    (found : read bytes = .ok model) :
    model.Regular := by
  obtain ⟨_, file, reads, resolves⟩ := read_eq_ok_iff.mp found
  have regular := ClassFile.regular_of_reads reads
  have adopted := regular.adopted
  have samePool := resolves.pool
  refine {
    adopted := samePool ▸ adopted
    old := resolves.major ▸ regular.old
    new := resolves.major ▸ regular.new
    name := ?_
    superName := ?_
    interfacesShort := resolves.interfaces.length_eq ▸ regular.interfacesShort
    interfaces := ?_
    fieldsShort := resolves.fields.length_eq ▸ regular.fieldsShort
    fields := ?_
    methodsShort := resolves.methods.length_eq ▸ regular.methodsShort
    methods := ?_
    attributes := ?_ }
  · rw [samePool]
    exact adopted.known (.classRef model.name) file.thisClass resolves.name
  · intro name named
    have found := resolves.superName
    rw [named] at found
    rw [samePool]
    exact adopted.known_of_classOrNone found
  · intro name member
    obtain ⟨number, _, named⟩ := exists_of_forall₂ resolves.interfaces member
    rw [samePool]
    exact adopted.known (.classRef name) number named
  · intro field member
    obtain ⟨info, infoMember, resolved⟩ := exists_of_forall₂ resolves.fields member
    rw [samePool]
    exact Field.regular_of_ofInfo adopted (regular.fields info infoMember) resolved
  · intro method member
    obtain ⟨info, infoMember, resolved⟩ := exists_of_forall₂ resolves.methods member
    rw [samePool]
    exact Method.regular_of_ofInfo adopted (regular.methods info infoMember) resolved
  · rw [samePool, resolves.attributes]
    exact regular.attributes

end ClassModel
end JvmClass
