import JvmClass.Proofs.Body.Accepted
import JvmClass.Proofs.ClassModel.RoundTrip

namespace JvmClass

/-!
# Which classes are written

A class that was read is written unless one of its bodies is refused.  Nothing
else can go wrong: every constant that is needed is in the pool, the pool has the
bytes that it was read from or fewer, and no body takes more bytes than before.
-/

open Reader

/-! ## Attributes -/

namespace Attribute

variable {pool : Pool} {items : List Attribute}

/-- An attribute that holds no other and whose name is known needs no constant. -/
theorem exists_encode_of_known
    {item : Attribute}
    (sound : pool.Sound)
    (noBody : item.isBody = false)
    (known : pool.Knows (.utf8 item.name)) :
    ∃ number, item.encode pool = (frame number item.flatContent, pool) := by
  obtain ⟨number, interned, _⟩ := Pool.internText_of_known sound known
  refine ⟨number, ?_⟩
  cases item with
  | code body => cases noBody
  | _ => simp only [encode, bind, StateT.bind, interned, pure_apply]

/-- Attributes that each need no constant need none in a row. -/
theorem exists_encodeAll
    (done : List Bytes)
    (each : ∀ item ∈ items, ∃ bytes, item.encode pool = (bytes, pool)) :
    ∃ bytes, encodeAll done items pool = (bytes, pool) := by
  induction items generalizing done with
  | nil => exact ⟨_, rfl⟩
  | cons item items inductionHypothesis =>
      rw [List.forall_mem_cons] at each
      obtain ⟨bytes, encoded⟩ := each.1
      obtain ⟨others, rest⟩ := inductionHypothesis (bytes :: done) each.2
      exact ⟨others, by simp only [encodeAll, bind, StateT.bind, encoded, rest]⟩

theorem exists_encodeCode
    {body : CodeAttribute Attribute}
    (each : ∀ item ∈ body.attributes, ∃ bytes, item.encode pool = (bytes, pool)) :
    ∃ bytes, encodeCode body pool = (bytes, pool) := by
  obtain ⟨bytes, encoded⟩ := exists_encodeAll [] each
  refine ⟨codeHead body ++ (Bytes.count16 body.attributes ++ bytes), ?_⟩
  simp only [encodeCode, encodeTable, bind, StateT.bind, encoded, pure_apply]

end Attribute

namespace Body

/-- Decoded instructions take no more bytes when they are written. -/
theorem DecodesTo.stopBehind_le
    {pool : Pool}
    {raw : CodeAttribute Attribute}
    {body : Body}
    {decoded : Decoded}
    {tables : Tables}
    (decodes : DecodesTo pool raw body decoded tables) :
    Insn.stopBehind 0 (Node.insns body.nodes) ≤ raw.code.length := by
  have decodedFrom := Decoded.decodedFrom_of_ofCode decodes.code
  have shorter := Insn.stopBehind_le_of_decodes (Nat.le_refl 0) decodedFrom.decodes
  have insns :
      Node.insns body.nodes =
        (decoded.insns.map Prod.snd).map
          (Insn.mapTargets (labelingOf decoded raw.handlers tables).labelAt) := by
    rw [decodes.nodes_eq, Node.insns_ofSteps, readSteps, stepsOf, List.map_map, List.map_map]
    rfl
  rw [insns, Insn.stopBehind_map_mapTargets]
  omega

/-- The attributes of a body that was assembled need no constant. -/
theorem Reassembled.exists_encode
    {pool : Pool}
    {body : Body}
    {steps : List (Spot × Insn)}
    {last : Option Label}
    {labels : PlacedLabels}
    {rows : List (Nat × Spot × Insn)}
    {stop : Nat}
    {raw : CodeAttribute Attribute}
    {tables : Tables}
    (written : Reassembled pool body steps last labels rows stop raw tables)
    (regular : body.Regular pool steps last)
    (sound : pool.Sound) :
    ∀ item ∈ raw.attributes, ∃ bytes, item.encode pool = (bytes, pool) := by
  have table
      {α β : Type}
      (make : List α → Attribute)
      {rows : List α}
      {sources : List β}
      {item : Attribute}
      (noBody : (make rows).isBody = false)
      (length : rows.length = sources.length)
      (known : sources ≠ [] → pool.Knows (.utf8 (make rows).name))
      (member : item ∈ tableAttribute make rows) :
      ∃ bytes, item.encode pool = (bytes, pool) := by
    cases rows with
    | nil => cases member
    | cons row rows =>
        have some : sources ≠ [] := by
          rintro rfl
          cases length
        obtain ⟨number, encoded⟩ := Attribute.exists_encode_of_known sound noBody (known some)
        rw [List.mem_singleton.mp member]
        exact ⟨_, encoded⟩
  intro item member
  rw [written.attributes, List.mem_append, List.mem_append, List.mem_append] at member
  rcases member with ((member | member) | member) | member
  · exact table .lineNumberTable rfl written.lines.length_eq.symm regular.linesKnown member
  · exact table .localVariableTable rfl written.locals.length_eq.symm regular.localsKnown member
  · exact table .stackMapTable rfl written.frames.exists_moved.1 regular.framesKnown member
  · rw [written.others] at member
    obtain ⟨bytes, encoded, _⟩ := (regular.attributes item member).1.readBack sound
    exact ⟨bytes, encoded⟩

end Body

/-! ## Members -/

namespace Method

/-- The errors that the body of a method is refused with, if it has one. -/
def Refuses
    (method : Method)
    (error : WriteError) : Prop :=
  ∃ body, method.body = some body ∧ body.Refuses error

variable {pool : Pool} {context : WriteContext} {method : Method}

theorem decided_encodeBody
    {body : Body}
    {steps : List (Spot × Insn)}
    {last : Option Label}
    (regular : body.Regular pool steps last)
    (sound : pool.Sound)
    (known : pool.Knows (.utf8 "Code"))
    (nothing : context.options = ⟨false, false⟩)
    (short : Insn.stopBehind 0 (Node.insns body.nodes) ≤ maxCodeLength) :
    Writing.Decided pool body.Refuses (method.encodeBody context body) := by
  refine (regular.decided_assemble sound nothing short).before fun raw assembled => ?_
  obtain ⟨_, labels, rows, stop, tables, written⟩ :=
    regular.reassembled_of_assemble sound nothing assembled
  obtain ⟨content, encoded⟩ :=
    Attribute.exists_encodeCode (written.exists_encode regular sound)
  obtain ⟨number, interned, _⟩ := Pool.internText_of_known sound known
  refine .behind (congrArg Except.ok encoded) ?_
  exact .behind (congrArg Except.ok interned) (.of_ok rfl)

/-- A regular method with a body that is not too long is written unless the body is refused. -/
theorem decided_encode
    (regular : method.Regular pool)
    (sound : pool.Sound)
    (nothing : context.options = ⟨false, false⟩)
    (short :
      ∀ body, method.body = some body →
        Insn.stopBehind 0 (Node.insns body.nodes) ≤ maxCodeLength) :
    Writing.Decided pool method.Refuses (method.encode context) := by
  obtain ⟨name, nameWritten, _⟩ := Writing.text_of_known sound regular.name
  obtain ⟨descriptor, descriptorWritten, _⟩ := Writing.text_of_known sound regular.descriptor
  obtain ⟨pieces, attributesWritten, _⟩ :=
    intern_encodeAll_of_fits sound fun item member => (regular.fits item member).1
  refine .behind nameWritten (.behind descriptorWritten ?_)
  cases held : method.body with
  | none =>
      show Writing.Decided pool _ (pure [] >>= _)
      refine .congr (.behind rfl (.behind attributesWritten (.of_ok rfl))) ?_
      simp [Refuses, held]
  | some body =>
      obtain ⟨known, steps, last, bodyRegular⟩ := regular.body body held
      have decided : Writing.Decided pool body.Refuses (method.encodeBody context body) :=
        decided_encodeBody bodyRegular sound known nothing (short body held)
      show Writing.Decided pool _ (method.encodeBody context body >>= _)
      refine (decided.before fun bytes _ => .behind attributesWritten (.of_ok rfl)).congr ?_
      simp [Refuses, held]

/-- The body of a method that was resolved is one of its attributes, decoded. -/
theorem exists_decodesTo_of_ofInfo
    {info : MemberInfo}
    {body : Body}
    (resolved : ofInfo pool info = .ok method)
    (held : method.body = some body) :
    ∃ raw decoded tables,
      .code raw ∈ info.attributes ∧ Body.DecodesTo pool raw body decoded tables := by
  obtain ⟨split, _⟩ := ofInfo_eq_ok_iff.mp resolved
  obtain ⟨_, _, _, cases⟩ := parts_of_splitBody split
  rw [held] at cases
  rcases cases with ⟨none, _⟩ | ⟨_, raw, _, member, read, some, _⟩
  · cases none
  · cases some
    obtain ⟨decoded, tables, decodes⟩ := Body.ofAttribute_eq_ok_iff.mp read
    exact ⟨raw, decoded, tables, member, decodes⟩

/-- The body of a method that was resolved takes no more bytes than its code may have. -/
theorem short_of_ofInfo
    {info : MemberInfo}
    {body : Body}
    (fits : Attribute.TableFits pool info.attributes)
    (resolved : ofInfo pool info = .ok method)
    (held : method.body = some body) :
    Insn.stopBehind 0 (Node.insns body.nodes) ≤ maxCodeLength := by
  obtain ⟨raw, _, _, member, decodes⟩ := exists_decodesTo_of_ofInfo resolved held
  cases fits.fits _ member with
  | leaf _ isLeaf => exact isLeaf.elim
  | body _ head _ _ => exact Nat.le_trans decodes.stopBehind_le head.short

end Method

/-! ## Classes -/

/-- A table is decided by the reasons of its elements. -/
theorem Writing.Decided.table16
    {α : Type}
    {pool : Pool}
    {reasonOf : α → WriteError → Prop}
    {encode : α → Writing Bytes}
    {elements : List α}
    (each : ∀ element ∈ elements, Writing.Decided pool (reasonOf element) (encode element)) :
    Writing.Decided pool (fun error => ∃ element ∈ elements, reasonOf element error)
      (Writing.table16 encode elements) :=
  (Writing.Decided.mapM each).before fun _ _ => .of_ok rfl

theorem Writing.Decided.exists_table16
    {α : Type}
    {pool : Pool}
    {encode : α → Writing Bytes}
    {elements : List α}
    (each : ∀ element ∈ elements, ∃ bytes, encode element pool = .ok (bytes, pool)) :
    ∃ bytes, Writing.table16 encode elements pool = .ok (bytes, pool) := by
  obtain ⟨pieces, row⟩ := Writing.Decided.exists_mapM each
  exact Writing.Decided.exists_ok (.behind row (.of_ok rfl))

namespace ClassModel

variable {model : ClassModel} {context : WriteContext}

/-- The errors that a class is refused with, for one of its bodies. -/
def Refuses
    (model : ClassModel)
    (error : WriteError) : Prop :=
  ∃ method ∈ model.methods, method.Refuses error

/-- What stands behind the pool of a regular class is written unless a body is refused. -/
theorem decided_encodeContent
    (regular : model.Regular)
    (nothing : context.options = ⟨false, false⟩)
    (short :
      ∀ method ∈ model.methods, ∀ body, method.body = some body →
        Insn.stopBehind 0 (Node.insns body.nodes) ≤ maxCodeLength) :
    Writing.Decided model.pool model.Refuses (model.encodeContent context) := by
  have sound := regular.adopted.sound
  obtain ⟨thisClass, thisWritten, _⟩ := Writing.className_of_known sound regular.name
  obtain ⟨superClass, superWritten, _⟩ := Writing.classOrNone_of_known sound regular.superName
  obtain ⟨interfaces, interfacesWritten⟩ :
      ∃ bytes, Writing.table16 Writing.className model.interfaces model.pool =
        .ok (bytes, model.pool) := by
    refine Writing.Decided.exists_table16 fun name member => ?_
    obtain ⟨number, written, _⟩ := Writing.className_of_known sound (regular.interfaces name member)
    exact ⟨_, written⟩
  obtain ⟨fields, fieldsWritten⟩ :
      ∃ bytes, Writing.table16 Field.encode model.fields model.pool = .ok (bytes, model.pool) := by
    refine Writing.Decided.exists_table16 fun field member => ?_
    obtain ⟨bytes, _, written, _⟩ := Field.exists_readBack sound (regular.fields field member)
    exact ⟨bytes, written⟩
  obtain ⟨attributes, attributesWritten, _⟩ :=
    Writing.attributes_of_fits sound regular.attributes.fits
  have methods :
      Writing.Decided model.pool model.Refuses
        (Writing.table16 (Method.encode context) model.methods) :=
    .table16 fun method member =>
      Method.decided_encode (regular.methods method member) sound nothing (short method member)
  refine .behind thisWritten (.behind superWritten (.behind interfacesWritten ?_))
  refine .behind fieldsWritten (methods.before fun _ _ => ?_)
  exact .behind attributesWritten (.of_ok rfl)

/-- A class that was read is written as it is unless one of its bodies is refused. -/
theorem decided_write
    {bytes : Bytes}
    (found : ClassModel.read bytes = .ok model) :
    Decided model.Refuses (fun _ => True) (model.write ⟨false, false⟩) := by
  have regular := regular_of_read found
  obtain ⟨_, file, reads, resolves⟩ := read_eq_ok_iff.mp found
  obtain ⟨_, _, _, _, _, poolRead, _⟩ := ClassFile.reads_reader_iff.mp reads
  obtain ⟨poolBytes, poolWritten⟩ := Pool.exists_encode_of_reads poolRead
  rw [← resolves.pool] at poolWritten
  have short (method : Method) (member : method ∈ model.methods) (body : Body)
      (held : method.body = some body) :
      Insn.stopBehind 0 (Node.insns body.nodes) ≤ maxCodeLength := by
    obtain ⟨info, among, resolved⟩ := exists_of_forall₂ resolves.methods member
    have fits := (ClassFile.regular_of_reads reads).methods info among
    exact Method.short_of_ofInfo fits resolved held
  let context : WriteContext :=
    ⟨model.name, model.major, ⟨false, false⟩, [.table model.ownTable]⟩
  have content :
      Decided model.Refuses (fun result => result.2 = model.pool)
        (model.encodeContent context model.pool) :=
    decided_encodeContent regular rfl short
  refine content.before fun result same => ?_
  obtain ⟨content, pool⟩ := result
  obtain rfl : pool = model.pool := same
  exact .of_ok (bind_eq_ok_iff.mpr ⟨poolBytes, poolWritten, rfl⟩) trivial

/--
A class that was read and is written as it is has bytes exactly if none of its bodies is
refused, and otherwise fails with an error that one of them is refused with.
-/
theorem write_of_read
    {bytes : Bytes}
    (found : ClassModel.read bytes = .ok model) :
    ((∃ written, model.write ⟨false, false⟩ = .ok written) ↔ ∀ error, ¬ model.Refuses error) ∧
      ∀ error, model.write ⟨false, false⟩ = .error error → model.Refuses error :=
  ⟨(decided_write found).exists_ok_iff, fun _ => (decided_write found).reason_of_error⟩

/-- The loop is written, so none of its bodies is refused, although it is laid out anew. -/
theorem write_of_wideLoop :
    ∃ model written,
      ClassModel.read wideLoop = .ok model ∧
        model.write ⟨false, false⟩ = .ok written ∧ ∀ error, ¬ model.Refuses error := by
  have outcome :
      (ClassModel.read wideLoop).toOption.map (fun model =>
        (model.write ⟨false, false⟩).toOption.map List.length) = some (some 166) := by
    decide +kernel
  obtain ⟨model, found, encoded⟩ := Option.map_eq_some_iff.mp outcome
  obtain ⟨written, encoded, _⟩ := Option.map_eq_some_iff.mp encoded
  have read := toOption_eq_some_iff.mp found
  have wrote := toOption_eq_some_iff.mp encoded
  exact ⟨model, written, read, wrote, (write_of_read read).1.mp ⟨written, wrote⟩⟩

/-- A class with two tables of frames, the second of which starts in front of the first. -/
def mergedTables : Bytes :=
  [ 0xCA, 0xFE, 0xBA, 0xBE, 0x00, 0x00, 0x00, 0x34, 0x00, 0x07, 0x01, 0x00, 0x01, 0x41, 0x07,
    0x00, 0x01, 0x01, 0x00, 0x04, 0x43, 0x6F, 0x64, 0x65, 0x01, 0x00, 0x01, 0x6D, 0x01, 0x00,
    0x03, 0x28, 0x29, 0x56, 0x01, 0x00, 0x0D, 0x53, 0x74, 0x61, 0x63, 0x6B, 0x4D, 0x61, 0x70,
    0x54, 0x61, 0x62, 0x6C, 0x65, 0x00, 0x21, 0x00, 0x02, 0x00, 0x00, 0x00, 0x00, 0x00, 0x00,
    0x00, 0x01, 0x00, 0x09, 0x00, 0x04, 0x00, 0x05, 0x00, 0x01, 0x00, 0x03, 0x00, 0x00, 0x00,
    0x22, 0x00, 0x00, 0x00, 0x00, 0x00, 0x00, 0x00, 0x04, 0x00, 0x00, 0x00, 0xB1, 0x00, 0x00,
    0x00, 0x02, 0x00, 0x06, 0x00, 0x00, 0x00, 0x03, 0x00, 0x01, 0x02, 0x00, 0x06, 0x00, 0x00,
    0x00, 0x03, 0x00, 0x01, 0x01, 0x00, 0x00 ]

/-- The tables are read as one, whose frames are not in order, so the class is not written. -/
theorem write_eq_error_of_mergedTables :
    ∃ model,
      ClassModel.read mergedTables = .ok model ∧
        model.write ⟨false, false⟩ = .error (.inconsistentFrame 1 .outOfOrder) := by
  have outcome :
      (ClassModel.read mergedTables).toOption.map (fun model =>
        decide (model.write ⟨false, false⟩ = .error (.inconsistentFrame 1 .outOfOrder))) =
          some true := by
    decide +kernel
  obtain ⟨model, found, failed⟩ := Option.map_eq_some_iff.mp outcome
  exact ⟨model, toOption_eq_some_iff.mp found, of_decide_eq_true failed⟩

end ClassModel

end JvmClass
