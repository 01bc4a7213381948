import JvmClass.Proofs.ClassModel.Framing
import JvmClass.Proofs.ClassModel.Reread

namespace JvmClass

/-!
# Reading the methods that were written

The methods of a written class are read at their places, with the code that their
bodies were assembled to, whatever becomes of the tables behind it.
-/

open Reader Writing

namespace Method

variable
  {context : WriteContext}
  {method again : Method}
  {body : Body}
  {first last pool next : Pool}
  {bytes : Bytes}

/-! ## Pieces of a method -/

/-- A body is written as what it is assembled to, framed, and something behind that. -/
structure WritesBody
    (context : WriteContext)
    (method : Method)
    (last : Pool)
    (body : Body)
    (piece : Bytes)
    (raw : CodeAttribute Attribute) : Prop where
  assembled :
    ∃ before after,
      body.assemble context method.access method.name method.descriptor before = .ok (raw, after)
  framed :
    ∃ number nested,
      piece = Attribute.frame number (Attribute.codeHead raw ++ nested) ∧
        last.text number = .ok "Code"

/-- A method is written as three numbers, its body if it has one, and its attributes. -/
structure WrittenAs
    (context : WriteContext)
    (method : Method)
    (last : Pool)
    (name descriptor : UInt16)
    (bodies frames : List Bytes) : Prop where
  name : last.text name = .ok method.name
  descriptor : last.text descriptor = .ok method.descriptor
  bodies :
    List.Forall₂ (fun body piece => ∃ raw, WritesBody context method last body piece raw)
      method.body.toList bodies
  count : frames.length = method.attributes.length
  framed : ∀ piece ∈ frames, ∃ number content, piece = Attribute.frame number content

theorem exists_writesBody
    (sound : pool.Sound)
    (short : last.size ≤ 2 ^ 16)
    (written : method.encodeBody context body pool = .ok (bytes, next))
    (leads : next.LeadsTo last) :
    ∃ raw, WritesBody context method last body bytes raw := by
  obtain ⟨raw, second, assembled, framing⟩ := Writing.bind_eq_ok_iff.mp written
  rw [Writing.intern_bind_eq_ok_iff, Writing.intern_bind_eq_ok_iff] at framing
  obtain ⟨rfl, rfl⟩ := Writing.pure_eq_ok_iff.mp framing
  have toThird :=
    (body.growing_assemble _ _ _ _ _ _ _ assembled).trans (Attribute.growing_encodeCode raw second)
  have fits := Nat.le_trans leads.kept.size_le short
  have thirdFits :=
    Nat.le_trans (Pool.growing_internText "Code" (Attribute.encodeCode raw second).2).kept.size_le
      fits
  have named :=
    (Pool.advances_internText (toThird.advances sound.coherent thirdFits).coherent rfl fits).2
  exact ⟨raw, ⟨pool, second, assembled⟩, _, _, rfl, leads.kept.textAt named⟩

/-- A method is written step by step: its names, its body if it has one, and its attributes. -/
theorem exists_steps_of_encode
    (written : method.encode context pool = .ok (bytes, next)) :
    ∃ nameBytes second descriptorBytes third bodies fourth,
      Writing.text method.name pool = .ok (nameBytes, second) ∧
        Writing.text method.descriptor second = .ok (descriptorBytes, third) ∧
          method.body.toList.mapM (method.encodeBody context) third = .ok (bodies, fourth) ∧
            bytes =
                Bytes.ofUInt16 method.access ++ nameBytes ++ descriptorBytes ++
                  Bytes.ofUInt16 (UInt16.ofNat (method.attributes.length + bodies.length)) ++
                  bodies.flatten ++ (Attribute.encodeAll [] method.attributes fourth).1 ∧
              next = (Attribute.encodeAll [] method.attributes fourth).2 := by
  obtain ⟨nameBytes, second, nameWritten, written⟩ := Writing.bind_eq_ok_iff.mp written
  obtain ⟨descriptorBytes, third, descriptorWritten, written⟩ := Writing.bind_eq_ok_iff.mp written
  refine ⟨nameBytes, second, descriptorBytes, third, ?_⟩
  cases held : method.body with
  | none =>
      rw [held] at written
      obtain ⟨_, _, nothing, behind⟩ := Writing.bind_eq_ok_iff.mp written
      obtain ⟨rfl, rfl⟩ := Writing.pure_eq_ok_iff.mp nothing
      rw [Writing.intern_bind_eq_ok_iff] at behind
      obtain ⟨rfl, rfl⟩ := Writing.pure_eq_ok_iff.mp behind
      exact ⟨[], _, nameWritten, descriptorWritten, rfl, rfl, rfl⟩
  | some body =>
      rw [held] at written
      obtain ⟨bodyBytes, fourth, bodyWritten, written⟩ := Writing.bind_eq_ok_iff.mp written
      rw [Writing.intern_bind_eq_ok_iff] at written
      obtain ⟨rfl, rfl⟩ := Writing.pure_eq_ok_iff.mp written
      refine ⟨[bodyBytes], fourth, nameWritten, descriptorWritten, ?_, by simp, rfl⟩
      rw [Option.toList_some, List.mapM_cons]
      exact Writing.bind_eq_ok_iff.mpr ⟨_, _, bodyWritten, rfl⟩

/-- On the way to a pool in which everything has a number, a method is written in its pieces. -/
theorem exists_writtenAs
    (sound : first.Sound)
    (short : last.size ≤ 2 ^ 16)
    (between : Between first last (Method.encode context) method bytes) :
    ∃ name descriptor bodies frames,
      bytes = MemberInfo.framed method.access name descriptor (bodies ++ frames) ∧
        WrittenAs context method last name descriptor bodies frames := by
  obtain ⟨before, after, reached, written, leads⟩ := between
  obtain ⟨_, second, _, third, bodies, fourth, nameWritten, descriptorWritten, bodyWritten, rfl,
    rfl⟩ := exists_steps_of_encode written
  obtain ⟨frames, framesShape, count, framed⟩ :=
    @Attribute.exists_frames_of_encodeAll [] method.attributes fourth
  have toSecond := reached.trans (growing_text _ _ _ _ nameWritten)
  have toThird := toSecond.trans (growing_text _ _ _ _ descriptorWritten)
  have fromFourth := (Attribute.growing_encodeAll [] method.attributes fourth).trans leads
  have bodyGrowing := growing_encodeBody context method
  have fromThird := (growing_mapM bodyGrowing _ _ _ bodyWritten).trans fromFourth
  have fromSecond := (growing_text _ _ _ _ descriptorWritten).trans fromThird
  have soundAt {middle : Pool} (reached : first.LeadsTo middle) (leads : middle.LeadsTo last) :
      middle.Sound :=
    (reached.grows sound (Nat.le_trans leads.kept.size_le short)).sound
  have fromFirst := (growing_text _ _ _ _ nameWritten).trans fromSecond
  obtain ⟨name, rfl, named⟩ := exists_text (soundAt reached fromFirst) short nameWritten fromSecond
  obtain ⟨descriptor, rfl, described⟩ :=
    exists_text (soundAt toSecond fromSecond) short descriptorWritten fromThird
  have rows := rows_of_mapM bodyGrowing bodyWritten
  refine ⟨name, descriptor, bodies, frames, ?_, named, described, ?_, count, framed⟩
  · rw [framesShape, MemberInfo.framed, Bytes.count16, List.length_append, count, Nat.add_comm]
    simp
  · refine rows.imp ?_
    rintro body piece ⟨beforeBody, afterBody, toBody, writtenBody, behind⟩
    have leadsOn := behind.trans fromFourth
    have reachedBody := toThird.trans toBody
    exact exists_writesBody
      (soundAt reachedBody ((bodyGrowing body _ _ _ writtenBody).trans leadsOn)) short writtenBody
      leadsOn

/-! ## Reading the pieces -/

/-- What reading gives back of a written method. -/
structure RereadAs
    (context : WriteContext)
    (method again : Method) : Prop where
  access : again.access = method.access
  name : again.name = method.name
  descriptor : again.descriptor = method.descriptor
  /-- A body is decoded from the code that it was assembled to, with the same sizes. -/
  body :
    ∀ body, method.body = some body →
      ∃ before after raw readPool read bodyAgain,
        body.assemble context method.access method.name method.descriptor before =
            .ok (raw, after) ∧
          read.maxStack = raw.maxStack ∧ read.maxLocals = raw.maxLocals ∧ read.code = raw.code ∧
            Body.ofAttribute readPool read = .ok bodyAgain ∧ again.body = some bodyAgain

/-- What is read from a written body has its sizes and its code. -/
theorem exists_code_of_reads
    {depth : Nat}
    {raw : CodeAttribute Attribute}
    {item : Attribute}
    (writes : WritesBody context method last body bytes raw)
    (small : bytes.length < 2 ^ 32)
    (samePool : pool.entries = last.entries)
    (reads : (Attribute.reader pool depth).Reads bytes item) :
    ∃ read,
      item = .code read ∧
        read.maxStack = raw.maxStack ∧ read.maxLocals = raw.maxLocals ∧ read.code = raw.code := by
  obtain ⟨number, nested, rfl, named⟩ := writes.framed
  cases depth with
  | zero => exact absurd reads not_reads_fail
  | succ depth =>
      obtain ⟨other, name, content, same, contentShort, found, opened⟩ :=
        Attribute.reads_reader_iff.mp reads
      have whole : (Attribute.codeHead raw ++ nested).length < 2 ^ 32 := by
        simp only [Attribute.frame, List.length_append] at small ⊢
        omega
      obtain ⟨rfl, rfl, _⟩ :=
        @Attribute.frame_append_inj _ _ _ _ [] [] whole contentShort (by simpa using same)
      obtain rfl : name = "Code" := by
        rw [Pool.text, samePool] at found
        exact Except.ok.inj (found.symm.trans named)
      have bodyRead :=
        (Attribute.ofContent_eq_ok_iff_of_known (Attribute.local_tableReader pool depth) rfl).mp
          opened
      obtain ⟨read, codeRead, rfl⟩ :=
        (reads_map_iff (Attribute.local_codeReader (Attribute.local_tableReader pool depth))).mp
          bodyRead
      obtain ⟨head, behind, shape, _⟩ :=
        (Attribute.reads_codeReader_iff (Attribute.local_tableReader pool depth)).mp codeRead
      have rawShort : raw.code.length < 2 ^ 32 := by
        simp only [Attribute.codeHead, List.length_append] at whole
        omega
      have readShort : read.code.length < 2 ^ 32 := Nat.lt_of_le_of_lt head.short (by decide)
      simp only [Attribute.codeHead, Bytes.count32, List.append_assoc] at shape
      obtain ⟨sameStack, shape⟩ := Bytes.ofUInt16_append_inj shape
      obtain ⟨sameLocals, shape⟩ := Bytes.ofUInt16_append_inj shape
      obtain ⟨counts, shape⟩ := Bytes.ofUInt32_append_inj shape
      have lengths := congrArg UInt32.toNat counts
      rw [UInt32.toNat_ofNat_of_lt' rawShort, UInt32.toNat_ofNat_of_lt' readShort] at lengths
      exact ⟨read, rfl, sameStack.symm, sameLocals.symm, (List.append_inj shape lengths).1.symm⟩

/-- The pieces of a method that is not too long are framed, and as many as it has attributes. -/
theorem WrittenAs.framed_pieces
    {name descriptor : UInt16}
    {bodies frames : List Bytes}
    (written : WrittenAs context method last name descriptor bodies frames)
    (small : (bodies ++ frames).flatten.length < 2 ^ 32) :
    (bodies ++ frames).length = method.attributes.length + method.body.toList.length ∧
      ∀ piece ∈ bodies ++ frames, piece.length < 2 ^ 32 ∧ Attribute.Framed piece := by
  constructor
  · rw [List.length_append, written.count, ← written.bodies.length_eq, Nat.add_comm]
  · intro piece member
    have inside := (List.sublist_flatten_of_mem member).length_le
    obtain ⟨number, content, rfl⟩ : ∃ number content, piece = Attribute.frame number content := by
      rcases List.mem_append.mp member with atFront | behind
      · obtain ⟨_, _, raw, writes⟩ := exists_of_forall₂ written.bodies atFront
        obtain ⟨number, nested, shape, _⟩ := writes.framed
        exact ⟨number, _, shape⟩
      · exact written.framed piece behind
    refine ⟨by omega, number, content, rfl, ?_⟩
    simp only [Attribute.frame, List.length_append] at inside
    omega

theorem framed_of_between
    (sound : first.Sound)
    (short : last.size ≤ 2 ^ 16)
    (few : method.attributes.length + method.body.toList.length < 2 ^ 16)
    (between : Between first last (Method.encode context) method bytes)
    (small : bytes.length < 2 ^ 32) :
    MemberInfo.Framed bytes := by
  obtain ⟨name, descriptor, bodies, frames, rfl, written⟩ := exists_writtenAs sound short between
  simp only [MemberInfo.framed, List.length_append] at small
  obtain ⟨count, framed⟩ := written.framed_pieces (show _ < 2 ^ 32 by omega)
  exact ⟨_, _, _, _, rfl, count ▸ few, fun piece member => (framed piece member).2⟩

/-- A written method is read as a method of the same names with the body it was assembled to. -/
theorem rereadAs_of_reads
    {depth : Nat}
    {info : MemberInfo}
    (sound : first.Sound)
    (short : last.size ≤ 2 ^ 16)
    (few : method.attributes.length + method.body.toList.length < 2 ^ 16)
    (between : Between first last (Method.encode context) method bytes)
    (small : bytes.length < 2 ^ 32)
    (samePool : pool.entries = last.entries)
    (reads : (MemberInfo.reader pool depth).Reads bytes info)
    (resolved : ofInfo pool info = .ok again) :
    RereadAs context method again := by
  obtain ⟨name, descriptor, bodies, frames, rfl, written⟩ := exists_writtenAs sound short between
  obtain ⟨pieces, same, piecesShort, rows⟩ := MemberInfo.exists_framed_of_reads reads
  obtain ⟨split, access, named, described⟩ := ofInfo_eq_ok_iff.mp resolved
  simp only [MemberInfo.framed, List.length_append] at small
  obtain ⟨count, framed⟩ := written.framed_pieces (show _ < 2 ^ 32 by omega)
  have piecesFramed (piece : Bytes) (member : piece ∈ pieces) : Attribute.Framed piece := by
    obtain ⟨_, _, itemReads⟩ := exists_of_forall₂ rows.flip member
    exact Attribute.framed_of_reads itemReads
  obtain ⟨⟨accesses, rfl, rfl, rfl⟩, _⟩ :=
    @MemberInfo.framed_append_inj _ _ _ _ _ _ _ _ [] [] (count ▸ few) piecesShort
      (fun piece member => (framed piece member).2) piecesFramed (by simpa using same)
  refine ⟨access.trans accesses.symm, ?_, ?_, ?_⟩
  · rw [Pool.text, samePool] at named
    exact Except.ok.inj (named.symm.trans written.name)
  · rw [Pool.text, samePool] at described
    exact Except.ok.inj (described.symm.trans written.descriptor)
  · intro body held
    have bodyRows := written.bodies
    rw [held] at bodyRows
    obtain ⟨piece, others, ⟨raw, writes⟩, none, rfl⟩ := List.forall₂_cons_left_iff.mp bodyRows
    obtain rfl := List.forall₂_nil_left_iff.mp none
    rw [List.cons_append, List.nil_append] at rows framed
    obtain ⟨item, items, itemReads, _, attributes⟩ := List.forall₂_cons_left_iff.mp rows
    obtain ⟨read, rfl, sizes⟩ :=
      exists_code_of_reads writes (framed piece (List.mem_cons_self ..)).1 samePool itemReads
    obtain ⟨before, after, assembled⟩ := writes.assembled
    rw [attributes] at split
    obtain ⟨bodyAgain, decoded, later⟩ := bind_eq_ok_iff.mp split
    obtain ⟨_, _, _, ⟨kept, _⟩ | ⟨missing, _⟩⟩ := parts_of_splitBody later
    · exact ⟨before, after, raw, pool, read, bodyAgain, assembled, sizes.1, sizes.2.1, sizes.2.2,
        decoded, kept⟩
    · cases missing

end Method

namespace ClassModel

variable {model again : ClassModel} {context : WriteContext} {parts : WrittenParts}

/-- Methods that stand where they were written are read as they were written. -/
theorem rereadAs_of_table
    {depth : Nat}
    {file : ClassFile}
    {methods rest last : Bytes}
    (sound : model.pool.Sound)
    (writtenAs : model.WrittenAs context parts)
    (methodsShort : model.methods.length < 2 ^ 16)
    (few :
      ∀ method ∈ model.methods,
        method.attributes.length + method.body.toList.length < 2 ^ 16)
    (small : parts.methodBytes.length < 2 ^ 32)
    (samePool : file.pool.entries = parts.pool.entries)
    (same : parts.methodBytes ++ rest = methods ++ last)
    (reads : (Reader.table16 (MemberInfo.reader file.pool depth)).Reads methods file.methods)
    (resolves : Resolves file again) :
    List.Forall₂ (Method.RereadAs context) model.methods again.methods := by
  obtain ⟨pieces, rows, short, rfl⟩ :=
    (reads_table16_iff (MemberInfo.local_reader file.pool depth)).mp reads
  have writtenRows := writtenAs.methods
  have writtenCount := writtenRows.length_eq
  have readCount := rows.length_eq
  simp only [WrittenParts.methodBytes, Bytes.count16, List.append_assoc] at same
  obtain ⟨counts, same⟩ := Bytes.ofUInt16_append_inj same
  have lengths := congrArg UInt16.toNat counts
  rw [UInt16.toNat_ofNat_of_lt' (show _ < 2 ^ 16 by omega), UInt16.toNat_ofNat_of_lt' short]
    at lengths
  have bounded {piece : Bytes} (member : piece ∈ parts.methods) : piece.length < 2 ^ 32 := by
    have inside := (List.sublist_flatten_of_mem member).length_le
    simp only [WrittenParts.methodBytes, List.length_append] at small
    omega
  have framed (piece : Bytes) (member : piece ∈ parts.methods) : MemberInfo.Framed piece := by
    obtain ⟨method, listed, between⟩ := exists_of_forall₂ writtenRows member
    exact Method.framed_of_between sound (Nat.le_of_lt writtenAs.short) (few method listed) between
      (bounded member)
  have readFramed (piece : Bytes) (member : piece ∈ pieces) : MemberInfo.Framed piece := by
    obtain ⟨_, _, itemReads⟩ := exists_of_forall₂ rows.flip member
    exact MemberInfo.framed_of_reads itemReads
  obtain ⟨rfl, _⟩ :=
    MemberInfo.delimited_framed.flatten framed readFramed (by omega) same
  have reread :
      List.Forall₂
        (fun piece methodAgain =>
          ∃ info,
            (MemberInfo.reader file.pool depth).Reads piece info ∧
              Method.ofInfo file.pool info = .ok methodAgain)
        parts.methods again.methods :=
    forall₂_trans_of_mem rows resolves.methods fun _ info _ _ _ itemReads resolved =>
      ⟨info, itemReads, resolved⟩
  refine forall₂_trans_of_mem writtenRows reread ?_
  rintro method piece methodAgain listed member between ⟨info, itemReads, resolved⟩
  exact Method.rereadAs_of_reads sound (Nat.le_of_lt writtenAs.short) (few method listed) between
    (bounded member) samePool itemReads resolved

/-- Reading a written class gives back its methods if it has as many fields as can be counted. -/
theorem methods_rereadAs
    {options : WriteOptions}
    {hierarchy : Hierarchy}
    {written : Bytes}
    (sound : model.pool.Sound)
    (interfacesShort : model.interfaces.length < 2 ^ 16)
    (fits : ∀ field ∈ model.fields, Attribute.TableFits model.pool field.attributes)
    (fieldsShort : model.fields.length < 2 ^ 16)
    (methodsShort : model.methods.length < 2 ^ 16)
    (few :
      ∀ method ∈ model.methods,
        method.attributes.length + method.body.toList.length < 2 ^ 16)
    (encoded : model.writeWith options hierarchy = .ok written)
    (found : ClassModel.read written = .ok again) :
    List.Forall₂ (Method.RereadAs (model.writeContext options hierarchy))
      model.methods again.methods := by
  obtain ⟨parts, writtenAs, rfl⟩ := exists_parts_of_writeWith sound encoded
  obtain ⟨small, file, reads, resolves⟩ := read_eq_ok_iff.mp found
  have head := headOf_of_reads writtenAs interfacesShort reads
  rw [maxClassSize] at small
  have lengths :
      parts.fieldBytes.length + parts.methodBytes.length ≤ (writtenBytes model parts).length := by
    simp only [writtenBytes, WrittenParts.content, List.length_append]
    omega
  have total : (writtenBytes model parts).length < 2 ^ 32 := Nat.lt_of_le_of_lt small (by decide)
  have deep : parts.fieldBytes.length ≤ (writtenBytes model parts).length := by omega
  obtain ⟨_, methods, attributes, behind, methodsRead, _⟩ :=
    (fields_of_headOf sound writtenAs fits (by omega) deep head resolves).1 fieldsShort
  exact rereadAs_of_table sound writtenAs methodsShort few (by omega) head.pool behind methodsRead
    resolves

end ClassModel
end JvmClass
