import JvmClass.Proofs.Body.Moved
import JvmClass.Proofs.ClassModel.Encoded
import JvmClass.Proofs.ClassModel.RoundTrip
import JvmClass.Proofs.Weave.Closed

namespace JvmClass

/-!
# Frames of classes that are written as they were read

Written without computing anything, the frames of a class name the offsets that they
named when it was read.  They are right as long as the instructions that created the
objects have not moved, and those move if a wide form in front of them gets shorter.
-/

/--
A body was written that names the offsets that another one names.  That is right exactly
if the instructions at those offsets are where they were, as they are behind no wide form
that its operands do without.
-/
def CodeAttribute.KeepsOrigins (raw again : CodeAttribute Attribute) : Prop :=
  ∃ before after,
    raw.Rewritten again before after ∧
      (raw.Follows again before after ↔
        ∀ position origin,
          raw.Names before position origin → Insn.CreatesAt after position origin) ∧
      ((∀ position origin,
          raw.Names before position origin → Insn.Tight raw.code (before.take position)) →
        raw.Follows again before after)

/-- A method was written with the body of another one, if that has one. -/
def MemberInfo.KeepsOrigins (info again : MemberInfo) : Prop :=
  Option.Rel CodeAttribute.KeepsOrigins (Verify.firstBody? info.attributes)
    (Verify.firstBody? again.attributes)

/-- The bodies of the methods of a class file. -/
def ClassFile.bodies (file : ClassFile) : List (CodeAttribute Attribute) :=
  file.methods.filterMap fun info => Verify.firstBody? info.attributes

/-- A regular method can be written as long as the rows of its body can be counted. -/
theorem Method.Regular.encodable
    {pool : Pool}
    {method : Method}
    (regular : method.Regular pool)
    (few : ∀ body, method.body = some body → body.FewRows) :
    method.Encodable pool where
  short := regular.short
  fits := regular.fits
  body body held := by
    obtain ⟨known, _, _, bodyRegular⟩ := regular.body body held
    exact ⟨known, bodyRegular.closed,
      bodyRegular.writable (few body held).lines (few body held).locals⟩

/-- A method is written with the frames of the body that was read. -/
theorem Method.Encoded.keepsOrigins
    {pool last : Pool}
    {method : Method}
    {info again : MemberInfo}
    (encoded : Method.Encoded pool last method again)
    (resolved : Method.ofInfo pool info = .ok method)
    (regular : method.Regular pool) :
    info.KeepsOrigins again := by
  have bodies := firstBody?_of_splitBody (ofInfo_eq_ok_iff.mp resolved).1
  unfold MemberInfo.KeepsOrigins
  cases held : method.body with
  | none =>
      rw [held] at bodies
      rw [encoded.bodiless held]
      generalize Verify.firstBody? info.attributes = found at bodies ⊢
      cases bodies
      exact .none
  | some body =>
      obtain ⟨code, first, _, _, _, _, _, _, _, assembled, _⟩ := encoded.body body held
      obtain ⟨_, _, _, bodyRegular⟩ := regular.body body held
      rw [held] at bodies
      rw [first]
      generalize Verify.firstBody? info.attributes = found at bodies ⊢
      cases bodies with
      | some read =>
          obtain ⟨decoded, tables, decodes⟩ := Body.ofAttribute_eq_ok_iff.mp read
          have rewritten :=
            decodes.rewritten assembled fun item member => (bodyRegular.attributes item member).2
          exact .some ⟨_, _, rewritten, rewritten.follows_iff, rewritten.follows_of_tight⟩

namespace ClassModel

variable {bytes written : Bytes} {model : ClassModel}

/-- A class that was read can be written as long as the rows of its bodies can be counted. -/
theorem encodable_of_read
    (found : ClassModel.read bytes = .ok model)
    (few : model.FewRows) :
    model.Encodable := by
  have regular := regular_of_read found
  exact {
    sound := regular.adopted.sound
    old := regular.old
    new := regular.new
    interfacesShort := regular.interfacesShort
    fieldsShort := regular.fieldsShort
    methodsShort := regular.methodsShort
    fields := fun field member => (regular.fields field member).attributes
    methods := fun method member => (regular.methods method member).encodable (few method member)
    attributes := regular.attributes
    light := light_of_read found }

/--
A class that was read and is written as it is has the methods that it had, with frames
that name the offsets that they named.  Those are the offsets of the instructions that
created the objects as long as none of these has moved.
-/
theorem keepsOrigins_of_read_write
    (found : ClassModel.read bytes = .ok model)
    (few : model.FewRows)
    (encoded : model.write ⟨false, false⟩ = .ok written) :
    ∃ file again,
      ClassFile.ofBytes bytes = .ok file ∧ ClassFile.ofBytes written = .ok again ∧
        List.Forall₂ MemberInfo.KeepsOrigins file.methods again.methods := by
  obtain ⟨_, file, reads, resolves⟩ := read_eq_ok_iff.mp found
  obtain ⟨again, readAgain, _, last, _, _, methods⟩ :=
    exists_file_of_writeWith (encodable_of_read found few) rfl encoded
  have regular := (regular_of_read found).methods
  refine ⟨file, again, ClassFile.ofBytes_eq_ok_iff.mpr reads, readAgain, ?_⟩
  have resolved := resolves.methods
  rw [resolves.pool] at methods regular
  generalize file.methods = infos at resolved ⊢
  generalize again.methods = others at methods ⊢
  generalize model.methods = held at regular resolved methods
  induction methods generalizing infos with
  | nil =>
      cases resolved
      exact .nil
  | cons encoded _ inductionHypothesis =>
      rw [List.forall_mem_cons] at regular
      cases resolved with
      | cons first rest =>
          exact .cons (encoded.keepsOrigins first regular.1)
            (inductionHypothesis _ regular.2 rest)

/--
A class that loads its argument in the wide form, and then creates an object that a frame
speaks of.
-/
def wideLoad : Bytes :=
  [ 0xCA, 0xFE, 0xBA, 0xBE, 0x00, 0x00, 0x00, 0x34, 0x00, 0x09, 0x01, 0x00, 0x01, 0x41, 0x07, 0x00,
    0x01, 0x01, 0x00, 0x10, 0x6A, 0x61, 0x76, 0x61, 0x2F, 0x6C, 0x61, 0x6E, 0x67, 0x2F, 0x4F, 0x62,
    0x6A, 0x65, 0x63, 0x74, 0x07, 0x00, 0x03, 0x01, 0x00, 0x04, 0x43, 0x6F, 0x64, 0x65, 0x01, 0x00,
    0x01, 0x6D, 0x01, 0x00, 0x04, 0x28, 0x49, 0x29, 0x56, 0x01, 0x00, 0x0D, 0x53, 0x74, 0x61, 0x63,
    0x6B, 0x4D, 0x61, 0x70, 0x54, 0x61, 0x62, 0x6C, 0x65, 0x00, 0x21, 0x00, 0x02, 0x00, 0x04, 0x00,
    0x00, 0x00, 0x00, 0x00, 0x01, 0x00, 0x09, 0x00, 0x06, 0x00, 0x07, 0x00, 0x01, 0x00, 0x05, 0x00,
    0x00, 0x00, 0x22, 0x00, 0x01, 0x00, 0x01, 0x00, 0x00, 0x00, 0x0A, 0xC4, 0x15, 0x00, 0x00, 0x57,
    0xBB, 0x00, 0x02, 0x57, 0xB1, 0x00, 0x00, 0x00, 0x01, 0x00, 0x08, 0x00, 0x00, 0x00, 0x06, 0x00,
    0x01, 0x48, 0x08, 0x00, 0x05, 0x00, 0x00 ]

/-- The class is written with the frame of the class that was read. -/
theorem keepsOrigins_of_wideLoad :
    ∃ model written file again,
      ClassModel.read wideLoad = .ok model ∧ model.FewRows ∧
        model.write ⟨false, false⟩ = .ok written ∧
          ClassFile.ofBytes wideLoad = .ok file ∧ ClassFile.ofBytes written = .ok again ∧
            List.Forall₂ MemberInfo.KeepsOrigins file.methods again.methods := by
  let rowsOf (body : Body) : Nat × Nat × Nat :=
    ((LaidOut.lineMarks body.nodes).length, body.locals.length, body.frames.length)
  have outcome :
      (ClassModel.read wideLoad).toOption.map (fun model =>
          (model.methods.flatMap (·.body.toList.map rowsOf),
            (model.write ⟨false, false⟩).toOption.isSome)) =
        some ([(0, 0, 1)], true) := by
    decide +kernel
  cases found : ClassModel.read wideLoad with
  | error => simp [found, Except.toOption] at outcome
  | ok model =>
      cases encoded : model.write ⟨false, false⟩ with
      | error => simp [found, encoded, Except.toOption] at outcome
      | ok written =>
          simp only [found, encoded, Except.toOption, Option.map_some, Option.some.injEq,
            Prod.mk.injEq] at outcome
          have few : model.FewRows := by
            intro method member body held
            have listed : rowsOf body ∈ model.methods.flatMap (·.body.toList.map rowsOf) :=
              List.mem_flatMap_of_mem member
                (List.mem_map_of_mem (Option.mem_toList.mpr held))
            rw [outcome.1, List.mem_singleton, Prod.mk.injEq, Prod.mk.injEq] at listed
            obtain ⟨lines, locals, frames⟩ := listed
            exact ⟨by omega, by omega, by omega⟩
          obtain ⟨file, again, read, readAgain, methods⟩ :=
            keepsOrigins_of_read_write found few encoded
          exact ⟨model, written, file, again, rfl, few, encoded, read, readAgain, methods⟩

/--
Loading the argument takes two bytes less when the class is written, and the frame names
an offset in the middle of the instruction that creates the object.
-/
theorem exists_not_follows :
    ∃ model written raw again before after,
      ClassModel.read wideLoad = .ok model ∧ model.write ⟨false, false⟩ = .ok written ∧
        (ClassFile.ofBytes wideLoad).toOption.map ClassFile.bodies = some [raw] ∧
          (ClassFile.ofBytes written).toOption.map ClassFile.bodies = some [again] ∧
            Insn.decode raw.code = .ok before ∧ Insn.decode again.code = .ok after ∧
              (∀ frame ∈ raw.allFrames, ∀ origin ∈ frame.origins,
                ∃ position, Insn.CreatesAt before position origin) ∧
                ¬ raw.Follows again before after := by
  let outline (raw : CodeAttribute Attribute) : Bytes × List (List UInt16) :=
    (raw.code, raw.allFrames.map StackMap.Frame.origins)
  have written :
      ((ClassModel.read wideLoad).toOption.bind fun model =>
          (model.write ⟨false, false⟩).toOption.bind fun written =>
            (ClassFile.ofBytes written).toOption.map (·.bodies.map outline)) =
        some [([0x15, 0, 0x57, 0xBB, 0, 2, 0x57, 0xB1], [[5]])] := by
    decide +kernel
  have read :
      (ClassFile.ofBytes wideLoad).toOption.map (·.bodies.map outline) =
        some [([0xC4, 0x15, 0, 0, 0x57, 0xBB, 0, 2, 0x57, 0xB1], [[5]])] := by
    decide +kernel
  have decoded :
      Insn.decode [0xC4, 0x15, 0, 0, 0x57, 0xBB, 0, 2, 0x57, 0xB1] =
          .ok [(0, .slot 0x15 0), (4, .plain 0x57), (5, .classRef 0xBB 2), (8, .plain 0x57),
            (9, .plain 0xB1)] ∧
        Insn.decode [0x15, 0, 0x57, 0xBB, 0, 2, 0x57, 0xB1] =
          .ok [(0, .slot 0x15 0), (2, .plain 0x57), (3, .classRef 0xBB 2), (6, .plain 0x57),
            (7, .plain 0xB1)] := by
    decide +kernel
  simp only [Option.bind_eq_some_iff, Option.map_eq_some_iff, toOption_eq_some_iff,
    List.map_eq_singleton_iff] at written read
  obtain ⟨model, found, bytes, encoded, file, readAgain, again, bodies, after⟩ := written
  obtain ⟨first, readFirst, raw, firstBodies, before⟩ := read
  obtain ⟨code, origins⟩ := Prod.mk.inj before
  obtain ⟨codeAgain, originsAgain⟩ := Prod.mk.inj after
  refine ⟨model, bytes, raw, again, _, _, found, encoded, ?_, ?_, code ▸ decoded.1,
    codeAgain ▸ decoded.2, ?_, ?_⟩
  · rw [toOption_eq_some_iff.mpr readFirst, Option.map_some, firstBodies]
  · rw [toOption_eq_some_iff.mpr readAgain, Option.map_some, bodies]
  · intro frame listed origin named
    have among : frame.origins ∈ raw.allFrames.map StackMap.Frame.origins :=
      List.mem_map_of_mem listed
    rw [origins, List.mem_singleton] at among
    rw [among, List.mem_singleton] at named
    exact ⟨2, 2, by rw [named]; rfl⟩
  · rw [CodeAttribute.Follows, origins, originsAgain]
    rintro (_ | ⟨_ | ⟨follows, _⟩, _⟩)
    obtain ⟨index, elsewhere⟩ := follows 2 ⟨2, rfl⟩
    cases elsewhere

end ClassModel
end JvmClass
