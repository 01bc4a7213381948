import JvmClass.Proofs.ClassModel.Ordinary
import JvmClass.Proofs.Instrument.Cleared

namespace JvmClass

/-!
# Classes that are written without their frames computed

A lenient run reports frames that conflict and writes the class with the frames that
its bodies have.  Those of timed methods are gone by then and those of other methods
are put where their labels have come to lie.  That fails only if they are out of
order, and the frames of one table never are.
-/

/-! ## Frames that are put in their places -/

/-- A body that was read and is assembled in some way has its frames in order. -/
theorem Body.Regular.not_outOfOrder_of_assemble
    {pool before after : Pool}
    {body : Body}
    {steps : List (Spot × Insn)}
    {last : Option Label}
    {context : WriteContext}
    {access : UInt16}
    {name descriptor : String}
    {raw : CodeAttribute Attribute}
    {error : WriteError}
    (regular : body.Regular pool steps last)
    (assembled : body.assemble context access name descriptor before = .ok (raw, after)) :
    ¬ body.OutOfOrder error := by
  obtain ⟨steps⟩ := nonempty_assembling assembled
  suffices relocates :
      ∃ frames, relocateFrames steps.laidOut.labels [] none body.frames = .ok frames from
    (regular.decided_frames steps.laid).exists_ok_iff.mp relocates error
  cases present : body.frames with
  | nil => exact ⟨[], rfl⟩
  | cons first rest =>
      have needless : body.needsFrames context = false := by simp [needsFrames, present]
      have framed := steps.framed
      rw [← present]
      cases asked : context.options.computeFrames || context.options.computeMaxima with
      | false =>
          rw [assembleFrames_of_nothing asked] at framed
          obtain ⟨frames, relocated, _⟩ := Writing.lift_bind_eq_ok_iff.mp framed
          exact ⟨frames, relocated⟩
      | true =>
          rw [assembleFrames_of_keeping asked needless] at framed
          obtain ⟨_, _, _, framed⟩ := Writing.bind_eq_ok_iff.mp framed
          obtain ⟨_, _, framed⟩ := Writing.lift_bind_eq_ok_iff.mp framed
          obtain ⟨frames, relocated, _⟩ := Writing.lift_bind_eq_ok_iff.mp framed
          exact ⟨frames, relocated⟩

/-- A class whose pool is sound is written by assembling each of its bodies. -/
theorem ClassModel.exists_assemble_of_writeWith
    {model : ClassModel}
    {options : WriteOptions}
    {hierarchy : Hierarchy}
    {written : Bytes}
    {method : Method}
    {body : Body}
    (sound : model.pool.Sound)
    (encoded : model.writeWith options hierarchy = .ok written)
    (member : method ∈ model.methods)
    (held : method.body = some body) :
    ∃ before raw after,
      body.assemble (model.writeContext options hierarchy) method.access method.name
        method.descriptor before = .ok (raw, after) := by
  obtain ⟨parts, writtenAs, _⟩ := exists_parts_of_writeWith sound encoded
  obtain ⟨piece, _, _, _, _, methodWritten, _⟩ := exists_of_forall₂ writtenAs.methods.flip member
  obtain ⟨_, _, _, third, bodies, fourth, _, _, bodyWritten, _⟩ :=
    Method.exists_steps_of_encode methodWritten
  rw [held, Option.toList_some, List.mapM_cons] at bodyWritten
  obtain ⟨_, _, encodedBody, _⟩ := Writing.bind_eq_ok_iff.mp bodyWritten
  obtain ⟨raw, after, assembled, _⟩ := Writing.bind_eq_ok_iff.mp encodedBody
  exact ⟨third, raw, after, assembled⟩

namespace Instrument

/-! ## Runs -/

variable {config : TimerConfig} {file : ClassFile} {bytes : Bytes} {input output : ClassModel}
  {outcome : Timer.Outcome} {offset : UInt16} {conflict : FrameConflict}

/--
A method that is not timed has frames in several tables, and those of a later table
come to lie in front of those of an earlier one.
-/
structure Clash
    (config : TimerConfig)
    (file : ClassFile)
    (offset : UInt16)
    (method : Method)
    (body : Body) : Prop where
  untimed : config.isTarget method.name method.descriptor = false
  held : method.body = some body
  disorder : body.OutOfOrder (.inconsistentFrame offset .outOfOrder)
  tables :
    ∃ info raw,
      info ∈ file.methods ∧ Method.ofInfo file.pool info = .ok method ∧
        .code raw ∈ info.attributes ∧ Body.ofAttribute file.pool raw = .ok body ∧
          2 ≤ raw.attributes.countP Attribute.isFrameTable

/-- The conflict is that the frames of a method clash. -/
def OfClash
    (config : TimerConfig)
    (file : ClassFile)
    (offset : UInt16)
    (conflict : FrameConflict) : Prop :=
  conflict = .outOfOrder ∧ ∃ method body, Clash config file offset method body

/-- The frames of a body that was read are out of order only if they are from several tables. -/
theorem clash_of_outOfOrder
    {method : Method}
    {body : Body}
    (read : ClassFile.ofBytes bytes = .ok file)
    (found : ClassModel.read bytes = .ok input)
    (member : method ∈ input.methods)
    (untimed : config.isTarget method.name method.descriptor = false)
    (held : method.body = some body)
    (disorder : body.OutOfOrder (.inconsistentFrame offset conflict)) :
    conflict = .outOfOrder ∧ Clash config file offset method body := by
  obtain rfl : conflict = .outOfOrder := by
    obtain ⟨_, _, _, _, same⟩ := disorder
    exact (WriteError.inconsistentFrame.inj same).2
  obtain ⟨_, other, reads, resolves⟩ := ClassModel.read_eq_ok_iff.mp found
  obtain rfl := Except.ok.inj ((ClassFile.ofBytes_eq_ok_iff.mpr reads).symm.trans read)
  obtain ⟨info, among, resolved⟩ := exists_of_forall₂ resolves.methods member
  obtain ⟨raw, decoded, tables, listed, decodes⟩ :=
    Method.exists_decodesTo_of_ofInfo resolved held
  obtain ⟨_, _, _, regular⟩ :=
    ((ClassModel.regular_of_read found).methods method member).body body held
  have short :=
    Method.short_of_ofInfo ((ClassFile.regular_of_reads reads).methods info among) resolved held
  have several : 2 ≤ raw.attributes.countP Attribute.isFrameTable := by
    by_contra few
    exact regular.not_outOfOrder short (decodes.ascending_labels (by omega)) disorder
  exact
    ⟨rfl, untimed, held, disorder, info, raw, among, resolved, listed,
      Body.ofAttribute_eq_ok_iff.mpr ⟨decoded, tables, decodes⟩, several⟩

/-- A timed class that is written as it is fails because of frames only where they clash. -/
theorem exists_clash_of_write
    (read : ClassFile.ofBytes bytes = .ok file)
    (found : ClassModel.read bytes = .ok input)
    (timed : timed config input = .ok (output, outcome))
    (failed : output.write computeNothing = .error (.inconsistentFrame offset conflict)) :
    OfClash config file offset conflict := by
  have regular := ClassModel.regular_of_read found
  obtain rfl := shape_of_timed timed
  refine ClassModel.spared_writeWith (fun timedMethod timedMember woven assembled before _ => ?_)
    failed
  obtain ⟨method, member, rfl⟩ := List.mem_map.mp timedMember
  refine Body.spared_assemble_of_nothing rfl fun grown laidOut laid offset conflict relocated => ?_
  by_cases target : config.isTarget method.name method.descriptor = true
  · have nonempty (body : Body) (held : method.body = some body) :=
      (regular.nonempty_closed member held).1
    obtain ⟨body, held⟩ := Timer.exists_body_of_timedMethod nonempty assembled
    obtain ⟨_, weaver, memory, _, _, rfl⟩ :=
      Timer.exists_wovenBody target held (nonempty body held) assembled
    cases relocated
  · have untimed := Bool.eq_false_iff.mpr target
    rw [Timer.timedMethod_of_not_target config untimed] at assembled
    obtain ⟨_, _, _, regularBody⟩ := (regular.methods method member).body woven assembled
    have disorder := (regularBody.decided_frames laid).reason_of_error relocated
    obtain ⟨same, clash⟩ :=
      clash_of_outOfOrder read found member untimed assembled disorder
    exact ⟨same, method, woven, clash⟩

/-- Where frames clash, a timed class is not written in any way. -/
theorem Clash.not_write
    {method : Method}
    {body : Body}
    {options : WriteOptions}
    {known : Hierarchy}
    {written : Bytes}
    (read : ClassFile.ofBytes bytes = .ok file)
    (found : ClassModel.read bytes = .ok input)
    (timed : timed config input = .ok (output, outcome))
    (clash : Clash config file offset method body) :
    output.writeWith options known ≠ .ok written := by
  intro encoded
  have regular := ClassModel.regular_of_read found
  obtain ⟨info, _, among, resolved, _⟩ := clash.tables
  obtain ⟨_, other, reads, resolves⟩ := ClassModel.read_eq_ok_iff.mp found
  obtain rfl := Except.ok.inj ((ClassFile.ofBytes_eq_ok_iff.mpr reads).symm.trans read)
  obtain ⟨again, member, resolvedAgain⟩ := exists_of_forall₂ resolves.methods.flip among
  obtain rfl := Except.ok.inj (resolved.symm.trans resolvedAgain)
  obtain ⟨_, _, _, regularBody⟩ := (regular.methods method member).body body clash.held
  have shape := shape_of_timed timed
  have sound : output.pool.Sound := by
    rw [shape]
    exact regular.adopted.sound
  have stays : method ∈ output.methods := by
    rw [shape]
    exact List.mem_map.mpr ⟨method, member, Timer.timedMethod_of_not_target config clash.untimed _⟩
  obtain ⟨_, _, _, assembled⟩ :=
    ClassModel.exists_assemble_of_writeWith sound encoded stays clash.held
  exact regularBody.not_outOfOrder_of_assemble assembled clash.disorder

/-- If a lenient run stops because of frames, it does so where the class is written as it is. -/
theorem write_eq_error_of_lenient
    {known : Hierarchy}
    (lenient : config.lenient = true)
    (failed : write config known output = .error (.inconsistentFrame offset conflict)) :
    output.write computeNothing = .error (.inconsistentFrame offset conflict) := by
  unfold write at failed
  split at failed
  · cases failed
  · rw [if_pos lenient] at failed
    rcases bind_eq_error_iff.mp failed with here | ⟨_, _, behind⟩
    · exact here
    · cases behind
  · rename_i error other _
    cases failed
    exact absurd rfl (other offset conflict)

/--
A lenient run fails because of frames only if the frames of a method that is not timed
clash, and where they do it gives nothing.  Any other conflict is the first defect of a
class that is written with what it declares.
-/
theorem clash_of_lenient
    (lenient : config.lenient = true) :
    (∀ offset conflict,
        instrument bytes config = .error (.inconsistentFrame offset conflict) →
          conflict = .outOfOrder ∧
            ∃ file method body,
              ClassFile.ofBytes bytes = .ok file ∧ Clash config file offset method body) ∧
      (∀ file offset method body,
        ClassFile.ofBytes bytes = .ok file →
          Clash config file offset method body → ∀ result, instrument bytes config ≠ .ok result) ∧
        ∀ input output outcome offset conflict,
          config.validate = .ok () →
            ClassModel.read bytes = .ok input →
              timed config input = .ok (output, outcome) →
                output.writeWith computeAll (hierarchy config input) =
                    .error (.inconsistentFrame offset conflict) →
                  instrument bytes config =
                    ((output.write computeNothing).mapError .ofWrite).map fun written =>
                      ⟨written,
                        ⟨.inconsistentFrame conflict, none, some offset⟩ :: Verify.check written,
                        outcome⟩ := by
  refine ⟨fun offset conflict failed => ?_, fun file offset method body read clash result run => ?_, ?_⟩
  · rcases bind_eq_error_iff.mp failed with invalid | ⟨_, _, failed⟩
    · obtain ⟨_, _, same⟩ := mapError_eq_error_iff.mp invalid
      cases same
    rcases bind_eq_error_iff.mp failed with unreadable | ⟨input, found, failed⟩
    · obtain ⟨cause, _, same⟩ := mapError_eq_error_iff.mp unreadable
      cases cause <;> cases same
    rw [mapError_eq_ok_iff] at found
    rcases bind_eq_error_iff.mp failed with untimed | ⟨⟨output, outcome⟩, timed, failed⟩
    · cases untroubled_of_timed untimed
    rcases bind_eq_error_iff.mp failed with unwritten | ⟨_, _, failed⟩
    · obtain ⟨cause, stopped, same⟩ := mapError_eq_error_iff.mp unwritten
      obtain rfl : cause = .inconsistentFrame offset conflict := by
        cases cause <;> cases same
        rfl
      obtain ⟨_, file, reads, _⟩ := ClassModel.read_eq_ok_iff.mp found
      have read := ClassFile.ofBytes_eq_ok_iff.mpr reads
      obtain ⟨same, method, body, clash⟩ :=
        exists_clash_of_write read found timed (write_eq_error_of_lenient lenient stopped)
      exact ⟨same, file, method, body, read, clash⟩
    · cases failed
  · obtain ⟨_, _, run⟩ := bind_eq_ok_iff.mp run
    obtain ⟨input, found, run⟩ := bind_eq_ok_iff.mp run
    rw [mapError_eq_ok_iff] at found
    obtain ⟨⟨output, outcome⟩, timed, run⟩ := bind_eq_ok_iff.mp run
    obtain ⟨⟨written, conflicts⟩, wrote, _⟩ := bind_eq_ok_iff.mp run
    rw [mapError_eq_ok_iff] at wrote
    obtain ⟨options, known, encoded⟩ := exists_options_of_write wrote
    exact clash.not_write read found timed encoded
  · intro input output outcome offset conflict valid found timed conflicts
    unfold instrument
    simp only [valid, found, timed, write, conflicts, lenient, if_true, Except.mapError, bind,
      Except.bind, pure, Except.pure]
    cases output.write computeNothing <;> rfl

/-- A method of another name is to be timed, whatever the frames of the others. -/
def elsewhere : TimerConfig :=
  { methodName := "other", lenient := true }

theorem instrument_mergedTables :
    instrument ClassModel.mergedTables elsewhere = .error (.inconsistentFrame 1 .outOfOrder) := by
  have stopped :
      (match instrument ClassModel.mergedTables elsewhere with
        | .ok _ => none
        | .error error => some error) = some (.inconsistentFrame 1 .outOfOrder) := by
    decide +kernel
  split at stopped
  · cases stopped
  · rename_i error run
    rw [run, Option.some.inj stopped]

/-- The frames of the two tables clash, so there is no class that is written without them. -/
theorem clash_of_mergedTables :
    elsewhere.lenient = true ∧
      ∃ file method body,
        ClassFile.ofBytes ClassModel.mergedTables = .ok file ∧
          Clash elsewhere file 1 method body ∧
            ∀ result, instrument ClassModel.mergedTables elsewhere ≠ .ok result := by
  obtain ⟨onlyClashes, nothing, _⟩ := @clash_of_lenient elsewhere ClassModel.mergedTables rfl
  obtain ⟨_, file, method, body, read, clash⟩ := onlyClashes 1 .outOfOrder instrument_mergedTables
  exact ⟨rfl, file, method, body, read, clash, nothing file 1 method body read clash⟩

/-- A lenient run can fail because of frames. -/
theorem exists_conflict_of_elsewhere :
    ∃ (bytes : Bytes) (config : TimerConfig),
      config.lenient = true ∧ config.validate = .ok () ∧
        ∃ offset conflict,
          instrument bytes config = .error (.inconsistentFrame offset conflict) :=
  ⟨ClassModel.mergedTables, elsewhere, rfl, by decide +kernel, 1, .outOfOrder,
    instrument_mergedTables⟩

end Instrument
end JvmClass
