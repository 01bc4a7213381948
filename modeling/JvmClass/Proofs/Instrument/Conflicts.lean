import JvmClass.Proofs.ClassModel.Encoded
import JvmClass.Proofs.ClassModel.Spared
import JvmClass.Proofs.Instrument.Kept
import JvmClass.Proofs.Weave.Keeping

namespace JvmClass

/-!
# Instrumenting a class again by the frames that it declares

The frames that a checked class declares say enough about the types of its methods to
compute frames for the timed methods, whatever is known of superclasses.
-/

/-! ## Methods of a class that was read and checked -/

/-- A method of a class file that a check found nothing wrong with, and its body in memory. -/
structure Method.ReadClean
    (file : ClassFile)
    (info : MemberInfo)
    (raw : CodeAttribute Attribute)
    (type : MethodType)
    (decoded : Body.Decoded)
    (tables : Body.Tables)
    (method : Method)
    (body : Body) : Prop where
  member : info ∈ file.methods
  access : method.access = info.access
  named : file.pool.text info.name = .ok method.name
  described : file.pool.text info.descriptor = .ok method.descriptor
  first : Verify.firstBody? info.attributes = some raw
  decodes : Body.DecodesTo file.pool raw body decoded tables
  typed : MethodType.ofDescriptor method.descriptor = .ok type
  checked :
    Verify.Checked file.pool (Access.isStatic method.access) type raw
      (StackMap.firstVersion ≤ file.major) decoded.insns
  closed : Node.Closed body.nodes

theorem Method.exists_readClean
    {bytes : Bytes}
    {file : ClassFile}
    {input : ClassModel}
    {method : Method}
    {body : Body}
    (read : ClassFile.ofBytes bytes = .ok file)
    (found : ClassModel.read bytes = .ok input)
    (clean : Verify.check bytes = [])
    (member : method ∈ input.methods)
    (held : method.body = some body) :
    ∃ info raw type decoded tables,
      method.ReadClean file info raw type decoded tables body := by
  obtain ⟨_, file, reads, resolves⟩ := ClassModel.read_eq_ok_iff.mp found
  rw [ClassFile.ofBytes_eq_ok_iff.mpr reads] at read
  cases read
  obtain ⟨info, listed, resolved⟩ := exists_of_forall₂ resolves.methods member
  obtain ⟨split, access, named, described⟩ := Method.ofInfo_eq_ok_iff.mp resolved
  rw [held] at split
  obtain ⟨raw, first, decodedFrom⟩ := Method.exists_firstBody_of_splitBody split
  obtain ⟨decoded, tables, decodes⟩ := Body.ofAttribute_eq_ok_iff.mp decodedFrom
  have cleanMethod :
      Verify.checkMethod file.pool (StackMap.firstVersion ≤ file.major) info = [] := by
    rw [Verify.check, ClassFile.ofBytes_eq_ok_iff.mpr reads] at clean
    exact List.flatMap_eq_nil_iff.mp clean info listed
  obtain ⟨descriptor, type, insns, describedAgain, typed, decodedInsns, nonempty, insnsClean⟩ :=
    Verify.checkInsns_eq_nil_of_checkMethod first cleanMethod
  obtain rfl := Except.ok.inj (described.symm.trans describedAgain)
  have sameInsns : decoded.insns = insns :=
    Except.ok.inj ((Body.Decoded.decode_of_ofCode decodes.code).symm.trans decodedInsns)
  have regular := ClassFile.regular_of_reads reads
  have head := Verify.headFits_of_firstBody (regular.methods info listed) first
  obtain ⟨_, steps, last, bodyRegular⟩ :=
    ((ClassModel.regular_of_read found).methods method member).body body held
  refine ⟨info, raw, type, decoded, tables, listed, access, named, described, first, decodes, typed,
    ?_, bodyRegular.closed⟩
  rw [sameInsns, access]
  exact
    ⟨Insn.decode_eq_ok_iff.mp decodedInsns, Nat.lt_of_le_of_lt head.short (by decide), nonempty,
      insnsClean⟩

/-! ## Bodies that are written -/

/-- The frames of a body say of no object which instruction created it. -/
def CodeAttribute.IsSettled (raw : CodeAttribute Attribute) : Prop :=
  ∀ frames, .stackMapTable frames ∈ raw.attributes → ∀ frame ∈ frames, frame.IsSettled

instance (raw : CodeAttribute Attribute) : Decidable raw.IsSettled :=
  decidable_of_iff (∀ frame ∈ raw.allFrames, frame.IsSettled) <| by
    constructor
    · intro settled frames member frame listed
      exact settled frame (List.mem_flatMap_of_mem member listed)
    · intro settled frame member
      obtain ⟨attached, member, listed⟩ := List.mem_flatMap.mp member
      cases attached with
      | stackMapTable frames => exact settled frames member frame listed
      | _ => cases listed

namespace Method.ReadClean

variable
  {file : ClassFile} {info : MemberInfo} {raw : CodeAttribute Attribute} {type : MethodType}
  {decoded : Body.Decoded} {tables : Body.Tables} {method : Method} {body : Body}
  {context : WriteContext} {field : Member} {clock : Clock}
  (source : method.ReadClean file info raw type decoded tables body)
include source

theorem settled_rows (settled : raw.IsSettled) : ∀ row ∈ tables.frames, row.2.IsSettled := by
  intro row listed
  obtain ⟨_, _, frames, member, among⟩ :=
    (Body.Tables.reflects_of_ofAttributes source.decodes.tablesRead).frames row listed
  exact settled frames member row.2 among

/-- The arguments have their place among the local variables. -/
theorem arguments_le :
    type.argumentSize (Access.isStatic method.access) ≤ body.maxLocals.toNat := by
  rw [show body.maxLocals = raw.maxLocals from congrArg Body.maxLocals source.decodes.shape]
  exact (DepthProgress.fixpoint_of_checkInsns source.checked.nonempty source.checked.clean).1

theorem forMethod_eq :
    SlotAllocator.forMethod method.access method.descriptor body.maxLocals =
      .ok (.startingAt body.maxLocals.toNat) := by
  have arguments :=
    Nat.le_trans (type.toNat_argumentSlots_le (Access.isStatic method.access)) source.arguments_le
  simp only [SlotAllocator.forMethod, source.typed, bind, Except.bind, pure, Except.pure]
  rw [Nat.max_eq_left arguments]

/-- Assembling what a body was expanded to meets no unrelated classes if the analysis does not. -/
theorem sparedBehind_assemble
    {expansion : Expansion}
    {guards : List Handler}
    {output : Body}
    (sameVersion : context.major = file.major)
    (expands :
      output.needsFrames context = true →
        body.ExpandsTo expansion guards output ∧ ∀ row ∈ tables.frames, row.2.IsSettled)
    (spares :
      ∀ assembly : Assembly,
        assembly.toExpanded =
            ⟨context, method.access, method.name, method.descriptor, type, file.pool, raw, body,
              decoded, tables, expansion, guards, output⟩ →
          assembly.Sound →
            Spares (fun _ => True)
              (FrameAnalysis.ofCode assembly.method assembly.bytes assembly.ranges assembly.later
                assembly.rules)) :
    Writing.SparedBehind Writing.OtherThanClasses
      (output.assemble context method.access method.name method.descriptor) file.pool := by
  intro before leads
  refine Body.spared_assemble fun emits grown later laidOut code rows declared prepared => ?_
  obtain ⟨expandsTo, settled⟩ := expands emits
  have framed : decide (StackMap.firstVersion ≤ file.major) = true := by
    rw [← sameVersion]
    simp only [Body.needsFrames, Bool.and_eq_true] at emits
    exact emits.1.2
  have checked := source.checked
  rw [framed] at checked
  exact
    spares ⟨⟨context, method.access, method.name, method.descriptor, type, file.pool, raw, body,
        decoded, tables, expansion, guards, output⟩, before, grown, later, laidOut, code, rows,
        declared⟩ rfl
      ⟨source.typed, source.decodes, checked, expandsTo, settled, leads, prepared⟩

/-- A body that is written as it was read meets no unrelated classes. -/
theorem sparedBehind_self (sameVersion : context.major = file.major) :
    Writing.SparedBehind Writing.OtherThanClasses
      (body.assemble context method.access method.name method.descriptor) file.pool := by
  refine
    @sparedBehind_assemble _ _ _ _ _ _ _ _ _ source body.unexpanded [] body sameVersion
      (fun emits => ?_) ?_
  · simp only [Body.needsFrames, Bool.and_eq_true] at emits
    have unframed := emits.2
    refine ⟨Body.expandsTo_self source.closed unframed ?_, ?_⟩
    · rw [source.decodes.shape]
    · rw [source.decodes.shape, List.isEmpty_iff] at unframed
      rw [List.map_eq_nil_iff.mp unframed]
      intro placed member
      cases member
  · rintro ⟨_, start, grown, later, laidOut, code, rows, declared⟩ rfl sound
    exact sound.spares_ofCode_of_unexpanded rfl rfl

/-- A body that the time of a field is woven into meets no unrelated classes. -/
theorem sparedBehind_of_counting
    (detection : ExitDetection)
    (sameVersion : context.major = file.major)
    (settled : raw.IsSettled) :
    Writing.SparedBehind Writing.OtherThanClasses
      (((⟨Timer.fieldCounter field clock, detection, method.access, method.descriptor⟩ :
        Weaver Unit).wovenBody () body).assemble context method.access method.name
          method.descriptor) file.pool := by
  have quiet := Timer.quiet_fieldCounter field clock
  refine source.sparedBehind_assemble sameVersion
    (fun _ => ⟨Weaver.expandsTo_wovenBody (Timer.straight_fieldCounter field clock)
      (Timer.wellFormed_fieldCounter field clock) source.closed ?_, source.settled_rows settled⟩) ?_
  · have slots :=
      (Weaver.slots_enteredState ⟨Timer.fieldCounter field clock, detection, method.access,
        method.descriptor⟩ () source.forMethod_eq).1
    rw [slots]
    exact body.maxLocals.toNat_lt
  · rintro ⟨_, start, grown, later, laidOut, code, rows, declared⟩ rfl sound
    exact sound.spares_ofCode_of_quiet rfl rfl quiet

/-- A body that keeps the time meets no unrelated classes if constructors initialize new objects. -/
theorem sparedBehind_of_keeping
    (sameVersion : context.major = file.major)
    (settled : raw.IsSettled)
    (news :
      Body.ConstructsNew file.pool
        ⟨context.className, method.access, method.name, method.descriptor, raw.maxLocals⟩ raw)
    (passed :
      ((⟨Timer.localScoped field clock, .explicit, method.access, method.descriptor⟩ :
        Weaver (Option UInt16)).weave none body.events).failure = none) :
    Writing.SparedBehind Writing.OtherThanClasses
      (((⟨Timer.localScoped field clock, .explicit, method.access, method.descriptor⟩ :
        Weaver (Option UInt16)).wovenBody none body).assemble context method.access method.name
          method.descriptor) file.pool := by
  obtain ⟨_, first, _, allocator, _, small, entered⟩ := Weaver.exists_reserved_of_weave rfl passed
  refine source.sparedBehind_assemble sameVersion
    (fun _ => ⟨Weaver.expandsTo_wovenBody (Timer.straight_localScoped field clock)
      (Timer.wellFormed_localScoped field clock) source.closed ?_, source.settled_rows settled⟩) ?_
  · rw [(Weaver.slots_enteredState _ none allocator).1, entered]
    exact small
  · rintro ⟨_, start, grown, later, laidOut, code, rows, declared⟩ rfl sound
    obtain ⟨slot, keeping, _⟩ :=
      Weaver.exists_keeping_of_weave rfl rfl passed source.typed source.arguments_le
    rw [show body.maxLocals = raw.maxLocals from sound.maxLocals_eq] at keeping
    exact sound.spares_ofCode_of_keeping
      (Weaver.guarded_expansion fun guarded => nomatch guarded) keeping news

end Method.ReadClean

/-! ## Failures before a class is written -/

/-- The run fails because of two classes without a known common superclass. -/
def RunError.isOfClasses : RunError → Bool
  | .inconsistentFrame _ conflict => conflict.isOfClasses
  | _ => false

@[simp] theorem RunError.isOfClasses_ofRead (error : ReadError) :
    (RunError.ofRead error).isOfClasses = false := by
  cases error <;> rfl

@[simp] theorem RunError.isOfClasses_ofWrite (error : WriteError) :
    (RunError.ofWrite error).isOfClasses = error.isOfClasses := by
  cases error <;> rfl

/-- The run fails because of frames. -/
def RunError.isOfFrames : RunError → Bool
  | .inconsistentFrame _ _ => true
  | _ => false

theorem RunError.isOfClasses_of_isOfFrames
    {error : RunError}
    (unframed : error.isOfFrames = false) :
    error.isOfClasses = false := by
  cases error <;> first | rfl | cases unframed

/-- Nothing fails because of frames. -/
def Untroubled (failure : Option RunError) : Prop :=
  ∀ error, failure = some error → error.isOfFrames = false

theorem untroubled_none : Untroubled none := by
  intro error failed
  cases failed

theorem Untroubled.or
    {first second : Option RunError}
    (untroubled : Untroubled first)
    (later : Untroubled second) :
    Untroubled (first.or second) := by
  cases first with
  | none => exact later
  | some error => exact untroubled

/-- No snippet of the advice fails because of frames. -/
structure Advice.Untroubled
    {Memory : Type}
    (advice : Advice Memory) : Prop where
  enter : ∀ memory slots, JvmClass.Untroubled (advice.enter memory slots).1.failure
  exit : ∀ memory opcode, JvmClass.Untroubled (advice.exit memory opcode).failure

theorem Timer.untroubled_fieldCounter
    (field : Member)
    (clock : Clock) :
    (Timer.fieldCounter field clock).Untroubled :=
  ⟨fun _ _ => untroubled_none, fun _ _ => untroubled_none⟩

theorem Timer.untroubled_localScoped
    (field : Member)
    (clock : Clock) :
    (Timer.localScoped field clock).Untroubled := by
  constructor
  · intro memory slots error failed
    simp only [localScoped] at failed
    split at failed
    · cases failed
    · obtain rfl := Option.some.inj failed
      rfl
  · intro memory _
    cases memory <;> exact untroubled_none

namespace Weaver

variable {Memory : Type} {weaver : Weaver Memory} {state : WeaveState Memory}

/-- One part of a body brings no failure because of frames. -/
theorem untroubled_step
    (advised : weaver.advice.Untroubled)
    (untroubled : Untroubled state.failure)
    (event : BodyEvent) :
    Untroubled (weaver.step state event).1.failure := by
  have entered (state : WeaveState Memory) (untroubled : Untroubled state.failure) :
      Untroubled (weaver.ensureEntered state).1.failure := by
    have noted := untroubled.or (advised.enter state.memory state.slots)
    unfold ensureEntered
    split
    · exact untroubled
    · unfold enter
      cases weaver.detection <;> exact noted
  cases event with
  | code maxStack maxLocals freeLabel =>
      simp only [step, begin]
      split
      · exact untroubled
      · refine untroubled.or fun error failed => ?_
        obtain rfl := Option.some.inj failed
        rfl
  | handler _ | localVariable _ | frame _ | codeAttribute _ | hints _ => exact untroubled
  | node node =>
      simp only [step, passNode]
      cases node with
      | label _ | line _ _ => exact entered state untroubled
      | insn insn =>
          have touched : Untroubled (slotFailure (weaver.ensureEntered state).1 insn) := by
            intro error failed
            unfold slotFailure at failed
            split at failed
            · cases failed
            · split at failed
              · cases failed
              · obtain rfl := Option.some.inj failed
                rfl
          have checked := (entered state untroubled).or touched
          dsimp only
          split
          · exact checked.or (advised.exit _ _)
          · exact checked
  | maxima maxStack maxLocals =>
      have closed : Untroubled (weaver.closeGuard (weaver.ensureEntered state).1).1.failure := by
        unfold closeGuard
        split
        · exact entered state untroubled
        · exact (entered state untroubled).or (advised.exit _ _)
      simp only [step, finish, passFrames]
      split <;> exact closed

/-- Weaving advice into a body does not fail because of frames. -/
theorem untroubled_weave
    (advised : weaver.advice.Untroubled)
    (memory : Memory)
    (events : List BodyEvent) :
    Untroubled (weaver.weave memory events).failure := by
  have run (state : WeaveState Memory) (untroubled : Untroubled state.failure) :
      Untroubled (weaver.steps state events).1.failure := by
    induction events generalizing state with
    | nil => exact untroubled
    | cons event events inductionHypothesis =>
        exact inductionHypothesis _ (untroubled_step advised untroubled event)
  rw [weave, weaveFrom_eq_steps]
  exact run _ untroubled_none

end Weaver

/-- Whatever the strategy, weaving does not fail because of frames. -/
theorem Timer.untroubled_weaveBody
    (config : TimerConfig)
    (className : String)
    (header : MethodHeader)
    (events : List BodyEvent) :
    Untroubled (weaveBody config className header events).failure := by
  unfold weaveBody
  cases config.strategy with
  | fieldCounter | structuredAdvice =>
      have advised := untroubled_fieldCounter (counterField config className) config.clock
      exact Weaver.untroubled_weave advised () events
  | localScoped =>
      have advised := untroubled_localScoped (counterField config className) config.clock
      exact Weaver.untroubled_weave advised none events

/-- Timing a class in memory does not fail because of frames. -/
theorem Instrument.untroubled_of_timed
    {config : TimerConfig}
    {input : ClassModel}
    {error : RunError}
    (failed : timed config input = .error error) :
    error.isOfFrames = false := by
  unfold timed at failed
  simp only at failed
  split at failed
  · rename_i cause found
    obtain rfl := Except.error.inj failed
    obtain ⟨part, member, failed⟩ := List.exists_of_findSome?_eq_some found
    obtain ⟨event, _, rfl⟩ := List.mem_map.mp member
    unfold Timer.timePart at failed
    split at failed
    · cases failed
    · split at failed
      · exact Timer.untroubled_weaveBody _ _ _ _ _ failed
      · cases failed
    · cases failed
  · cases failed

/-! ## Timed classes -/

/-- The finding is about two classes without a known common superclass. -/
def Finding.isOfClasses : Finding → Bool
  | .inconsistentFrame conflict => conflict.isOfClasses
  | _ => false

namespace Instrument

variable {config : TimerConfig} {file : ClassFile} {bytes : Bytes} {input output : ClassModel}
  {outcome : Timer.Outcome}

/-- The body of a method that is to be timed. -/
structure TargetBody
    (config : TimerConfig)
    (file : ClassFile)
    (info : MemberInfo)
    (raw : CodeAttribute Attribute) : Prop where
  member : info ∈ file.methods
  named : file.pool.text info.name = .ok config.methodName
  described : file.pool.text info.descriptor = .ok config.methodDescriptor
  first : Verify.firstBody? info.attributes = some raw

/--
What the frames of the methods that are to be timed have to say: never where an object
was created, and, if the time is kept in a local variable, that constructors are called on
new objects.
-/
structure FramesSuffice
    (config : TimerConfig)
    (file : ClassFile) : Prop where
  settled : ∀ info raw, TargetBody config file info raw → raw.IsSettled
  news :
    config.strategy = .localScoped →
      ∀ name info raw,
        file.pool.className file.thisClass = .ok name →
          TargetBody config file info raw →
            Body.ConstructsNew file.pool
              ⟨config.newName.getD name, info.access, config.methodName, config.methodDescriptor,
                raw.maxLocals⟩ raw

/-- Whether the frames suffice, computed for every constructor call, on a path or not. -/
def framesSuffice (config : TimerConfig) (file : ClassFile) : Bool :=
  file.methods.all fun info =>
    match Verify.firstBody? info.attributes with
    | none => true
    | some raw =>
        decide raw.IsSettled &&
          (file.pool.className file.thisClass).toOption.all fun name =>
            Body.constructsNew file.pool
              ⟨config.newName.getD name, info.access, config.methodName, config.methodDescriptor,
                raw.maxLocals⟩ raw

theorem framesSuffice_of_eq_true (holds : framesSuffice config file = true) :
    FramesSuffice config file := by
  have each (info : MemberInfo) (raw : CodeAttribute Attribute)
      (wanted : TargetBody config file info raw) :=
    List.all_eq_true.mp holds info wanted.member
  constructor
  · intro info raw wanted
    have here := each info raw wanted
    simp only [wanted.first, Bool.and_eq_true, decide_eq_true_eq] at here
    exact here.1
  · intro _ name info raw named wanted
    have here := each info raw wanted
    simp only [wanted.first, named, Except.toOption, Option.all_some, Bool.and_eq_true] at here
    exact Body.constructsNew_of_eq_true here.2

/-- Assembling the methods of a timed class meets no unrelated classes. -/
theorem sparesBody_of_timed
    {options : WriteOptions}
    {known : Hierarchy}
    {method : Method}
    (read : ClassFile.ofBytes bytes = .ok file)
    (found : ClassModel.read bytes = .ok input)
    (clean : Verify.check bytes = [])
    (suffice : FramesSuffice config file)
    (timed : timed config input = .ok (output, outcome))
    (member : method ∈ output.methods) :
    method.SparesBody Writing.OtherThanClasses (output.writeContext options known) output.pool := by
  have passed {method : Method} {body : Body} (member : method ∈ input.methods)
      (held : method.body = some body)
      (target : config.isTarget method.name method.descriptor = true) :=
    failure_of_timed timed member held target
  obtain ⟨_, other, reads, resolves⟩ := ClassModel.read_eq_ok_iff.mp found
  obtain rfl := Except.ok.inj ((ClassFile.ofBytes_eq_ok_iff.mpr reads).symm.trans read)
  have shape := shape_of_timed timed
  have samePool : output.pool = other.pool := by
    rw [shape]
    exact resolves.pool
  have sameVersion : (output.writeContext options known).major = other.major := by
    rw [shape]
    exact resolves.major
  have sameName :
      (output.writeContext options known).className = config.newName.getD input.name := by
    rw [shape]
    rfl
  rw [show output.methods = _ from congrArg ClassModel.methods shape] at member
  obtain ⟨method, listed, rfl⟩ := List.mem_map.mp member
  rw [samePool]
  generalize output.writeContext options known = context at sameVersion sameName ⊢
  intro woven assembled
  by_cases target : config.isTarget method.name method.descriptor = true
  · cases held : method.body with
    | none =>
        have kept := @Timer.locals_timedMethod config method (by simp [held])
          (config.newName.getD input.name)
        simp [assembled, held] at kept
    | some body =>
        obtain ⟨info, raw, type, decoded, tables, source⟩ :=
          Method.exists_readClean read found clean listed held
        have nonempty :=
          ((ClassModel.regular_of_read found).nonempty_closed listed held).1
        have named : method.name = config.methodName ∧ method.descriptor = config.methodDescriptor := by
          simpa [TimerConfig.isTarget] using target
        have wanted : TargetBody config other info raw :=
          ⟨source.member, named.1 ▸ source.named, named.2 ▸ source.described, source.first⟩
        have settled := suffice.settled info raw wanted
        have passedHere := passed listed held target
        simp only [Timer.timedMethod, Timer.timedEvents, target, if_true, Timer.bodyEvents, held,
          Option.map_some, Option.getD_some] at assembled
        cases strategy : config.strategy with
        | fieldCounter =>
            simp only [Timer.weaveBody, strategy] at assembled
            rw [Weaver.ofEvents?_weave _ _ _ nonempty] at assembled
            obtain rfl := Option.some.inj assembled
            exact source.sparedBehind_of_counting .explicit sameVersion settled
        | structuredAdvice =>
            simp only [Timer.weaveBody, strategy] at assembled
            rw [Weaver.ofEvents?_weave _ _ _ nonempty] at assembled
            obtain rfl := Option.some.inj assembled
            exact source.sparedBehind_of_counting .guarded sameVersion settled
        | localScoped =>
            simp only [Timer.weaveBody, strategy] at assembled passedHere
            rw [Weaver.ofEvents?_weave _ _ _ nonempty] at assembled
            obtain rfl := Option.some.inj assembled
            have news := suffice.news strategy _ info raw resolves.name wanted
            rw [← source.access, ← named.1, ← named.2, ← sameName] at news
            exact source.sparedBehind_of_keeping sameVersion settled news passedHere
  · rw [Timer.timedMethod_of_not_target config (Bool.eq_false_iff.mpr target)] at assembled ⊢
    obtain ⟨_, _, _, _, _, source⟩ := Method.exists_readClean read found clean listed assembled
    exact source.sparedBehind_self sameVersion

/-- Writing a timed class in any way meets no unrelated classes. -/
theorem spares_writeWith_of_timed
    (read : ClassFile.ofBytes bytes = .ok file)
    (found : ClassModel.read bytes = .ok input)
    (clean : Verify.check bytes = [])
    (suffice : FramesSuffice config file)
    (timed : timed config input = .ok (output, outcome))
    (options : WriteOptions)
    (known : Hierarchy) :
    Spares (fun _ => True) (output.writeWith options known) :=
  ClassModel.spares_writeWith fun _ member =>
    sparesBody_of_timed read found clean suffice timed member

/-- Whether conflicts are reported or not, writing a timed class meets no unrelated classes. -/
theorem spares_write_of_timed
    (read : ClassFile.ofBytes bytes = .ok file)
    (found : ClassModel.read bytes = .ok input)
    (clean : Verify.check bytes = [])
    (suffice : FramesSuffice config file)
    (timed : timed config input = .ok (output, outcome))
    (known : Hierarchy) :
    Spares (fun result => ∀ defect ∈ result.2, defect.finding.isOfClasses = false)
      (write config known output) := by
  have computed :=
    spares_writeWith_of_timed read found clean suffice timed computeAll known
  unfold write
  split
  · intro defect member
    cases member
  · rename_i offset conflict failed
    rw [failed] at computed
    split
    · refine (spares_writeWith_of_timed read found clean suffice timed computeNothing []).bind
        fun bytes _ => ?_
      intro defect member
      rw [List.mem_singleton.mp member]
      exact computed
    · exact computed
  · rename_i error _ failed
    rw [failed] at computed
    exact computed

/--
The frames of a class that a check found nothing wrong with are enough to time its
methods again: whatever is known of superclasses, no two classes are met that have no
known common one.
-/
theorem spares_of_declared
    (read : ClassFile.ofBytes bytes = .ok file)
    (clean : Verify.check bytes = [])
    (suffice : FramesSuffice config file) :
    (∀ error, instrument bytes config = .error error → error.isOfClasses = false) ∧
      ∀ input output outcome known,
        ClassModel.read bytes = .ok input →
          timed config input = .ok (output, outcome) →
            Spares (fun result => ∀ defect ∈ result.2, defect.finding.isOfClasses = false)
              (write config known output) := by
  have spares (input output : ClassModel) (outcome : Timer.Outcome) (known : Hierarchy)
      (found : ClassModel.read bytes = .ok input)
      (timed : timed config input = .ok (output, outcome)) :=
    spares_write_of_timed read found clean suffice timed known
  refine ⟨fun error failed => ?_, spares⟩
  rcases bind_eq_error_iff.mp failed with invalid | ⟨_, _, failed⟩
  · obtain ⟨_, _, rfl⟩ := mapError_eq_error_iff.mp invalid
    rfl
  rcases bind_eq_error_iff.mp failed with unreadable | ⟨input, found, failed⟩
  · obtain ⟨cause, _, rfl⟩ := mapError_eq_error_iff.mp unreadable
    exact RunError.isOfClasses_ofRead cause
  rcases bind_eq_error_iff.mp failed with untimed | ⟨⟨output, outcome⟩, timed, failed⟩
  · exact RunError.isOfClasses_of_isOfFrames (untroubled_of_timed untimed)
  rcases bind_eq_error_iff.mp failed with unwritten | ⟨_, _, failed⟩
  · obtain ⟨cause, stopped, rfl⟩ := mapError_eq_error_iff.mp unwritten
    have spared :=
      spares input output outcome (hierarchy config input) (mapError_eq_ok_iff.mp found) timed
    rw [stopped] at spared
    exact (RunError.isOfClasses_ofWrite cause).trans spared
  · cases failed

/-- A local variable keeps the time of a method that takes an `int`. -/
def keepsTime : TimerConfig :=
  { methodDescriptor := "(I)V", strategy := .localScoped }

/--
A class file with one method, which puts a new object of one of two classes on the
stack and drops it.  Where both ways meet, a frame says that it is an object.
-/
def siblings : Bytes :=
  [ 0xCA, 0xFE, 0xBA, 0xBE, 0x00, 0x00, 0x00, 0x34, 0x00, 0x12, 0x01, 0x00, 0x01, 0x41, 0x07, 0x00,
    0x01, 0x01, 0x00, 0x10, 0x6A, 0x61, 0x76, 0x61, 0x2F, 0x6C, 0x61, 0x6E, 0x67, 0x2F, 0x4F, 0x62,
    0x6A, 0x65, 0x63, 0x74, 0x07, 0x00, 0x03, 0x01, 0x00, 0x04, 0x43, 0x6F, 0x64, 0x65, 0x01, 0x00,
    0x0D, 0x53, 0x74, 0x61, 0x63, 0x6B, 0x4D, 0x61, 0x70, 0x54, 0x61, 0x62, 0x6C, 0x65, 0x01, 0x00,
    0x01, 0x6D, 0x01, 0x00, 0x04, 0x28, 0x49, 0x29, 0x56, 0x01, 0x00, 0x06, 0x3C, 0x69, 0x6E, 0x69,
    0x74, 0x3E, 0x01, 0x00, 0x03, 0x28, 0x29, 0x56, 0x0C, 0x00, 0x09, 0x00, 0x0A, 0x01, 0x00, 0x01,
    0x42, 0x07, 0x00, 0x0C, 0x01, 0x00, 0x01, 0x43, 0x07, 0x00, 0x0E, 0x0A, 0x00, 0x0D, 0x00, 0x0B,
    0x0A, 0x00, 0x0F, 0x00, 0x0B, 0x00, 0x21, 0x00, 0x02, 0x00, 0x04, 0x00, 0x00, 0x00, 0x00, 0x00,
    0x01, 0x00, 0x09, 0x00, 0x07, 0x00, 0x08, 0x00, 0x01, 0x00, 0x05, 0x00, 0x00, 0x00, 0x30, 0x00,
    0x02, 0x00, 0x01, 0x00, 0x00, 0x00, 0x17, 0x1A, 0x99, 0x00, 0x0D, 0xBB, 0x00, 0x0D, 0x59, 0xB7,
    0x00, 0x10, 0xA7, 0x00, 0x0A, 0xBB, 0x00, 0x0F, 0x59, 0xB7, 0x00, 0x11, 0x57, 0xB1, 0x00, 0x00,
    0x00, 0x01, 0x00, 0x06, 0x00, 0x00, 0x00, 0x07, 0x00, 0x02, 0x0E, 0x46, 0x07, 0x00, 0x04, 0x00,
    0x00 ]

/-- Nothing has to be known about either class. -/
theorem spares_of_siblings :
    ∃ file info raw,
      ClassFile.ofBytes siblings = .ok file ∧
        Verify.check siblings = [] ∧
          TargetBody keepsTime file info raw ∧
            FramesSuffice keepsTime file ∧
              (∀ error, instrument siblings keepsTime = .error error → error.isOfClasses = false) ∧
                ∀ input output outcome known,
                  ClassModel.read siblings = .ok input →
                    timed keepsTime input = .ok (output, outcome) →
                      Spares (fun result => ∀ defect ∈ result.2, defect.finding.isOfClasses = false)
                        (write keepsTime known output) := by
  have clean : Verify.check siblings = [] := by decide +kernel
  have evaluated :
      (ClassFile.ofBytes siblings).toOption.map (fun file =>
          (file.methods.map fun info =>
            ((file.pool.text info.name).toOption, (file.pool.text info.descriptor).toOption,
              (Verify.firstBody? info.attributes).isSome),
            framesSuffice keepsTime file)) =
        some ([(some "m", some "(I)V", true)], true) := by
    decide +kernel
  cases read : ClassFile.ofBytes siblings with
  | error => simp [read, Except.toOption] at evaluated
  | ok file =>
      rw [read] at evaluated
      simp only [Except.toOption, Option.map_some, Option.some.injEq, Prod.mk.injEq,
        List.map_eq_singleton_iff] at evaluated
      obtain ⟨⟨info, methods, named, described, first⟩, computed⟩ := evaluated
      obtain ⟨raw, first⟩ := Option.isSome_iff_exists.mp first
      have suffice := framesSuffice_of_eq_true computed
      exact ⟨file, info, raw, rfl, clean,
        ⟨by simp [methods], toOption_eq_some_iff.mp named, toOption_eq_some_iff.mp described, first⟩,
        suffice, spares_of_declared read clean suffice⟩

/--
A class file with one method, which calls a constructor on a `long` on each of two ways.
Where they meet, a frame says that there is nothing on the stack.
-/
def mistaken : Bytes :=
  [ 0xCA, 0xFE, 0xBA, 0xBE, 0x00, 0x00, 0x00, 0x34, 0x00, 0x12, 0x01, 0x00, 0x01, 0x41, 0x07, 0x00,
    0x01, 0x01, 0x00, 0x10, 0x6A, 0x61, 0x76, 0x61, 0x2F, 0x6C, 0x61, 0x6E, 0x67, 0x2F, 0x4F, 0x62,
    0x6A, 0x65, 0x63, 0x74, 0x07, 0x00, 0x03, 0x01, 0x00, 0x04, 0x43, 0x6F, 0x64, 0x65, 0x01, 0x00,
    0x0D, 0x53, 0x74, 0x61, 0x63, 0x6B, 0x4D, 0x61, 0x70, 0x54, 0x61, 0x62, 0x6C, 0x65, 0x01, 0x00,
    0x01, 0x6D, 0x01, 0x00, 0x04, 0x28, 0x49, 0x29, 0x56, 0x01, 0x00, 0x06, 0x3C, 0x69, 0x6E, 0x69,
    0x74, 0x3E, 0x01, 0x00, 0x03, 0x28, 0x29, 0x56, 0x0C, 0x00, 0x09, 0x00, 0x0A, 0x01, 0x00, 0x01,
    0x42, 0x07, 0x00, 0x0C, 0x01, 0x00, 0x01, 0x43, 0x07, 0x00, 0x0E, 0x0A, 0x00, 0x0D, 0x00, 0x0B,
    0x0A, 0x00, 0x0F, 0x00, 0x0B, 0x00, 0x21, 0x00, 0x02, 0x00, 0x04, 0x00, 0x00, 0x00, 0x00, 0x00,
    0x01, 0x00, 0x09, 0x00, 0x07, 0x00, 0x08, 0x00, 0x01, 0x00, 0x05, 0x00, 0x00, 0x00, 0x26, 0x00,
    0x02, 0x00, 0x01, 0x00, 0x00, 0x00, 0x10, 0x1A, 0x99, 0x00, 0x0A, 0x09, 0xB7, 0x00, 0x10, 0xA7,
    0x00, 0x07, 0x09, 0xB7, 0x00, 0x11, 0xB1, 0x00, 0x00, 0x00, 0x01, 0x00, 0x06, 0x00, 0x00, 0x00,
    0x04, 0x00, 0x02, 0x0B, 0x03, 0x00, 0x00 ]

/-- The constructors give the time that is kept two unrelated classes. -/
theorem exists_conflict_of_mistaken :
    ∃ file,
      ClassFile.ofBytes mistaken = .ok file ∧
        Verify.check mistaken = [] ∧
          (∀ info raw, TargetBody keepsTime file info raw → raw.IsSettled) ∧
            instrument mistaken keepsTime = .error (.inconsistentFrame 23 (.unmergedLocal 1)) := by
  have clean : Verify.check mistaken = [] := by decide +kernel
  have evaluated :
      (ClassFile.ofBytes mistaken).toOption.map (fun file =>
          file.methods.all fun info =>
            (Verify.firstBody? info.attributes).all fun raw => decide raw.IsSettled) =
        some true := by
    decide +kernel
  have failed :
      (match instrument mistaken keepsTime with
        | .ok _ => none
        | .error error => some error) =
        some (.inconsistentFrame 23 (.unmergedLocal 1)) := by
    decide +kernel
  cases read : ClassFile.ofBytes mistaken with
  | error => simp [read, Except.toOption] at evaluated
  | ok file =>
      rw [read] at evaluated
      simp only [Except.toOption, Option.map_some, Option.some.injEq] at evaluated
      refine ⟨file, rfl, clean, fun info raw wanted => ?_, ?_⟩
      · have here := List.all_eq_true.mp evaluated info wanted.member
        rw [wanted.first] at here
        simpa using here
      · cases run : instrument mistaken keepsTime with
        | ok => simp [run] at failed
        | error error =>
            rw [run] at failed
            exact congrArg Except.error (Option.some.inj failed)

end Instrument
end JvmClass
