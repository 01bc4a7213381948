import JvmClass.Proofs.ClassModel.Encoded
import JvmClass.Proofs.Instrument.Conflicts
import JvmClass.Proofs.Instrument.Slots
import JvmClass.Proofs.Weave.Copied
import JvmClass.Proofs.Weave.Timed

namespace JvmClass

/-!
# Timed classes that are written as they are

A timed class can be written without computing anything, and read again.  If nothing
was wrong with the class, then with the methods that were not timed nothing is, and
those that were timed lack frames at most: the sizes that are declared are enough.
-/

/-! ## Bodies that can be written -/

/-- A body has three tables at most. -/
theorem Body.tableCount_le (body : Body) : body.tableCount ≤ 3 := by
  have one {α : Type} (rows : List α) : (if rows.isEmpty then 0 else 1) ≤ 1 := by
    split <;> decide
  exact Nat.add_le_add (Nat.add_le_add (one _) (one _)) (one _)

/-- A body that can be written still can once straight advice is woven into it. -/
theorem Weaver.writable_wovenBody
    {Memory : Type}
    {weaver : Weaver Memory}
    (memory : Memory)
    {pool : Pool}
    {body : Body}
    (straight : weaver.advice.Straight)
    (writable : body.Writable pool)
    (fewHandlers : (weaver.wovenBody memory body).handlers.length < 2 ^ 16) :
    (weaver.wovenBody memory body).Writable pool where
  nonempty := by
    obtain ⟨insn, member⟩ := List.exists_mem_of_ne_nil _ writable.nonempty
    rw [nodes_wovenBody memory body straight]
    exact List.ne_nil_of_mem
      (Expansion.mem_insns_tagged (regular_expansion memory body straight) member)
  fewLines := by
    rw [lineMarks_wovenBody memory straight]
    exact writable.fewLines
  fewLocals := writable.fewLocals
  fewHandlers
  fewAttributes := Nat.lt_of_le_of_lt (Body.tableCount_le _) (by decide)
  anchored := nofun
  shaped := nofun
  attributes := nofun
  linesKnown := by
    rw [lineMarks_wovenBody memory straight]
    exact writable.linesKnown
  localsKnown := writable.localsKnown
  framesKnown := absurd rfl

namespace Timer

variable {config : TimerConfig} {method : Method} {body woven : Body} {className : String}

/-- The body of a method that was timed is woven of straight advice. -/
theorem exists_wovenBody
    (target : config.isTarget method.name method.descriptor = true)
    (held : method.body = some body)
    (nonempty : body.nodes.isEmpty = false)
    (timed : (timedMethod config className method).body = some woven) :
    ∃ (Memory : Type) (weaver : Weaver Memory) (memory : Memory),
      weaver.advice.Straight ∧ weaver.advice.WellFormed ∧ woven = weaver.wovenBody memory body := by
  simp only [timedMethod, timedEvents, target, if_true, bodyEvents, held, Option.map_some,
    Option.getD_some, weaveBody] at timed
  split at timed
  all_goals
    rw [Weaver.ofEvents?_weave _ _ _ nonempty] at timed
    obtain rfl := Option.some.inj timed
  · exact ⟨_, _, _, straight_fieldCounter _ _, wellFormed_fieldCounter _ _, rfl⟩
  · exact ⟨_, _, _, straight_localScoped _ _, wellFormed_localScoped _ _, rfl⟩
  · exact ⟨_, _, _, straight_fieldCounter _ _, wellFormed_fieldCounter _ _, rfl⟩

/-- A method has a body if it has one once it was timed. -/
theorem exists_body_of_timedMethod
    (nonempty : ∀ body, method.body = some body → body.nodes.isEmpty = false)
    (timed : (timedMethod config className method).body = some woven) :
    ∃ body, method.body = some body := by
  have kept := locals_timedMethod config nonempty className
  cases held : method.body with
  | none => simp [timed, held] at kept
  | some body => exact ⟨body, rfl⟩

/-- A method can be written once it was timed, and takes no more bytes than it did. -/
theorem encodable_timedMethod
    {pool : Pool}
    (regular : method.Regular pool)
    (nonempty : ∀ body, method.body = some body → body.nodes.isEmpty = false)
    (few :
      ∀ body ∈ method.body,
        (LaidOut.lineMarks body.nodes).length < 2 ^ 16 ∧ body.locals.length < 2 ^ 16)
    (fewHandlers :
      ∀ woven ∈ (timedMethod config className method).body, woven.handlers.length < 2 ^ 16) :
    (timedMethod config className method).Encodable pool ∧
      (timedMethod config className method).looseSize ≤ method.looseSize := by
  have ready (body : Body) (held : method.body = some body) :
      pool.Knows (.utf8 "Code") ∧ Node.Closed body.nodes ∧ body.Writable pool := by
    obtain ⟨known, steps, last, bodyRegular⟩ := regular.body body held
    obtain ⟨fewLines, fewLocals⟩ := few body held
    exact ⟨known, bodyRegular.closed, bodyRegular.writable fewLines fewLocals⟩
  by_cases target : config.isTarget method.name method.descriptor = true
  · have woven (output : Body) (timed : (timedMethod config className method).body = some output) :
        (pool.Knows (.utf8 "Code") ∧ Node.Closed output.nodes ∧ output.Writable pool) ∧
          output.looseSize = 0 := by
      obtain ⟨body, held⟩ := exists_body_of_timedMethod nonempty timed
      obtain ⟨known, closed, writable⟩ := ready body held
      obtain ⟨_, weaver, memory, straight, wellFormed, rfl⟩ :=
        exists_wovenBody target held (nonempty body held) timed
      exact ⟨⟨known, Weaver.closed_wovenBody memory straight wellFormed closed,
        Weaver.writable_wovenBody memory straight writable (fewHandlers _ timed)⟩, rfl⟩
    refine ⟨⟨?_, regular.fits, fun output timed => (woven output timed).1⟩, ?_⟩
    · rw [length_body_timedMethod config nonempty]
      exact regular.short
    · cases timed : (timedMethod config className method).body with
      | none => simp [Method.looseSize, timed]
      | some output => simp [Method.looseSize, timed, (woven output timed).2]
  · rw [timedMethod_of_not_target config (Bool.eq_false_iff.mpr target)]
    exact ⟨⟨regular.short, regular.fits, ready⟩, Nat.le_refl _⟩

end Timer

namespace Instrument

variable
  {config : TimerConfig} {bytes : Bytes} {input output : ClassModel} {outcome : Timer.Outcome}

/-- The lines and the local variables of each body can be counted. -/
def FewEntries (model : ClassModel) : Prop :=
  ∀ method ∈ model.methods, ∀ body ∈ method.body,
    (LaidOut.lineMarks body.nodes).length < 2 ^ 16 ∧ body.locals.length < 2 ^ 16

instance : DecidablePred FewEntries :=
  fun model => inferInstanceAs (Decidable (∀ method ∈ model.methods, ∀ body ∈ method.body, _ ∧ _))

/-- The fields, and the handlers of each body, can be counted. -/
def Countable (model : ClassModel) : Prop :=
  model.fields.length < 2 ^ 16 ∧
    ∀ method ∈ model.methods, ∀ body ∈ method.body, body.handlers.length < 2 ^ 16

instance : DecidablePred Countable :=
  fun _ => inferInstanceAs (Decidable (_ ∧ _))

/-- A class that was timed can be written if what can have become more can be counted. -/
theorem encodable_of_timed
    (found : ClassModel.read bytes = .ok input)
    (few : FewEntries input)
    (timed : timed config input = .ok (output, outcome))
    (countable : Countable output) :
    output.Encodable := by
  have regular := ClassModel.regular_of_read found
  have light := ClassModel.light_of_read found
  have settled := settled_of_timed_read found timed
  obtain rfl := shape_of_timed timed
  have each (method : Method) (member : method ∈ input.methods) :=
    @Timer.encodable_timedMethod config method (config.newName.getD input.name) input.pool
      (regular.methods method member)
      (fun _ held => (regular.nonempty_closed member held).1)
      (few method member)
      (countable.2 _ (List.mem_map_of_mem member))
  constructor
  case sound => exact settled.sound
  case old => exact regular.old
  case new => exact regular.new
  case interfacesShort => exact regular.interfacesShort
  case fieldsShort => exact countable.1
  case methodsShort =>
    rw [List.length_map]
    exact regular.methodsShort
  case fields => exact settled.fits
  case attributes => exact regular.attributes
  case methods => exact List.forall_mem_map.mpr fun method member => (each method member).1
  case light =>
    refine ⟨fun field member => ?_, List.forall_mem_map.mpr fun method member => ?_,
      light.attributes⟩
    · rcases List.mem_append.mp member with own | new
      · exact light.fields field own
      · split at new
        · cases new
        · rw [List.mem_singleton.mp new]
          exact Nat.zero_le _
    · exact Nat.le_trans (Nat.add_le_add_right (each method member).2 _)
        (light.methods method member)

end Instrument

/-! ## Checked bodies that are written -/

/-- What is left to a body of the stack that is declared once advice is woven into it. -/
def Weaver.stackLeft (maxStack : UInt16) : UInt16 :=
  UInt16.ofNat (min (2 ^ 16 - 1 - adviceStack) (max 1 maxStack.toNat))

theorem Weaver.toNat_stackLeft (maxStack : UInt16) :
    (stackLeft maxStack).toNat = min (2 ^ 16 - 1 - adviceStack) (max 1 maxStack.toNat) :=
  UInt16.toNat_ofNat_of_lt' (Nat.lt_of_le_of_lt (Nat.min_le_left _ _) (by decide))

theorem Weaver.one_le_stackLeft (maxStack : UInt16) : 1 ≤ (stackLeft maxStack).toNat := by
  rw [toNat_stackLeft]
  exact Nat.le_min.mpr ⟨by decide, Nat.le_max_left _ _⟩

/-- A woven body declares two longs more than what is left to the body. -/
theorem Weaver.maxStack_wovenBody
    {Memory : Type}
    {weaver : Weaver Memory}
    (memory : Memory)
    (body : Body) :
    (weaver.wovenBody memory body).maxStack.toNat =
      (stackLeft body.maxStack).toNat + adviceStack := by
  show (UInt16.ofNat (min (2 ^ 16 - 1) (max 1 body.maxStack.toNat + adviceStack))).toNat = _
  rw [toNat_stackLeft,
    UInt16.toNat_ofNat_of_lt' (Nat.lt_of_le_of_lt (Nat.min_le_left _ _) (by decide)), adviceStack]
  omega

namespace Body

variable {body : Body} {maxStack : UInt16}

/-- A body is read in the same way whatever its stack is said to hold. -/
theorem DecodesTo.limited
    {pool : Pool}
    {raw : CodeAttribute Attribute}
    {decoded : Decoded}
    {tables : Tables}
    (decodes : DecodesTo pool raw body decoded tables) :
    DecodesTo pool { raw with maxStack } { body with maxStack } decoded tables where
  code := decodes.code
  insns := decodes.insns
  handlers := decodes.handlers
  tablesRead := decodes.tablesRead
  handlersOf := decodes.handlersOf
  localsOf := decodes.localsOf
  shape := congrArg (fun body : Body => { body with maxStack }) decodes.shape

/-- A body is expanded in the same way whatever its stack is said to hold. -/
theorem Expands.limited
    {expansion : Expansion}
    {guards : List Handler}
    {output : Body}
    (expands : body.Expands expansion guards output) :
    Expands { body with maxStack } expansion guards output :=
  ⟨expands.regular, expands.expands, expands.nodes, expands.handlers, expands.room, expands.closed⟩

end Body

namespace Method.ReadClean

variable
  {file : ClassFile} {info : MemberInfo} {raw written : CodeAttribute Attribute}
  {type : MethodType} {decoded : Body.Decoded} {tables : Body.Tables} {method : Method}
  {body : Body} {last again : Pool} {field : Member} {clock : Clock} {maxStack : UInt16}
  {report : Option UInt16 × Finding}
  (source : method.ReadClean file info raw type decoded tables body)
  (sound : file.pool.Sound)
  (small : last.size ≤ 2 ^ 16)
  (same : again.entries = last.entries)
include source

theorem maxStack_eq : body.maxStack = raw.maxStack :=
  congrArg Body.maxStack source.decodes.shape

theorem maxLocals_eq : body.maxLocals = raw.maxLocals :=
  congrArg Body.maxLocals source.decodes.shape

include sound small same

/-- A checked body that is expanded and written on the way between two pools is an emission. -/
theorem exists_emission
    {expansion : Expansion}
    {guards : List Handler}
    {output : Body}
    (clean :
      Verify.checkInsns file.pool (Access.isStatic method.access) type { raw with maxStack }
        (StackMap.firstVersion ≤ file.major) decoded.insns = [])
    (expands : body.Expands expansion guards output)
    (encodes : EncodesBody file.pool last output written) :
    ∃ start grown after labels rows offsets,
      Emission.Sound
        ⟨method.access, type, StackMap.firstVersion ≤ file.major, file.pool, { raw with maxStack },
          { body with maxStack }, decoded, tables, expansion, guards, output, start, grown, after,
          again, labels, rows, offsets, written⟩ := by
  obtain ⟨start, grown, after, labels, rows, offsets, reached, assembled, leads⟩ := encodes
  have afterSmall := Nat.le_trans leads.kept.size_le small
  have fromStart := assembled.laid.trans assembled.leads
  have grows := reached.grows sound (Nat.le_trans fromStart.kept.size_le afterSmall)
  refine ⟨start, grown, after, labels, rows, offsets, source.decodes.limited,
    ⟨source.checked.decodes, source.checked.short, source.checked.nonempty, clean⟩,
    expands.limited, assembled, reached, grows.sound.coherent, afterSmall, ?_⟩
  show Entry.Extends after.entries again.entries
  rw [same]
  exact leads.kept

/-- Nothing is wrong with a checked body that is written as it was read. -/
theorem checkBody_eq_nil
    (encodes : EncodesBody file.pool last body written) :
    Verify.checkBody again method.access method.descriptor written
      (StackMap.firstVersion ≤ file.major) = [] := by
  obtain ⟨_, _, _, _, _, _, emitted⟩ :=
    source.exists_emission sound small same source.checked.clean (Body.expands_self source.closed)
      encodes
  have copied : body = { body with maxStack := raw.maxStack } := by rw [← source.maxStack_eq]
  exact emitted.checkBody_eq_nil rfl copied rfl source.typed

variable
  (clean :
    Verify.checkInsns file.pool (Access.isStatic method.access) type
      { raw with maxStack := Weaver.stackLeft raw.maxStack }
      (StackMap.firstVersion ≤ file.major) decoded.insns = [])
  (long : field.descriptor = "J")
include clean long

/-- Nothing is wrong but missing frames with a body that the time of a field is woven into. -/
theorem eq_missingFrame_of_counting
    {weaver : Weaver Unit}
    (advised : weaver.advice = Timer.fieldCounter field clock)
    (access : weaver.access = method.access)
    (descriptor : weaver.descriptor = method.descriptor)
    (encodes : EncodesBody file.pool last (weaver.wovenBody () body) written)
    (member :
      report ∈ Verify.checkBody again method.access method.descriptor written
        (StackMap.firstVersion ≤ file.major)) :
    report.2 = .missingFrame := by
  have quiet := advised ▸ Timer.quiet_fieldCounter field clock
  have slots := (weaver.slots_enteredState () (access ▸ descriptor ▸ source.forMethod_eq)).1
  have few : (weaver.enteredState () body).slots.next < 2 ^ 16 := by
    rw [slots, advised]
    exact body.maxLocals.toNat_lt
  have expands :=
    (Weaver.expandsTo_wovenBody (advised ▸ Timer.straight_fieldCounter field clock)
      (advised ▸ Timer.wellFormed_fieldCounter field clock) source.closed few).toExpands
  obtain ⟨_, _, _, _, _, _, emitted⟩ :=
    source.exists_emission sound small same clean expands encodes
  have enough := Weaver.one_le_stackLeft raw.maxStack
  obtain ⟨original, finds, fits⟩ := emitted.exists_fitting fun _ => enough
  refine emitted.eq_missingFrame source.typed (emitted.carried_of_counting finds fits ?_ long
    (Weaver.guarded_expansion fun _ => quiet.exit _ _) (Weaver.counting_expansion advised)) member
  show max 1 (Weaver.stackLeft raw.maxStack).toNat + adviceStack ≤ written.maxStack.toNat
  rw [emitted.assembled.maxStack, Weaver.maxStack_wovenBody, source.maxStack_eq,
    Nat.max_eq_right enough]

/-- Nothing is wrong but missing frames with a body that keeps the time. -/
theorem eq_missingFrame_of_keeping
    {weaver : Weaver (Option UInt16)}
    (advised : weaver.advice = Timer.localScoped field clock)
    (explicit : weaver.detection = .explicit)
    (access : weaver.access = method.access)
    (descriptor : weaver.descriptor = method.descriptor)
    (passed : (weaver.weave none body.events).failure = none)
    (encodes : EncodesBody file.pool last (weaver.wovenBody none body) written)
    (member :
      report ∈ Verify.checkBody again method.access method.descriptor written
        (StackMap.firstVersion ≤ file.major)) :
    report.2 = .missingFrame := by
  obtain ⟨slot, keeping, next, few⟩ :=
    Weaver.exists_keeping_of_weave advised explicit passed (descriptor ▸ source.typed)
      (access ▸ source.arguments_le)
  have expands :=
    (Weaver.expandsTo_wovenBody (advised ▸ Timer.straight_localScoped field clock)
      (advised ▸ Timer.wellFormed_localScoped field clock) source.closed (next ▸ few)).toExpands
  have nothing : weaver.guards body = [] := by rw [Weaver.guards, explicit]
  obtain ⟨_, _, _, _, _, _, emitted⟩ :=
    source.exists_emission sound small same clean expands encodes
  have enough := Weaver.one_le_stackLeft raw.maxStack
  obtain ⟨original, finds, fits⟩ := emitted.exists_fitting fun _ => enough
  have guarded := @Weaver.guarded_expansion _ weaver none body (by simp [explicit])
  rw [source.maxLocals_eq] at keeping
  refine emitted.eq_missingFrame source.typed (emitted.carried_of_keeping finds fits ?_ long nothing
    guarded keeping ?_) member
  · show max 1 (Weaver.stackLeft raw.maxStack).toNat + adviceStack ≤ written.maxStack.toNat
    rw [emitted.assembled.maxStack, Weaver.maxStack_wovenBody, source.maxStack_eq,
      Nat.max_eq_right enough]
  · show written.maxLocals.toNat = raw.maxLocals.toNat + 2
    rw [emitted.assembled.maxLocals, ← source.maxLocals_eq]
    show (UInt16.ofNat (max body.maxLocals.toNat _)).toNat = _
    rw [next, Nat.max_eq_right (Nat.le_add_right _ _), UInt16.toNat_ofNat_of_lt' few]

omit long in
/-- Nothing is wrong but missing frames with the body of a method that was timed. -/
theorem eq_missingFrame_of_timedMethod
    {config : TimerConfig}
    {className : String}
    {woven : Body}
    (target : config.isTarget method.name method.descriptor = true)
    (long : config.fieldDescriptor = "J")
    (held : method.body = some body)
    (nonempty : body.nodes.isEmpty = false)
    (passed : (Timer.weaveBody config className method.header body.events).failure = none)
    (assembled : (Timer.timedMethod config className method).body = some woven)
    (encodes : EncodesBody file.pool last woven written)
    (member :
      report ∈ Verify.checkBody again method.access method.descriptor written
        (StackMap.firstVersion ≤ file.major)) :
    report.2 = .missingFrame := by
  simp only [Timer.timedMethod, Timer.timedEvents, target, if_true, Timer.bodyEvents, held,
    Option.map_some, Option.getD_some] at assembled
  cases strategy : config.strategy with
  | fieldCounter | structuredAdvice =>
      simp only [Timer.weaveBody, strategy] at assembled
      rw [Weaver.ofEvents?_weave _ _ _ nonempty] at assembled
      obtain rfl := Option.some.inj assembled
      exact source.eq_missingFrame_of_counting sound small same clean long rfl rfl rfl encodes
        member
  | localScoped =>
      simp only [Timer.weaveBody, strategy] at assembled passed
      rw [Weaver.ofEvents?_weave _ _ _ nonempty] at assembled
      obtain rfl := Option.some.inj assembled
      exact source.eq_missingFrame_of_keeping sound small same clean long rfl rfl rfl rfl passed
        encodes member

end Method.ReadClean

/-- What is wrong with a written method is wrong with the code that its body was assembled to. -/
theorem Method.Encoded.exists_report
    {first last again : Pool}
    {method : Method}
    {info : MemberInfo}
    {framed : Bool}
    {defect : Defect}
    (encoded : Method.Encoded first last method info)
    (same : again.entries = last.entries)
    (member : defect ∈ Verify.checkMethod again framed info) :
    ∃ body raw offset,
      method.body = some body ∧ EncodesBody first last body raw ∧
        (offset, defect.finding) ∈
            Verify.checkBody again method.access method.descriptor raw framed ∧
          defect.method = some (method.name ++ method.descriptor) := by
  have text (number : UInt16) : again.text number = last.text number := by
    rw [Pool.text, same, Pool.text]
  simp only [Verify.checkMethod, text, encoded.name, encoded.descriptor] at member
  cases held : method.body with
  | none =>
      rw [encoded.bodiless held] at member
      cases member
  | some body =>
      obtain ⟨raw, first, encodes⟩ := encoded.body body held
      rw [first, encoded.access] at member
      obtain ⟨⟨offset, finding⟩, listed, rfl⟩ := List.mem_map.mp member
      exact ⟨body, raw, offset, rfl, encodes, listed, rfl⟩

/-! ## Timed classes -/

/-- The field of a valid configuration holds a `long`. -/
theorem TimerConfig.fieldDescriptor_of_validate
    {config : TimerConfig}
    (valid : config.validate = .ok ()) :
    config.fieldDescriptor = "J" := by
  have fails {fault : ConfigFault} {later : Unit → Except ConfigFault Unit} :
      (throw fault >>= later) = .error fault :=
    rfl
  simp only [validate, fails] at valid
  split at valid
  · cases valid
  obtain ⟨_, _, valid⟩ := bind_eq_ok_iff.mp valid
  split at valid
  · cases valid
  split at valid
  · cases valid
  rename_i long
  exact Decidable.not_not.mp long

namespace Instrument

variable
  {config : TimerConfig} {bytes out : Bytes} {file : ClassFile} {input output : ClassModel}
  {outcome : Timer.Outcome} {method : Method} {info : MemberInfo} {last again : Pool}
  {defect : Defect}

/-- Every method that is to be timed counts as timed. -/
theorem mem_methods_of_timed
    (timed : timed config input = .ok (output, outcome))
    (member : method ∈ input.methods)
    (target : config.isTarget method.name method.descriptor = true) :
    method.name ++ method.descriptor ∈ outcome.methods := by
  have listed : method.header ∈ input.events.filterMap (Timer.target? config) := by
    refine List.mem_filterMap.mpr ⟨method.event, ?_, ?_⟩
    · simp only [ClassModel.events, List.mem_cons, List.mem_append, List.mem_map]
      exact .inl (.inr ⟨method, member, rfl⟩)
    · exact if_pos target
  unfold Instrument.timed at timed
  simp only at timed
  split at timed
  · cases timed
  · cases timed
    exact List.mem_map_of_mem listed

/--
Where a body that is to be timed declares a stack of another size than what is left to it
once it is timed, nothing is wrong with it either if it declares what is left.
-/
def StacksSuffice (config : TimerConfig) (file : ClassFile) : Prop :=
  ∀ info raw,
    TargetBody config file info raw →
      raw.maxStack ≠ Weaver.stackLeft raw.maxStack →
        Verify.checkBody file.pool info.access config.methodDescriptor
          { raw with maxStack := Weaver.stackLeft raw.maxStack }
          (StackMap.firstVersion ≤ file.major) = []

/-- Nothing is wrong with a body that is to be timed even with what is left to it of its stack. -/
theorem StacksSuffice.clean
    {info : MemberInfo}
    {raw : CodeAttribute Attribute}
    {type : MethodType}
    {decoded : Body.Decoded}
    {tables : Body.Tables}
    {body : Body}
    (suffice : StacksSuffice config file)
    (source : method.ReadClean file info raw type decoded tables body)
    (target : config.isTarget method.name method.descriptor = true) :
    Verify.checkInsns file.pool (Access.isStatic method.access) type
      { raw with maxStack := Weaver.stackLeft raw.maxStack }
      (StackMap.firstVersion ≤ file.major) decoded.insns = [] := by
  by_cases left : raw.maxStack = Weaver.stackLeft raw.maxStack
  · rw [← left]
    exact source.checked.clean
  · obtain ⟨named, described⟩ :
        method.name = config.methodName ∧ method.descriptor = config.methodDescriptor := by
      simpa [TimerConfig.isTarget] using target
    have clean :=
      suffice info raw ⟨source.member, named ▸ source.named, described ▸ source.described,
        source.first⟩ left
    obtain ⟨_, insns, typed, decodes, _, clean⟩ := Verify.checkInsns_eq_nil_of_checkBody clean
    rw [← described, source.typed] at typed
    cases typed
    obtain rfl :=
      Except.ok.inj (decodes.symm.trans (Insn.decode_eq_ok_iff.mpr source.checked.decodes))
    rw [source.access]
    exact clean

/--
Nothing is wrong with a timed class that is written as it is but missing frames of the
methods that were timed, if nothing was wrong with the class that was read, and its
timed bodies have enough left of their stacks.
-/
theorem missingFrame_of_timed
    (read : ClassFile.ofBytes bytes = .ok file)
    (found : ClassModel.read bytes = .ok input)
    (clean : Verify.check bytes = [])
    (few : FewEntries input)
    (valid : config.validate = .ok ())
    (suffice : StacksSuffice config file)
    (timed : timed config input = .ok (output, outcome))
    (countable : Countable output)
    (written : output.write computeNothing = .ok out) :
    ∀ defect ∈ Verify.check out,
      defect.finding = .missingFrame ∧ ∃ name ∈ outcome.methods, defect.method = some name := by
  intro defect member
  obtain ⟨_, other, reads, resolves⟩ := ClassModel.read_eq_ok_iff.mp found
  obtain rfl := Except.ok.inj ((ClassFile.ofBytes_eq_ok_iff.mpr reads).symm.trans read)
  have encodable := encodable_of_timed found few timed countable
  obtain ⟨again, readAgain, reencoded⟩ :=
    ClassModel.exists_file_of_writeWith encodable rfl written
  rw [Verify.check, readAgain] at member
  obtain ⟨last, small, same, methods⟩ := reencoded.methods
  obtain ⟨info, listed, member⟩ := List.mem_flatMap.mp member
  obtain ⟨_, among, encoded⟩ := exists_of_forall₂ methods listed
  obtain ⟨body, raw, offset, assembled, encodes, reported, named⟩ :=
    encoded.exists_report same member
  have sound := encodable.sound
  have major := reencoded.major
  have passed {method : Method} {body : Body} (member : method ∈ input.methods)
      (held : method.body = some body)
      (target : config.isTarget method.name method.descriptor = true) :=
    failure_of_timed timed member held target
  have names {method : Method} (member : method ∈ input.methods)
      (target : config.isTarget method.name method.descriptor = true) :=
    mem_methods_of_timed timed member target
  obtain rfl := shape_of_timed timed
  obtain ⟨method, ofInput, rfl⟩ := List.mem_map.mp among
  rw [major, show input.major = other.major from resolves.major] at reported
  rw [show input.pool = other.pool from resolves.pool] at encodes sound
  have regular := ClassModel.regular_of_read found
  by_cases target : config.isTarget method.name method.descriptor = true
  · obtain ⟨original, held⟩ :=
      Timer.exists_body_of_timedMethod
        (fun _ held => (regular.nonempty_closed ofInput held).1) assembled
    obtain ⟨_, _, _, _, _, source⟩ := Method.exists_readClean read found clean ofInput held
    exact
      ⟨source.eq_missingFrame_of_timedMethod sound small same (suffice.clean source target) target
        (config.fieldDescriptor_of_validate valid) held (regular.nonempty_closed ofInput held).1
        (passed ofInput held target) assembled encodes reported, _, names ofInput target, named⟩
  · rw [Timer.timedMethod_of_not_target config (Bool.eq_false_iff.mpr target)] at assembled reported
    obtain ⟨_, _, _, _, _, source⟩ := Method.exists_readClean read found clean ofInput assembled
    rw [source.checkBody_eq_nil sound small same encodes] at reported
    cases reported

/-- A class that is read and timed, and the bytes of the timed class as it is. -/
def plainly (config : TimerConfig) (bytes : Bytes) :
    Option (ClassFile × ClassModel × ClassModel × Timer.Outcome × Bytes) := do
  let file ← (ClassFile.ofBytes bytes).toOption
  let input ← (ClassModel.read bytes).toOption
  let (output, outcome) ← (timed config input).toOption
  let out ← (output.write computeNothing).toOption
  return (file, input, output, outcome, out)

theorem steps_of_plainly
    {bytes out : Bytes}
    (run : plainly config bytes = some (file, input, output, outcome, out)) :
    ClassFile.ofBytes bytes = .ok file ∧ ClassModel.read bytes = .ok input ∧
      timed config input = .ok (output, outcome) ∧ output.write computeNothing = .ok out := by
  simp only [plainly, Option.bind_eq_bind, Option.bind_eq_some_iff, Option.pure_def,
    toOption_eq_some_iff] at run
  obtain ⟨_, read, _, found, ⟨_, _⟩, timed, _, written, same⟩ := run
  cases same
  exact ⟨read, found, timed, written⟩

/-- Two frames are missing of the method that creates objects once it was timed. -/
theorem missingFrame_of_siblings :
    ∃ file input output outcome out,
      plainly keepsTime siblings = some (file, input, output, outcome, out) ∧
        (∀ defect ∈ Verify.check out,
          defect.finding = .missingFrame ∧
            ∃ name ∈ outcome.methods, defect.method = some name) ∧
          (Verify.check out).length = 2 := by
  have evaluated :
      (plainly keepsTime siblings).map (fun (file, input, output, _, out) =>
          (decide (FewEntries input),
            decide (∀ info ∈ file.methods, ∀ raw ∈ Verify.firstBody? info.attributes,
              raw.maxStack = Weaver.stackLeft raw.maxStack),
            decide (Countable output), (Verify.check out).length)) =
        some (true, true, true, 2) := by
    decide +kernel
  obtain ⟨⟨file, input, output, outcome, out⟩, run, evaluated⟩ :=
    Option.map_eq_some_iff.mp evaluated
  simp only [Prod.mk.injEq, decide_eq_true_eq] at evaluated
  obtain ⟨few, left, countable, length⟩ := evaluated
  obtain ⟨read, found, timed, written⟩ := steps_of_plainly run
  have suffice : StacksSuffice keepsTime file := fun info raw wanted other =>
    absurd (left info wanted.member raw wanted.first) other
  exact ⟨file, input, output, outcome, out, run,
    missingFrame_of_timed read found (by decide +kernel) few (by decide +kernel) suffice timed
      countable written,
    length⟩

/--
A class file with one method that declares no room on its stack.  It returns at once,
and the handler of its return pushes numbers on top of the exception.
-/
def crowded : Bytes :=
  [ 0xCA, 0xFE, 0xBA, 0xBE, 0x00, 0x00, 0x00, 0x31, 0x00, 0x08, 0x01, 0x00, 0x01, 0x41, 0x07, 0x00,
    0x01, 0x01, 0x00, 0x10, 0x6A, 0x61, 0x76, 0x61, 0x2F, 0x6C, 0x61, 0x6E, 0x67, 0x2F, 0x4F, 0x62,
    0x6A, 0x65, 0x63, 0x74, 0x07, 0x00, 0x03, 0x01, 0x00, 0x04, 0x43, 0x6F, 0x64, 0x65, 0x01, 0x00,
    0x01, 0x6D, 0x01, 0x00, 0x03, 0x28, 0x29, 0x56, 0x00, 0x21, 0x00, 0x02, 0x00, 0x04, 0x00, 0x00,
    0x00, 0x00, 0x00, 0x01, 0x00, 0x09, 0x00, 0x06, 0x00, 0x07, 0x00, 0x01, 0x00, 0x05, 0x00, 0x00,
    0x00, 0x23, 0x00, 0x00, 0x00, 0x00, 0x00, 0x00, 0x00, 0x0F, 0xB1, 0x03, 0x99, 0x00, 0x07, 0x09,
    0xA7, 0x00, 0x05, 0x03, 0x03, 0x03, 0x03, 0x03, 0xB1, 0x00, 0x01, 0x00, 0x00, 0x00, 0x01, 0x00,
    0x01, 0x00, 0x00, 0x00, 0x00, 0x00, 0x00 ]

/--
The check tells of a stack that gets too deep, not of one that is too deep from the start.
So it finds nothing wrong with a handler on a stack without room before there is some.
-/
theorem stackOverflow_of_crowded :
    ∃ file input output outcome out,
      plainly {} crowded = some (file, input, output, outcome, out) ∧
        Verify.check crowded = [] ∧ FewEntries input ∧ TimerConfig.validate {} = .ok () ∧
          Countable output ∧
            Verify.check out = [⟨.stackOverflow 6 5, some "m()V", some 33⟩] := by
  have evaluated :
      (plainly {} crowded).map (fun (_, input, output, _, out) =>
          (decide (FewEntries input), decide (Countable output), Verify.check out)) =
        some (true, true, [⟨.stackOverflow 6 5, some "m()V", some 33⟩]) := by
    decide +kernel
  obtain ⟨⟨file, input, output, outcome, out⟩, run, evaluated⟩ :=
    Option.map_eq_some_iff.mp evaluated
  simp only [Prod.mk.injEq, decide_eq_true_eq] at evaluated
  obtain ⟨few, countable, overflows⟩ := evaluated
  exact ⟨file, input, output, outcome, out, run, by decide +kernel, few, by decide +kernel,
    countable, overflows⟩

end Instrument
end JvmClass
