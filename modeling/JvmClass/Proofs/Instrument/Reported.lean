import JvmClass.Proofs.Instrument.Kept
import JvmClass.Proofs.Weave.Slots

namespace JvmClass

/-!
# What timing reports

A method is noted as timed when its header comes, and only behind the header does
it show whether there is a body to weave into.  So the report names, in order, the
methods that were rewritten and those to be timed that have no body.  The field is
looked for until the end of the class, so what is said of it holds for every class.
-/

/-- What may be inserted leaves every node where it can be counted. -/
theorem Flow.length_le_length_blocks
    (snippet : Origin × Node → List Insn)
    (core : List (Origin × Node)) :
    core.length ≤ (blocks snippet core).length := by
  induction core with
  | nil => exact Nat.le_refl _
  | cons node core inductionHypothesis =>
      rw [blocks_cons, List.length_append, List.length_cons, List.length_cons]
      omega

namespace Weaver

variable {Memory : Type} {weaver : Weaver Memory}

/-- A woven body starts with the snippet for the start, and has every node that it had. -/
theorem exists_nodes_of_weave
    (straight : weaver.advice.Straight)
    (memory : Memory)
    (body : Body) :
    ∃ woven rest,
      Body.ofEvents? (weaver.weave memory body.events).events = some woven ∧
        woven.nodes = (weaver.entryInsns memory body).map .insn ++ rest ∧
          body.nodes.length ≤ rest.length := by
  have sent : (weaver.weave memory body.events).events.isEmpty = false := by
    rw [weave_events]
    rfl
  have nodes :
      (weaver.weave memory body.events).events.filterMap BodyEvent.node? =
        (weaver.entryInsns memory body).map .insn ++
          (Flow.blocks (weaver.inserted memory body) (weaver.core body)).map Prod.snd := by
    rw [← WovenBody.map_snd_tagged, tagged_weave memory body straight, Flow.assembled,
      List.map_append, List.map_map]
    rfl
  simp only [Body.ofEvents?, sent, Bool.false_eq_true, if_false]
  refine ⟨_, _, rfl, nodes, ?_⟩
  have own : body.nodes.length ≤ (weaver.core body).length := by
    simp only [core, List.length_append, List.length_map]
    omega
  rw [List.length_map]
  exact own.trans (Flow.length_le_length_blocks _ _)

end Weaver

namespace Timer

variable {config : TimerConfig} {className : String} {method : Method} {body : Body}

/-- What a strategy puts at the start of a body, over the slot that it may keep the time in. -/
def entryNodes (config : TimerConfig) (className : String) (slot : UInt16) : List Node :=
  match config.strategy with
  | .fieldCounter | .structuredAdvice =>
      (changeField (counterField config className) config.clock Opcode.lsub).nodes
  | .localScoped => [.insn (readClock config.clock), .insn (.slot Opcode.lstore slot)]

/-- The code of a method was changed, and starts with what the strategy puts there. -/
structure Rewritten
    (config : TimerConfig)
    (className : String)
    (before after : Method) : Prop where
  starts :
    ∃ body slot, after.body = some body ∧ entryNodes config className slot <+: body.nodes
  differs : after.body ≠ before.body

/-- A method to be timed that has no body, such as an abstract or a native one. -/
def Bodiless (config : TimerConfig) (method : Method) : Prop :=
  config.isTarget method.name method.descriptor = true ∧ method.body = none

theorem length_entryNodes_pos
    (config : TimerConfig)
    (className : String)
    (slot : UInt16) :
    0 < (entryNodes config className slot).length := by
  unfold entryNodes
  cases config.strategy <;> exact Nat.succ_pos _

/-! ## Methods -/

theorem Rewritten.of_woven
    {Memory : Type}
    {weaver : Weaver Memory}
    {memory : Memory}
    (slot : UInt16)
    (target : config.isTarget method.name method.descriptor = true)
    (held : method.body = some body)
    (woven :
      weaveBody config className method.header body.events = weaver.weave memory body.events)
    (straight : weaver.advice.Straight)
    (starts : (weaver.entryInsns memory body).map .insn = entryNodes config className slot) :
    Rewritten config className method (timedMethod config className method) := by
  obtain ⟨after, rest, collected, nodes, kept⟩ :=
    Weaver.exists_nodes_of_weave straight memory body
  have becomes : (timedMethod config className method).body = some after := by
    simp only [timedMethod, timedEvents, target, if_true, bodyEvents, held, Option.map_some,
      Option.getD_some, woven, collected]
  rw [starts] at nodes
  refine ⟨⟨after, slot, becomes, nodes ▸ List.prefix_append _ _⟩, fun same => ?_⟩
  -- The snippet for the start makes the code longer.
  rw [becomes, held] at same
  obtain rfl := Option.some.inj same
  have positive := length_entryNodes_pos config className slot
  have longer := congrArg List.length nodes
  rw [List.length_append] at longer
  omega

/-- If nothing fails, a method to be timed that has a body is rewritten. -/
theorem rewritten_timedMethod
    (target : config.isTarget method.name method.descriptor = true)
    (held : method.body = some body)
    (passed : (weaveBody config className method.header body.events).failure = none) :
    Rewritten config className method (timedMethod config className method) := by
  cases strategy : config.strategy with
  | fieldCounter | structuredAdvice =>
      have woven :
          ∃ detection,
            weaveBody config className method.header body.events =
              Weaver.weave
                ⟨fieldCounter (counterField config className) config.clock, detection,
                  method.access, method.descriptor⟩
                () body.events :=
        ⟨_, by simp only [weaveBody, strategy]; rfl⟩
      obtain ⟨detection, woven⟩ := woven
      refine .of_woven 0 target held woven (straight_fieldCounter _ _) ?_
      simp only [entryNodes, strategy]
      rfl
  | localScoped =>
      have woven :
          weaveBody config className method.header body.events =
            Weaver.weave
              ⟨localScoped (counterField config className) config.clock, .explicit,
                method.access, method.descriptor⟩
              none body.events := by
        simp only [weaveBody, strategy]
        rfl
      rw [woven] at passed
      obtain ⟨_, first, -, allocator, -, -, entered⟩ :=
        Weaver.exists_reserved_of_weave rfl passed
      refine
        .of_woven (UInt16.ofNat first) target held woven (straight_localScoped _ _) ?_
      rw [Weaver.entryInsns, Weaver.slots_begun _ _ allocator, entered]
      simp only [entryNodes, strategy]
      rfl

/-- A method to be timed that has no body comes out without one. -/
theorem body_timedMethod_of_bodiless
    (bodiless : Bodiless config method)
    (className : String) :
    (timedMethod config className method).body = none := by
  obtain ⟨target, none⟩ := bodiless
  obtain ⟨_, weaver, memory, woven⟩ := exists_weaver config className method.header
  simp only [timedMethod, timedEvents, target, if_true, bodyEvents, none, Option.map_none,
    Option.getD_none, woven]
  rfl

/-- If nothing fails, the methods to be timed are those that are rewritten and those without a body. -/
theorem isTarget_iff
    (passed :
      ∀ body, method.body = some body →
        config.isTarget method.name method.descriptor = true →
          (weaveBody config className method.header body.events).failure = none) :
    config.isTarget method.name method.descriptor = true ↔
      Rewritten config className method (timedMethod config className method) ∨
        Bodiless config method := by
  constructor
  · intro target
    cases held : method.body with
    | none => exact .inr ⟨target, held⟩
    | some body => exact .inl (rewritten_timedMethod target held (passed body held target))
  · rintro (rewritten | bodiless)
    · by_contra other
      exact rewritten.differs (by
        rw [timedMethod_of_not_target config (Bool.eq_false_iff.mpr other)])
    · exact bodiless.1

/-! ## Classes -/

open Classical in
/-- The names, as they are reported, of the methods that become what they are to become. -/
noncomputable def namesWhere
    (becomes : Method → Method → Prop)
    (input output : ClassModel) : List String :=
  ((input.methods.zip output.methods).filter fun pair => becomes pair.1 pair.2).map fun pair =>
    pair.1.name ++ pair.1.descriptor

/-- What is reported is what became of a class, but for methods to be timed that have no body. -/
structure Reports
    (config : TimerConfig)
    (input output : ClassModel)
    (outcome : Outcome) : Prop where
  paired : output.methods.length = input.methods.length
  methods :
    outcome.methods =
      namesWhere
        (fun before after => Rewritten config output.name before after ∨ Bodiless config before)
        input output
  /-- Methods to be timed that have no body are not rewritten: they come out without one. -/
  bodiless :
    ∀ pair ∈ input.methods.zip output.methods, Bodiless config pair.1 → pair.2.body = none
  /-- If every method to be timed has a body, the rewritten ones are reported and no others. -/
  complete :
    (∀ method ∈ input.methods, ¬ Bodiless config method) →
      outcome.methods = namesWhere (Rewritten config output.name) input output
  fieldAdded : outcome.fieldAdded = true ↔ output.fields.length = input.fields.length + 1

variable {model : ClassModel}

/-- The methods that are reported are those to be timed. -/
theorem methods_outcome
    (config : TimerConfig)
    (model : ClassModel) :
    (time config model.events).outcome.methods =
      (model.methods.filter fun method => config.isTarget method.name method.descriptor).map
        fun method => method.name ++ method.descriptor := by
  have target (method : Method) :
      target? config method.event =
        if config.isTarget method.name method.descriptor then some method.header else none := rfl
  have front (header : ClassHeader) : target? config (.header header) = none := rfl
  have field (field : Field) : target? config (.field field) = none := rfl
  have behind (item : Attribute) : target? config (.classAttribute item) = none := rfl
  have named (methods : List Method) :
      ((methods.map Method.event).filterMap (target? config)).map
          (fun header => header.name ++ header.descriptor) =
        (methods.filter fun method => config.isTarget method.name method.descriptor).map
          fun method => method.name ++ method.descriptor := by
    induction methods with
    | nil => rfl
    | cons method methods inductionHypothesis =>
        rw [List.map_cons, List.filterMap_cons, target, List.filter_cons]
        cases config.isTarget method.name method.descriptor with
        | false => exact inductionHypothesis
        | true => exact congrArg (List.cons _) inductionHypothesis
  simp only [time, ClassModel.events, List.filterMap_append, List.filterMap_cons, front,
    List.map_append, named]
  simp [List.filterMap_map, field, behind]

/-- The field is added unless the class declares it. -/
theorem fieldAdded_outcome_iff :
    (time config model.events).outcome.fieldAdded = true ↔
      ¬ ∃ field ∈ model.fields, Instrument.Counts config field := by
  simp [time, ClassModel.events, isCounter, Method.event, Instrument.Counts]

/-- The report names the methods that become what exactly those to be timed become. -/
theorem methods_outcome_eq_namesWhere
    {become : Method → Method}
    {becomes : Method → Method → Prop}
    {output : ClassModel}
    (methods : output.methods = model.methods.map become)
    (targets :
      ∀ method ∈ model.methods,
        (config.isTarget method.name method.descriptor = true ↔ becomes method (become method))) :
    (time config model.events).outcome.methods = namesWhere becomes model output := by
  rw [methods_outcome, namesWhere, methods, ← List.map_prod_left_eq_zip, List.filter_map,
    List.map_map]
  refine congrArg (List.map _) (List.filter_congr fun method member => ?_)
  rw [Bool.eq_iff_iff, targets method member]
  simp

/-- If timing does not fail, what it reports is what became of the class. -/
theorem reports_time
    (own : Pool)
    (finished : (time config model.events).failure = none) :
    Reports config model (ClassModel.ofEvents own (time config model.events).events)
      (time config model.events).outcome := by
  have timed :
      Instrument.timed config model =
        .ok (.ofEvents model.pool (time config model.events).events,
          (time config model.events).outcome) := by
    simp only [Instrument.timed, finished]
  rw [Instrument.ofEvents_timed]
  have targets :
      ∀ method ∈ model.methods,
        (config.isTarget method.name method.descriptor = true ↔
          Rewritten config (config.newName.getD model.name) method
              (timedMethod config (config.newName.getD model.name) method) ∨
            Bodiless config method) :=
    fun method member =>
      isTarget_iff fun _ held target => Instrument.failure_of_timed timed member held target
  constructor
  case paired => exact List.length_map _
  case methods => exact methods_outcome_eq_namesWhere rfl targets
  case bodiless =>
    rintro ⟨before, after⟩ member bodiless
    rw [← List.map_prod_left_eq_zip] at member
    obtain ⟨method, _, same⟩ := List.mem_map.mp member
    cases same
    exact body_timedMethod_of_bodiless bodiless _
  case complete =>
    intro complete
    refine methods_outcome_eq_namesWhere rfl fun method member => ?_
    exact (targets method member).trans (or_iff_left (complete method member))
  case fieldAdded =>
    rw [fieldAdded_outcome_iff, Instrument.timedFields, List.length_append]
    split <;> simp [*]

/-- A class with an abstract method and with `m()V`, which has a body that returns at once or none. -/
def sampleClass (returns : Bool) : ClassModel where
  minor := 0
  major := 52
  access := Access.publicFlag ||| Access.abstractFlag
  pool := .empty
  name := "A"
  superName := some "java/lang/Object"
  interfaces := []
  fields := []
  methods :=
    [⟨Access.publicFlag ||| Access.abstractFlag, "n", "()V", none, []⟩,
      ⟨Access.publicFlag ||| if returns then 0 else Access.abstractFlag, "m", "()V",
        if returns then some { Body.empty with nodes := [.insn (.plain Opcode.voidReturn)] }
        else none, []⟩]
  attributes := []

/-- The method that returns at once is reported, and no other. -/
theorem reports_of_return :
    (time { strategy := .localScoped } (sampleClass true).events).failure = none ∧
      ["m()V"] =
        namesWhere (Rewritten { strategy := .localScoped } "A") (sampleClass true)
          (.ofEvents .empty
            (time { strategy := .localScoped } (sampleClass true).events).events) := by
  have finished :
      (time { strategy := .localScoped } (sampleClass true).events).failure = none := by
    decide +kernel
  refine ⟨finished, (reports_time .empty finished).complete ?_⟩
  simp [sampleClass, Bodiless, TimerConfig.isTarget]

/-- The abstract method that was to be timed is reported, and nothing was rewritten. -/
theorem reported_of_abstract :
    TimerConfig.validate {} = .ok () ∧
      (time {} (sampleClass false).events).failure = none ∧
        (time {} (sampleClass false).events).outcome.methods = ["m()V"] ∧
          namesWhere (Rewritten {} "A") (sampleClass false)
            (.ofEvents .empty (time {} (sampleClass false).events).events) = [] := by
  refine ⟨by decide +kernel, rfl, rfl, ?_⟩
  have same :
      (ClassModel.ofEvents .empty (time {} (sampleClass false).events).events).methods =
        (sampleClass false).methods := rfl
  rw [namesWhere, same, List.map_eq_nil_iff, List.filter_eq_nil_iff]
  rintro ⟨before, after⟩ member
  obtain rfl : before = after := by
    simp only [sampleClass, List.zip_cons_cons, List.zip_nil_left, List.mem_pair,
      Prod.mk.injEq] at member
    rcases member with ⟨rfl, rfl⟩ | ⟨rfl, rfl⟩ <;> rfl
  simpa using fun rewritten : Rewritten {} "A" before before => rewritten.differs rfl

end Timer
end JvmClass
