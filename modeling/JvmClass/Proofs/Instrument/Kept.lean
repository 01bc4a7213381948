import JvmClass.Proofs.ClassModel.Reread
import JvmClass.Proofs.Timer
import JvmClass.Proofs.Weave.Closed

namespace JvmClass

/-!
# What instrumenting keeps

Timing changes the bodies of the methods that it is told to time, and nothing
else but what it says: a new name, if one is asked for, and one field, unless the
class has it.  So however often a class is timed, the field is declared once.
-/

/-- A body of a class that was read has nodes, and is closed. -/
theorem ClassModel.Regular.nonempty_closed
    {model : ClassModel}
    {method : Method}
    {body : Body}
    (regular : model.Regular)
    (member : method ∈ model.methods)
    (held : method.body = some body) :
    body.nodes.isEmpty = false ∧ Node.Closed body.nodes := by
  obtain ⟨_, steps, last, bodyRegular⟩ := (regular.methods method member).body body held
  refine ⟨?_, bodyRegular.closed⟩
  obtain ⟨step, others, rfl⟩ := List.exists_cons_of_ne_nil bodyRegular.nonempty
  simp [bodyRegular.nodes, Node.ofSteps]

namespace Instrument

variable {config : TimerConfig} {input output : ClassModel}

/-- The field is one that the time is added to. -/
def Counts (config : TimerConfig) (field : Field) : Prop :=
  field.name = config.fieldName ∧ field.descriptor = config.fieldDescriptor

instance : DecidablePred (Counts config) :=
  fun _ => inferInstanceAs (Decidable (_ ∧ _))

/-- How often a class declares the field that the time is added to. -/
def declarations (config : TimerConfig) (model : ClassModel) : Nat :=
  model.fields.countP (Counts config)

/-- What timing keeps of a method. -/
structure KeepsMethod
    (config : TimerConfig)
    (method timed : Method) : Prop where
  access : timed.access = method.access
  name : timed.name = method.name
  descriptor : timed.descriptor = method.descriptor
  attributes : timed.attributes = method.attributes
  /-- A body stays a body, with the local variables in its table. -/
  locals : timed.body.map Body.locals = method.body.map Body.locals
  /-- A method that is not to be timed stays as it is. -/
  others : config.isTarget method.name method.descriptor = false → timed = method

/-- What timing keeps of a class, and what it adds. -/
structure Keeps
    (config : TimerConfig)
    (input output : ClassModel) : Prop where
  minor : output.minor = input.minor
  major : output.major = input.major
  access : output.access = input.access
  pool : output.pool = input.pool
  name : output.name = config.newName.getD input.name
  superName : output.superName = input.superName
  interfaces : output.interfaces = input.interfaces
  attributes : output.attributes = input.attributes
  /-- The field is declared behind the others exactly if none of them is that field. -/
  fields :
    output.fields =
      input.fields ++
        if ∃ field ∈ input.fields, Counts config field then
          []
        else
          [⟨Access.privateFlag ||| Access.staticFlag, config.fieldName, config.fieldDescriptor, []⟩]
  methods : List.Forall₂ (KeepsMethod config) input.methods output.methods

/-- The fields of a timed class: the field is declared behind the others if none of them is it. -/
def timedFields (config : TimerConfig) (fields : List Field) : List Field :=
  fields ++
    if ∃ field ∈ fields, Counts config field then
      []
    else
      [Timer.counterDeclaration config]

/-- What is collected of a timed class, over any pool. -/
theorem ofEvents_timed
    (own : Pool) :
    ClassModel.ofEvents own (Timer.time config input.events).events =
      { input with
        pool := own
        name := config.newName.getD input.name
        fields := timedFields config input.fields
        methods :=
          input.methods.map (Timer.timedMethod config (config.newName.getD input.name)) } := by
  have counted :
      (input.fields.any fun field => Timer.isCounter config (.field field)) = true ↔
        ∃ field ∈ input.fields, Counts config field := by
    simp [Timer.isCounter, Counts]
  have repooled :
      ClassModel.ofEvents own (Timer.time config input.events).events =
        { ClassModel.ofEvents input.pool (Timer.time config input.events).events with
          pool := own } :=
    rfl
  rw [repooled, Timer.ofEvents_time]
  simp only [counted, timedFields]

/-- A timed class, with what timing made of its methods. -/
theorem shape_of_timed
    {outcome : Timer.Outcome}
    (timed : timed config input = .ok (output, outcome)) :
    output =
      { input with
        name := config.newName.getD input.name
        fields := timedFields config input.fields
        methods :=
          input.methods.map (Timer.timedMethod config (config.newName.getD input.name)) } := by
  have shape : output = ClassModel.ofEvents input.pool (Timer.time config input.events).events := by
    unfold Instrument.timed at timed
    simp only at timed
    split at timed
    · cases timed
    · cases timed
      rfl
  rw [shape]
  exact ofEvents_timed input.pool

/-- If a class could be timed, so could each of its methods. -/
theorem failure_of_timed
    {outcome : Timer.Outcome}
    {method : Method}
    {body : Body}
    (timed : timed config input = .ok (output, outcome))
    (member : method ∈ input.methods)
    (held : method.body = some body)
    (target : config.isTarget method.name method.descriptor = true) :
    (Timer.weaveBody config (config.newName.getD input.name) method.header body.events).failure =
      none := by
  unfold Instrument.timed at timed
  simp only at timed
  split at timed
  · cases timed
  · rename_i passed
    have part : method.event ∈ input.events := by
      simp only [ClassModel.events, List.mem_cons, List.mem_append, List.mem_map]
      exact .inl (.inr ⟨method, member, rfl⟩)
    have fine :=
      List.findSome?_eq_none_iff.mp passed _ (List.mem_map_of_mem part)
    have isTarget : config.isTarget method.header.name method.header.descriptor = true := target
    have name : Timer.className config input.events = config.newName.getD input.name := rfl
    simpa only [Method.event, held, Option.map_some, Option.getD_some, Timer.timePart, isTarget,
      if_true, name] using fine

/-- Timing hands on what it does not time. -/
theorem keeps_of_timed
    {outcome : Timer.Outcome}
    (nonempty :
      ∀ method ∈ input.methods, ∀ body, method.body = some body → body.nodes.isEmpty = false)
    (timed : timed config input = .ok (output, outcome)) :
    Keeps config input output := by
  obtain rfl := shape_of_timed timed
  refine ⟨rfl, rfl, rfl, rfl, rfl, rfl, rfl, rfl, rfl, ?_⟩
  refine List.forall₂_map_right_iff.mpr (List.forall₂_same.mpr fun method member => ?_)
  exact ⟨rfl, rfl, rfl, rfl, Timer.locals_timedMethod config (nonempty method member) _,
    fun other => Timer.timedMethod_of_not_target config other _⟩

/-! ## One run after the other -/

/--
A class that was timed is timed again with the same configuration any number of
times, in memory or written in some way and read in between.
-/
inductive RunsAgain
    (config : TimerConfig)
    (first : ClassModel) : ClassModel → Prop
  | done : RunsAgain config first first
  | inMemory
      {last next : ClassModel}
      {outcome : Timer.Outcome}
      (runs : RunsAgain config first last)
      (timed : timed config last = .ok (next, outcome)) :
      RunsAgain config first next
  | written
      {last again next : ClassModel}
      {options : WriteOptions}
      {hierarchy : Hierarchy}
      {bytes : Bytes}
      {outcome : Timer.Outcome}
      (runs : RunsAgain config first last)
      (encoded : last.writeWith options hierarchy = .ok bytes)
      (found : ClassModel.read bytes = .ok again)
      (timed : timed config again = .ok (next, outcome)) :
      RunsAgain config first next

/-- The field is declared once if it was not declared, and as often as it was if it was. -/
theorem countP_timedFields
    (fields : List Field) :
    (timedFields config fields).countP (Counts config) =
      max 1 (fields.countP (Counts config)) := by
  unfold timedFields
  split
  · rename_i declared
    obtain ⟨field, member, counts⟩ := declared
    have positive : 0 < fields.countP (Counts config) :=
      List.countP_pos_iff.mpr ⟨field, member, by simpa using counts⟩
    rw [List.append_nil]
    omega
  · rename_i undeclared
    have none : fields.countP (Counts config) = 0 := by
      refine List.countP_eq_zero.mpr fun field member counts => ?_
      exact undeclared ⟨field, member, by simpa using counts⟩
    have counts : Counts config (Timer.counterDeclaration config) := ⟨rfl, rfl⟩
    rw [List.countP_append, none, List.countP_singleton]
    simp [counts]

theorem declarations_of_timed
    {outcome : Timer.Outcome}
    (timed : timed config input = .ok (output, outcome)) :
    declarations config output = max 1 (declarations config input) := by
  obtain rfl := shape_of_timed timed
  exact countP_timedFields input.fields

/-- A timed class that can be written and read any number of times with the field declared as often. -/
structure Settled
    (config : TimerConfig)
    (model : ClassModel) : Prop where
  sound : model.pool.Sound
  interfacesShort : model.interfaces.length < 2 ^ 16
  fits : ∀ field ∈ model.fields, Attribute.TableFits model.pool field.attributes
  declared : 0 < declarations config model
  few : model.fields.length ≤ 2 ^ 16
  /-- A class with one field too many has lost all of them once it is read. -/
  full : model.fields.length = 2 ^ 16 → declarations config model = 1

/-- Timing a class that was read settles it. -/
theorem settled_of_timed_read
    {bytes : Bytes}
    {outcome : Timer.Outcome}
    (found : ClassModel.read bytes = .ok input)
    (timed : timed config input = .ok (output, outcome)) :
    Settled config output := by
  have regular := ClassModel.regular_of_read found
  have count := declarations_of_timed timed
  have fieldsShort := regular.fieldsShort
  obtain rfl := shape_of_timed timed
  have ownFits (field : Field) (member : field ∈ input.fields) :=
    (regular.fields field member).attributes
  refine ⟨regular.adopted.sound, regular.interfacesShort, ?_, by omega, ?_, ?_⟩
  · intro field member
    simp only [timedFields] at member
    split at member
    · rw [List.append_nil] at member
      exact ownFits field member
    · rcases List.mem_append.mp member with own | new
      · exact ownFits field own
      · rw [List.mem_singleton.mp new]
        exact ⟨show 0 < 2 ^ 16 by decide, fun _ listed => nomatch listed⟩
  · simp only [timedFields, List.length_append]
    split <;> simp <;> omega
  · intro full
    -- The last field is the new one, so no other is it.
    simp only [timedFields] at full
    split at full
    · rw [List.append_nil] at full
      omega
    · rename_i undeclared
      have none : declarations config input = 0 :=
        List.countP_eq_zero.mpr fun field member counts =>
          undeclared ⟨field, member, by simpa using counts⟩
      rw [count, none]
      rfl

/-- Timing a settled class leaves its fields as they are. -/
theorem Settled.fields_of_timed
    {outcome : Timer.Outcome}
    (settled : Settled config input)
    (timed : timed config input = .ok (output, outcome)) :
    output.fields = input.fields := by
  obtain rfl := shape_of_timed timed
  obtain ⟨field, member, counts⟩ := List.countP_pos_iff.mp settled.declared
  have declared : ∃ field ∈ input.fields, Counts config field :=
    ⟨field, member, by simpa using counts⟩
  simp [timedFields, declared]

theorem Settled.timed
    {outcome : Timer.Outcome}
    (settled : Settled config input)
    (timed : Instrument.timed config input = .ok (output, outcome)) :
    Settled config output ∧ declarations config output = declarations config input := by
  have fields := settled.fields_of_timed timed
  have count : declarations config output = declarations config input := by
    rw [declarations, fields, declarations]
  refine ⟨?_, count⟩
  obtain ⟨sound, interfacesShort, fits, declared, few, full⟩ := settled
  obtain rfl := shape_of_timed timed
  rw [← fields] at fits few full
  rw [← count] at declared full
  exact ⟨sound, interfacesShort, fits, declared, few, full⟩

/-- A settled class that is written and read has the field declared as often once it is timed. -/
theorem Settled.declarations_of_written
    {again : ClassModel}
    {options : WriteOptions}
    {hierarchy : Hierarchy}
    {bytes : Bytes}
    {outcome : Timer.Outcome}
    (settled : Settled config input)
    (encoded : input.writeWith options hierarchy = .ok bytes)
    (found : ClassModel.read bytes = .ok again)
    (timed : Instrument.timed config again = .ok (output, outcome)) :
    declarations config output = declarations config input := by
  have reread :=
    ClassModel.rereadAs_of_write settled.sound settled.interfacesShort settled.fits encoded found
  have positive := settled.declared
  rw [declarations_of_timed timed]
  rcases Nat.lt_or_eq_of_le settled.few with few | full
  · rw [declarations, reread.fields few]
    rw [declarations] at positive ⊢
    omega
  · rw [settled.full full, declarations, reread.noFields full]
    rfl

/-- However often a settled class is timed again, it stays settled. -/
theorem Settled.runsAgain
    {first last : ClassModel}
    (settled : Settled config first)
    (runs : RunsAgain config first last) :
    Settled config last ∧ declarations config last = declarations config first := by
  induction runs with
  | done => exact ⟨settled, rfl⟩
  | inMemory _ timed inductionHypothesis =>
      obtain ⟨before, count⟩ := inductionHypothesis
      obtain ⟨after, same⟩ := before.timed timed
      exact ⟨after, same.trans count⟩
  | written _ encoded found timed inductionHypothesis =>
      obtain ⟨before, count⟩ := inductionHypothesis
      exact ⟨settled_of_timed_read found timed,
        (before.declarations_of_written encoded found timed).trans count⟩

/-- The bytes of a class that is written over a sound pool start with the constants of the pool. -/
theorem exists_pool_of_write
    {options : WriteOptions}
    {hierarchy : Hierarchy}
    {written : Bytes}
    (sound : input.pool.Sound)
    (encoded : input.writeWith options hierarchy = .ok written) :
    ∃ pool rest,
      Pool.reader (written.drop 8) = .ok (pool, rest) ∧
        input.pool.entries.toList <+: pool.entries.toList := by
  obtain ⟨parts, writtenAs, rfl⟩ := ClassModel.exists_parts_of_writeWith sound encoded
  obtain ⟨pool, reads, same⟩ :=
    Pool.exists_reads_of_encode writtenAs.grows.sound writtenAs.poolEncoded
  refine ⟨pool, parts.content input.access, reads _, ?_⟩
  rw [same]
  exact writtenAs.grows.kept.isPrefix

/--
Timing a class that was read changes only what it says.  The timed class keeps the
rest, its pool comes first in whatever it is written as, and the field is declared
as often after any number of further runs as after the first.
-/
theorem keeps_of_timed_read
    {bytes : Bytes}
    {outcome : Timer.Outcome}
    (found : ClassModel.read bytes = .ok input)
    (timed : timed config input = .ok (output, outcome)) :
    Keeps config input output ∧
      (∀ options hierarchy written, output.writeWith options hierarchy = .ok written →
        ∃ pool rest,
          Pool.reader (written.drop 8) = .ok (pool, rest) ∧
            input.pool.entries.toList <+: pool.entries.toList) ∧
      ∀ last, RunsAgain config output last →
        declarations config last = declarations config output := by
  have regular := ClassModel.regular_of_read found
  have kept :=
    keeps_of_timed (fun _ member _ held => (regular.nonempty_closed member held).1) timed
  refine ⟨kept, fun options hierarchy written encoded => ?_,
    fun last runs => ((settled_of_timed_read found timed).runsAgain runs).2⟩
  rw [← kept.pool]
  exact exists_pool_of_write (kept.pool ▸ regular.adopted.sound) encoded

/-- Timing the loop declares the field, and no further run declares it again. -/
theorem keeps_of_wideLoop :
    ∃ input output outcome,
      ClassModel.read ClassModel.wideLoop = .ok input ∧
        timed { methodDescriptor := "(I)V", strategy := .localScoped } input =
            .ok (output, outcome) ∧
          declarations { methodDescriptor := "(I)V", strategy := .localScoped } input = 0 ∧
            Keeps { methodDescriptor := "(I)V", strategy := .localScoped } input output ∧
              ∀ last,
                RunsAgain { methodDescriptor := "(I)V", strategy := .localScoped } output last →
                  declarations { methodDescriptor := "(I)V", strategy := .localScoped } last = 1 := by
  generalize chosen :
    ({ methodDescriptor := "(I)V", strategy := .localScoped } : TimerConfig) = config
  have evaluated :
      (ClassModel.read ClassModel.wideLoop).toOption.map (fun input =>
          (declarations config input, (timed config input).toOption.map fun result =>
            declarations config result.1)) =
        some (0, some 1) := by
    subst chosen
    decide +kernel
  cases found : ClassModel.read ClassModel.wideLoop with
  | error => simp [found, Except.toOption] at evaluated
  | ok input =>
      cases timed : timed config input with
      | error => simp [found, timed, Except.toOption] at evaluated
      | ok result =>
          simp only [found, timed, Except.toOption, Option.map_some, Option.some.injEq,
            Prod.mk.injEq] at evaluated
          obtain ⟨undeclared, once⟩ := evaluated
          obtain ⟨kept, _, stable⟩ := keeps_of_timed_read found timed
          exact ⟨input, result.1, result.2, rfl, timed, undeclared, kept,
            fun last runs => (stable last runs).trans once⟩

end Instrument
end JvmClass
