import JvmClass.Instrument
import JvmClass.Proofs.Event
import JvmClass.Proofs.Weave.Blocks

namespace JvmClass

/-!
# What timing leaves alone

Timing a class weaves into the bodies of the methods that the configuration
names, may rename the class and may declare one more field.  Every other part of
the class comes out as it went in.
-/

namespace Timer

variable (config : TimerConfig)

/-- The parts of the body of a method that it has as it is. -/
def bodyEvents (method : Method) : List BodyEvent :=
  (method.body.map Body.events).getD []

/-- The parts of the body of a method in a class that comes out under some name. -/
def timedEvents (className : String) (method : Method) : List BodyEvent :=
  if config.isTarget method.name method.descriptor then
    (weaveBody config className method.header (bodyEvents method)).events
  else
    bodyEvents method

/-- What timing makes of a method. -/
def timedMethod (className : String) (method : Method) : Method :=
  { method with body := Body.ofEvents? (timedEvents config className method) }

theorem timePart_event
    (className : String)
    (method : Method) :
    (timePart config className method.event).1 =
      .method method.header (some (timedEvents config className method)) := by
  unfold timedEvents
  by_cases target : config.isTarget method.name method.descriptor = true <;>
    simp [Method.event, timePart, Method.header, target, bodyEvents]

/-- A method that is no target is the same in every part. -/
theorem timedMethod_of_not_target
    {method : Method}
    (other : config.isTarget method.name method.descriptor = false)
    (className : String) :
    timedMethod config className method = method := by
  obtain ⟨access, name, descriptor, body, attributes⟩ := method
  have kept : Body.ofEvents? ((body.map Body.events).getD []) = body := by
    cases body with
    | none => rfl
    | some body => exact body.ofEvents?_events
  simp only at other
  simp only [timedMethod, timedEvents, other, bodyEvents, Bool.false_eq_true, if_false, kept]

/-- The parts of a timed class. -/
theorem events_time
    (model : ClassModel) :
    (time config model.events).events =
      .header { model.header with name := config.newName.getD model.name } ::
        model.fields.map .field ++
          model.methods.map (fun method =>
            .method method.header
              (some (timedEvents config (config.newName.getD model.name) method))) ++
        model.attributes.map .classAttribute ++
        if model.fields.any (fun field => isCounter config (.field field)) then
          []
        else
          [.field (counterDeclaration config)] := by
  have name : className config model.events = config.newName.getD model.name := rfl
  have counter :
      model.events.any (isCounter config) =
        model.fields.any fun field => isCounter config (.field field) := by
    simp [ClassModel.events, isCounter, Method.event, Function.comp_def]
  have front (header : ClassHeader) (name : String) :
      timePart config name (.header header) = (.header { header with name }, none) := rfl
  have field (name : String) (field : Field) :
      timePart config name (.field field) = (.field field, none) := rfl
  have behind (name : String) (item : Attribute) :
      timePart config name (.classAttribute item) = (.classAttribute item, none) := rfl
  simp only [time, name, counter]
  cases model.fields.any fun field => isCounter config (.field field) <;>
    simp [ClassModel.events, Function.comp_def, timePart_event, front, field, behind]

/-- A timed class, with what timing made of its methods and perhaps one more field. -/
theorem ofEvents_time
    (model : ClassModel) :
    ClassModel.ofEvents model.pool (time config model.events).events =
      { model with
        name := config.newName.getD model.name
        fields :=
          model.fields ++
            if model.fields.any (fun field => isCounter config (.field field)) then
              []
            else
              [counterDeclaration config]
        methods := model.methods.map (timedMethod config (config.newName.getD model.name)) } := by
  have methods (method : Method) :
      ClassEvent.method?
          (.method method.header
            (some (timedEvents config (config.newName.getD model.name) method))) =
        some (timedMethod config (config.newName.getD model.name) method) :=
    rfl
  have front (header : ClassHeader) : (ClassEvent.header header).method? = none := rfl
  have field (field : Field) : (ClassEvent.field field).method? = none := rfl
  have behind (item : Attribute) : (ClassEvent.classAttribute item).method? = none := rfl
  rw [events_time]
  cases model.fields.any fun field => isCounter config (.field field) <;>
    simp [ClassModel.ofEvents, Function.comp_def, List.filterMap_cons, List.filterMap_map,
      ClassEvent.header?, ClassEvent.field?, ClassEvent.classAttribute?, ClassModel.header,
      methods, front, field, behind]

/-! ## Bodies -/

/-- The code of a strategy is woven by some weaver for the method. -/
theorem exists_weaver
    (className : String)
    (header : MethodHeader) :
    ∃ (Memory : Type) (weaver : Weaver Memory) (memory : Memory),
      ∀ events, weaveBody config className header events = weaver.weave memory events := by
  unfold weaveBody
  cases config.strategy with
  | fieldCounter | localScoped | structuredAdvice => exact ⟨_, _, _, fun _ => rfl⟩

/-- A timed method has a body if it had one, with the same local variables in its table. -/
theorem locals_timedMethod
    {method : Method}
    (nonempty : ∀ body, method.body = some body → body.nodes.isEmpty = false)
    (className : String) :
    (timedMethod config className method).body.map Body.locals = method.body.map Body.locals := by
  by_cases target : config.isTarget method.name method.descriptor = true
  · obtain ⟨Memory, weaver, memory, woven⟩ := exists_weaver config className method.header
    simp only [timedMethod, timedEvents, target, if_true, woven, bodyEvents]
    cases held : method.body with
    | none => rfl
    | some body =>
        have collected := weaver.ofEvents?_weave memory body (nonempty body held)
        simp only [Option.map_some, Option.getD_some, collected]
        rfl
  · rw [timedMethod_of_not_target config (Bool.eq_false_iff.mpr target)]

/-- A timed method has as many bodies as it had. -/
theorem length_body_timedMethod
    {method : Method}
    (nonempty : ∀ body, method.body = some body → body.nodes.isEmpty = false)
    (className : String) :
    (timedMethod config className method).body.toList.length = method.body.toList.length := by
  have same :=
    congrArg (List.length ∘ Option.toList) (locals_timedMethod config nonempty className)
  simpa [Option.length_toList] using same

end Timer
end JvmClass
