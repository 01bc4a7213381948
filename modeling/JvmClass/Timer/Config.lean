import JvmClass.Error
import JvmClass.Hierarchy

namespace JvmClass

/-!
# What to time and how

A configuration names the method to time, the static field that the time is
added to, the clock and the strategy.
-/

/-- How the time that a method takes is measured. -/
inductive Strategy where
  /-- Subtracts the time of entry from the field and adds the time of each exit. -/
  | fieldCounter
  /-- Keeps the time of entry in a local variable and adds the difference at each exit. -/
  | localScoped
  /-- As `fieldCounter`, with a handler for the exits by an exception. -/
  | structuredAdvice
  deriving Repr, DecidableEq

/-- The name of a strategy. -/
def Strategy.name : Strategy → String
  | .fieldCounter => "field-counter"
  | .localScoped => "local-scoped"
  | .structuredAdvice => "structured-advice"

/-- A static method without parameters that gives the time as a `long`. -/
structure Clock where
  owner : String
  name : String
  deriving Repr, DecidableEq

namespace Clock

/-- The descriptor of every clock. -/
def descriptor : String := "()J"

/-- The clock that counts milliseconds. -/
def milliseconds : Clock :=
  ⟨"java/lang/System", "currentTimeMillis"⟩

/-- The clock that counts nanoseconds. -/
def nanoseconds : Clock :=
  ⟨"java/lang/System", "nanoTime"⟩

end Clock

/-- What is wrong with a configuration. -/
inductive ConfigFault where
  | emptyMethodName
  | methodDescriptor (error : InvalidDescriptor)
  | emptyFieldName
  | fieldDescriptor (descriptor : String)
  | incompleteClock
  | className
  deriving Repr, DecidableEq

/-- The wording of each fault. -/
def ConfigFault.message : ConfigFault → String
  | .emptyMethodName => "target method name is empty"
  | .methodDescriptor error => s!"target method descriptor: {error.message}"
  | .emptyFieldName => "counter field name is empty"
  | .fieldDescriptor descriptor =>
      s!"counter field must be a long (J), got {Text.quote descriptor}"
  | .incompleteClock => "clock owner and name are required"
  | .className => "renamed class must be a non-empty internal name"

/-- What to time and how. -/
structure TimerConfig where
  methodName : String := "m"
  methodDescriptor : String := "()V"
  fieldName : String := "timer"
  fieldDescriptor : String := "J"
  strategy : Strategy := .fieldCounter
  clock : Clock := .milliseconds
  /-- The name that the class is given, if it is to have another. -/
  newName : Option String := none
  /-- Whether a class whose frames cannot be computed is written without them. -/
  lenient : Bool := false
  /-- Where to look for superclasses. -/
  classPath : List ClassDirectory := []

namespace TimerConfig

/-- Fails with the first fault of a configuration. -/
def validate (config : TimerConfig) : Except ConfigFault Unit := do
  if config.methodName.isEmpty then
    throw .emptyMethodName
  let _ ← (MethodType.ofDescriptor config.methodDescriptor).mapError .methodDescriptor
  if config.fieldName.isEmpty then
    throw .emptyFieldName
  if config.fieldDescriptor ≠ "J" then
    throw (.fieldDescriptor config.fieldDescriptor)
  if config.clock.owner.isEmpty || config.clock.name.isEmpty then
    throw .incompleteClock
  if config.newName.any fun name => name.isEmpty || name.contains '.' then
    throw .className

/-- Whether a method is to be timed. -/
def isTarget (config : TimerConfig) (name descriptor : String) : Bool :=
  name == config.methodName && descriptor == config.methodDescriptor

end TimerConfig
end JvmClass
