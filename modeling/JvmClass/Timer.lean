import JvmClass.Access
import JvmClass.Pool
import JvmClass.Weave

namespace JvmClass.Timer

/-!
# Timing a method of a class

Timing changes the methods that the configuration names, renames the class if
asked, and declares the field for the time unless the class has it.
-/

/-!
## Code that takes the time

Both ways of timing leave the sum of `exit - entry` over all calls in a static
field of type `long`.
-/

/-- An access to a static field. -/
def fieldInsn (opcode : Opcode) (field : Member) : Insn :=
  .field opcode (.named field.owner field.name field.descriptor)

/-- Puts the time on the stack. -/
def readClock (clock : Clock) : Insn :=
  .method Opcode.invokeStatic (.named clock.owner clock.name Clock.descriptor)

/-- Changes a field by the time: `combine` takes the value of the field and the time. -/
def changeField (field : Member) (clock : Clock) (combine : Opcode) : Snippet :=
  .ofInsns [
    fieldInsn Opcode.getStatic field,
    readClock clock,
    .plain combine,
    fieldInsn Opcode.putStatic field
  ]

/-- Subtracts the time of entry from a field and adds the time of each exit. -/
def fieldCounter (field : Member) (clock : Clock) : Advice Unit where
  enter memory slots := (changeField field clock Opcode.lsub, slots, memory)
  exit _ _ := changeField field clock Opcode.ladd

/-- Adds the time since the one in a local variable to a field. -/
def addElapsed (field : Member) (clock : Clock) (slot : UInt16) : Snippet :=
  .ofInsns [
    readClock clock,
    .slot Opcode.lload slot,
    .plain Opcode.lsub,
    fieldInsn Opcode.getStatic field,
    .plain Opcode.ladd,
    fieldInsn Opcode.putStatic field
  ]

/--
Keeps the time of entry in a local variable and adds the difference to a field
at each exit.  The slot of the variable is known from the entry on.
-/
def localScoped (field : Member) (clock : Clock) : Advice (Option UInt16) where
  enter memory slots :=
    match slots.allot 2 with
    | (.ok slot, slots) =>
        (.ofInsns [readClock clock, .slot Opcode.lstore slot], slots, some slot)
    | (.error conflict, slots) => (.failed (.slotConflict conflict), slots, memory)
  exit memory _ :=
    match memory with
    | some slot => addElapsed field clock slot
    | none => .ofInsns []

/-! ## Timed classes -/

/-- What timing did to a class. -/
structure Outcome where
  /-- The name and descriptor of every method that was timed. -/
  methods : List String
  /-- Whether the field was added. -/
  fieldAdded : Bool
  deriving Repr, DecidableEq

/-- The parts of a timed class, what was done, and the first failure. -/
structure Timed where
  events : List ClassEvent
  outcome : Outcome
  failure : Option RunError

/-- The field that the time is added to. -/
def counterField (config : TimerConfig) (className : String) : Member :=
  ⟨className, config.fieldName, config.fieldDescriptor⟩

/-- The declaration of that field. -/
def counterDeclaration (config : TimerConfig) : Field where
  access := Access.privateFlag ||| Access.staticFlag
  name := config.fieldName
  descriptor := config.fieldDescriptor
  attributes := []

/-- Weaves the code of the configured strategy into a body. -/
def weaveBody (config : TimerConfig) (className : String) (header : MethodHeader)
    (events : List BodyEvent) : WovenBody :=
  let field := counterField config className
  let weaver {Memory : Type} (advice : Advice Memory) (detection : ExitDetection) :
      Weaver Memory := ⟨advice, detection, header.access, header.descriptor⟩
  match config.strategy with
  | .fieldCounter => (weaver (fieldCounter field config.clock) .explicit).weave () events
  | .localScoped => (weaver (localScoped field config.clock) .explicit).weave none events
  | .structuredAdvice => (weaver (fieldCounter field config.clock) .guarded).weave () events

/-- Whether a part is a method to be timed. -/
def target? (config : TimerConfig) : ClassEvent → Option MethodHeader
  | .method header _ => if config.isTarget header.name header.descriptor then some header else none
  | _ => none

/-- Whether a part is the field that the time is added to. -/
def isCounter (config : TimerConfig) : ClassEvent → Bool
  | .field field => field.name == config.fieldName && field.descriptor == config.fieldDescriptor
  | _ => false

/-- Times one part of a class. -/
def timePart (config : TimerConfig) (className : String) (event : ClassEvent) :
    ClassEvent × Option RunError :=
  match event with
  | .header header => (.header { header with name := className }, none)
  | .method header (some body) =>
      if config.isTarget header.name header.descriptor then
        let woven := weaveBody config className header body
        (.method header (some woven.events), woven.failure)
      else
        (event, none)
  | other => (other, none)

/-- The name of a class after timing. -/
def className (config : TimerConfig) (events : List ClassEvent) : String :=
  let given := events.findSome? fun
    | .header header => some header.name
    | _ => none
  config.newName.getD (given.getD "")

/-- Times the methods of a class that the configuration names. -/
def time (config : TimerConfig) (events : List ClassEvent) : Timed :=
  let parts := events.map (timePart config (className config events))
  let targets := events.filterMap (target? config)
  let fieldAdded := !events.any (isCounter config)
  {
    events := parts.map Prod.fst
      ++ if fieldAdded then [.field (counterDeclaration config)] else []
    outcome := ⟨targets.map fun header => header.name ++ header.descriptor, fieldAdded⟩
    failure := parts.findSome? Prod.snd
  }

end JvmClass.Timer
