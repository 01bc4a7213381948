import JvmClass.Event.Receiver
import JvmClass.Trace.Names

namespace JvmClass.Trace

/-!
# Readable traces of classes

A trace shows a class line by line, in the order of its parts.  A tracer writes it
while it passes the class on as it is, so a trace can be taken in front of any stage.
-/

/-- A field with its owner and its descriptor. -/
def fieldName (member : Member) : String :=
  s!"{member.owner}.{member.name} : {member.descriptor}"

/-- A method with its owner and its descriptor. -/
def methodName (member : Member) : String :=
  s!"{member.owner}.{member.name} {member.descriptor}"

/-- The member of an access or a call. -/
def memberOperand (pool : Option Pool) (name : Member → String) : MemberRef → String
  | .named owner plain descriptor => name ⟨owner, plain, descriptor⟩
  | .index index => ((memberAt? pool index).map name).getD s!"Index({index})"

/-- Operand of a load of a constant. -/
def constantOperand (pool : Option Pool) : LoadedConstant → String
  | .text value => Text.quote value
  | .index index => (pool.map fun pool => constant pool index).getD (number index)

/-- The lines of a switch behind its mnemonic. -/
def switchLines (cases : List (Int × Label)) (default : Label) : String :=
  String.join (cases.map fun (key, target) => s!"\n      {key}: L{target}")
    ++ s!"\n      default: L{default}"

/-- The targets of a switch over a range of keys, with their keys. -/
def rangeCases (low : Int) (targets : List Label) : List (Int × Label) :=
  targets.zipIdx.map fun (target, position) => (low + position, target)

/-- Operands of an instruction, with a blank or a line break in front if there are any. -/
def operands (pool : Option Pool) : Insn → String
  | .plain _ => ""
  | .immediate opcode operand =>
      if opcode = Opcode.newArray then " " ++ arrayTypeName operand
      else " " ++ toString operand.toInt
  | .slot _ index => s!" {index}"
  | .classRef _ index => " " ++ className pool index
  | .field _ target => " " ++ memberOperand pool fieldName target
  | .method _ target => " " ++ memberOperand pool methodName target
  | .interfaceMethod _ index _ =>
      match memberAt? pool index with
      | some member => s!" {methodName member} (itf)"
      | none => " " ++ number index
  | .callSite _ index => " " ++ callSite pool index
  | .jump _ target => s!" L{target}"
  | .load _ value => " " ++ constantOperand pool value
  | .increment _ index amount => s!" {index} {amount.toInt}"
  | .tableSwitch _ default low _ targets => switchLines (rangeCases low.toInt targets) default
  | .lookupSwitch _ default pairs =>
      switchLines (pairs.map fun (key, target) => (key.toInt, target)) default
  | .multiArray _ index dimensions => s!" {className pool index} {dimensions}"

/-- An instruction. -/
def insn (pool : Option Pool) (item : Insn) : String :=
  item.opcode.mnemonic ++ operands pool item

/-- A frame.  Whether it is short or extended is not shown. -/
def frame (pool : Option Pool) : StackMap.Frame → String
  | .same _ | .sameExtended _ => "SAME"
  | .oneStack _ value | .oneStackExtended _ value => "SAME1 " ++ typeName pool value
  | .chop _ count => s!"CHOP {count}"
  | .append _ locals => "APPEND " ++ typeNames pool locals
  | .full _ locals stack => s!"FULL {typeNames pool locals} {typeNames pool stack}"

/-- A line inside a body. -/
def line (text : String) : String :=
  s!"    {text}\n"

/-- A node of a body.  Labels stand out to the left. -/
def node (pool : Option Pool) : Node → String
  | .label placed => s!"   L{placed}\n"
  | .line number start => line s!"LINENUMBER {number} L{start}"
  | .insn item => line (insn pool item)

/-- A part of a body. -/
def bodyEvent (pool : Option Pool) : BodyEvent → String
  | .code _ _ _ | .hints _ => ""
  | .handler ⟨start, stop, handler, catchType⟩ =>
      line (s!"TRYCATCHBLOCK L{start} L{stop} L{handler} " ++ catchType.getD "null")
  | .frame placed => line s!"FRAME {frame pool placed.frame} at L{placed.label}"
  | .node item => node pool item
  | .localVariable ⟨name, descriptor, start, stop, index⟩ =>
      line s!"LOCALVARIABLE {name} {descriptor} L{start} L{stop} {index}"
  | .codeAttribute item => line s!"ATTRIBUTE {item.name}"
  | .maxima maxStack maxLocals =>
      line s!"MAXSTACK = {maxStack}" ++ line s!"MAXLOCALS = {maxLocals}"

/-- Access flags as a number, on a line of their own. -/
def flags (access : UInt16) : String :=
  s!"// access flags 0x{Text.hexadecimalUpper 1 access.toNat}\n"

/-- The header of a class. -/
def header (front : ClassHeader) : String :=
  let kind := if Access.isInterface front.access then "interface" else "class"
  let parent := (front.superName.map fun name => s!" extends {name}").getD ""
  let interfaces :=
    if front.interfaces.isEmpty then ""
    else " implements " ++ " ".intercalate front.interfaces
  s!"// class version {front.major}.{front.minor} ({front.major})\n" ++ flags front.access
    ++ accessWords .aClass front.access ++ s!"{kind} {front.name}" ++ parent ++ interfaces
    ++ " \x7b\n\n"

/-- A field. -/
def field (item : Field) : String :=
  "  " ++ flags item.access ++ "  " ++ accessWords .aField item.access
    ++ s!"{item.descriptor} {item.name}\n\n"

/-- A method.  An empty line follows its body. -/
def method (pool : Option Pool) (front : MethodHeader) (body : Option (List BodyEvent)) :
    String :=
  let content :=
    match body with
    | some events => String.join (events.map (bodyEvent pool)) ++ "\n"
    | none => ""
  "  " ++ flags front.access ++ "  " ++ accessWords .aMethod front.access ++ front.name
    ++ front.descriptor ++ "\n" ++ content

/-- A part of a class. -/
def classEvent (pool : Option Pool) : ClassEvent → String
  | .header front => header front
  | .field item => field item
  | .method front body => method pool front body
  | .classAttribute item => s!"  ATTRIBUTE {item.name}\n"

/-- The trace of a class, with the pool that its numbers refer to. -/
def text (pool : Option Pool) (events : List ClassEvent) : String :=
  String.join (events.map (classEvent pool)) ++ "\x7d\n"

/-- What tracing gives: the trace, and the class for the next stage. -/
structure Traced where
  text : String
  events : List ClassEvent

/-- Traces a class on its way to a receiver, which may decline methods that are traced. -/
def trace (pool : Option Pool) (accepts : MethodHeader → Bool) (events : List ClassEvent) :
    Traced :=
  ⟨text pool events, events.map (ClassEvent.offer accepts)⟩

/-! ## Tracing part by part -/

/-- The trace so far, and the receiver that the class is passed on to. -/
structure Tracing (State : Type) where
  text : String
  next : State
  /-- Whether that receiver has taken the latest method. -/
  taken : Bool

namespace Tracing

variable {State : Type}

/-- Writes to the trace. -/
def write (tracing : Tracing State) (text : String) : Tracing State :=
  { tracing with text := tracing.text ++ text }

/-- Passes on a part that stands outside of methods. -/
def forward (tracing : Tracing State) (pass : State → State) : Tracing State :=
  { tracing with next := pass tracing.next }

/-- Passes on a part of the latest method, if it was taken. -/
def forwardTaken (tracing : Tracing State) (pass : State → State) : Tracing State :=
  { tracing with next := if tracing.taken then pass tracing.next else tracing.next }

end Tracing

/--
Traces a class as its parts come, with the pool that its numbers refer to, and passes
each of them on.  It takes every method, since what the receiver declines is traced too.
-/
def tracer {State : Type} (pool : Option Pool) (receiver : Receiver State) :
    Receiver (Tracing State) where
  header tracing front :=
    (tracing.write (header front)).forward fun next => receiver.header next front
  field tracing item :=
    (tracing.write (field item)).forward fun next => receiver.field next item
  method tracing front :=
    let (next, taken) := receiver.method tracing.next front
    ({ tracing.write (method pool front none) with next, taken }, true)
  code tracing maxStack maxLocals freeLabel :=
    tracing.forwardTaken fun next => receiver.code next maxStack maxLocals freeLabel
  handler tracing handler :=
    (tracing.write (bodyEvent pool (.handler handler))).forwardTaken
      fun next => receiver.handler next handler
  frame tracing frame :=
    (tracing.write (bodyEvent pool (.frame frame))).forwardTaken
      fun next => receiver.frame next frame
  node tracing item :=
    (tracing.write (node pool item)).forwardTaken fun next => receiver.node next item
  localVariable tracing entry :=
    (tracing.write (bodyEvent pool (.localVariable entry))).forwardTaken
      fun next => receiver.localVariable next entry
  codeAttribute tracing item :=
    (tracing.write (bodyEvent pool (.codeAttribute item))).forwardTaken
      fun next => receiver.codeAttribute next item
  hints tracing hints := tracing.forwardTaken fun next => receiver.hints next hints
  maxima tracing maxStack maxLocals :=
    (tracing.write (bodyEvent pool (.maxima maxStack maxLocals))).forwardTaken
      fun next => receiver.maxima next maxStack maxLocals
  methodEnd tracing := (tracing.write "\n").forwardTaken receiver.methodEnd
  classAttribute tracing item :=
    (tracing.write (classEvent pool (.classAttribute item))).forward
      fun next => receiver.classAttribute next item
  classEnd tracing := (tracing.write "\x7d\n").forward receiver.classEnd

end JvmClass.Trace
