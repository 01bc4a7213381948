import JvmClass.Verify.Effect

namespace JvmClass

/-!
# Defects

What checking a class can find.  A defect names the method and the offset it was
found at, as far as there are any.
-/

/-- The kinds of defect. -/
inductive DefectKind where
  | malformed
  | stackUnderflow
  | stackOverflow
  | stackHeightMismatch
  | uninitializedLocal
  | localOutOfRange
  | badBranchTarget
  | missingFrame
  | fallsOffEnd
  | returnMismatch
  | unsupported
  | inconsistentFrame
  deriving Repr, DecidableEq

/-- The name of a kind. -/
def DefectKind.name : DefectKind → String
  | .malformed => "Malformed"
  | .stackUnderflow => "StackUnderflow"
  | .stackOverflow => "StackOverflow"
  | .stackHeightMismatch => "StackHeightMismatch"
  | .uninitializedLocal => "UninitializedLocal"
  | .localOutOfRange => "LocalOutOfRange"
  | .badBranchTarget => "BadBranchTarget"
  | .missingFrame => "MissingFrame"
  | .fallsOffEnd => "FallsOffEnd"
  | .returnMismatch => "ReturnMismatch"
  | .unsupported => "Unsupported"
  | .inconsistentFrame => "InconsistentFrame"

/-- What was found. -/
inductive Finding where
  | unreadable (error : ReadError)
  | unnamedMethod
  | invalidDescriptor (descriptor : String)
  | emptyCode
  | fallsOffEnd
  | stackUnderflow (opcode : Opcode) (pops depth : UInt16)
  | stackOverflow (depth maxStack : UInt16)
  | stackHeightMismatch (here there source : UInt16)
  | uninitializedLocal (opcode : Opcode) (slot : Nat)
  /-- A read beyond the local variables. -/
  | readOutOfRange (slot count : Nat)
  /-- A write, or a parameter, beyond the local variables. -/
  | writeOutOfRange (slot width count : Nat)
  | badBranchTarget (target : UInt16)
  | missingFrame
  | returnMismatch (opcode : Opcode) (result : String)
  | unsupported (fault : EffectFault)
  | inconsistentFrame (conflict : FrameConflict)
  deriving Repr, DecidableEq

namespace Finding

/-- The kind of a finding. -/
def kind : Finding → DefectKind
  | .unreadable _ | .unnamedMethod | .invalidDescriptor _ => .malformed
  | .emptyCode | .fallsOffEnd => .fallsOffEnd
  | .stackUnderflow _ _ _ => .stackUnderflow
  | .stackOverflow _ _ => .stackOverflow
  | .stackHeightMismatch _ _ _ => .stackHeightMismatch
  | .uninitializedLocal _ _ => .uninitializedLocal
  | .readOutOfRange _ _ | .writeOutOfRange _ _ _ => .localOutOfRange
  | .badBranchTarget _ => .badBranchTarget
  | .missingFrame => .missingFrame
  | .returnMismatch _ _ => .returnMismatch
  | .unsupported _ => .unsupported
  | .inconsistentFrame _ => .inconsistentFrame

/-- The wording of a finding. -/
def message : Finding → String
  | .unreadable error => error.message
  | .unnamedMethod => "method name or descriptor is not a utf8 entry"
  | .invalidDescriptor descriptor => s!"invalid descriptor {descriptor}"
  | .emptyCode => "empty code"
  | .fallsOffEnd => "execution falls off the end of the code"
  | .stackUnderflow opcode pops depth =>
      s!"{opcode.mnemonic} pops {pops} with {depth} on the stack"
  | .stackOverflow depth maxStack => s!"stack depth {depth} exceeds max_stack {maxStack}"
  | .stackHeightMismatch here there source =>
      s!"stack depth {here} here but {there} from offset {source}"
  | .uninitializedLocal opcode slot =>
      s!"{opcode.mnemonic} reads local {slot} before it is assigned"
  | .readOutOfRange slot count => s!"local {slot} exceeds max_locals {count}"
  | .writeOutOfRange slot width count =>
      s!"local {slot} (width {width}) exceeds max_locals {count}"
  | .badBranchTarget target => s!"target {target} is not an instruction boundary"
  | .missingFrame => "no stack map frame at a branch target or handler"
  | .returnMismatch opcode result => s!"{opcode.mnemonic} in a method returning {result}"
  | .unsupported fault => fault.message
  | .inconsistentFrame conflict => conflict.message

end Finding

/-- A finding and where it was made. -/
structure Defect where
  finding : Finding
  /-- The name and descriptor of the method. -/
  method : Option String
  offset : Option UInt16
  deriving Repr, DecidableEq

namespace Defect

/-- A defect in one line. -/
def text (defect : Defect) : String :=
  let place :=
    match defect.method, defect.offset with
    | some method, some offset => s!"{method}@{offset}: "
    | some method, none => s!"{method}: "
    | none, _ => ""
  place ++ defect.finding.kind.name ++ ": " ++ defect.finding.message

end Defect
end JvmClass
