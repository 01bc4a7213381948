import JvmClass.Descriptor
import JvmClass.Opcode
import JvmClass.Text.ModifiedUtf8
import JvmClass.Frame.SlotType

namespace JvmClass

/-!
# Errors

Each stage fails with a cause of its own: reading a class file, typing a method
body, writing a class file.  The wording of every cause is in its `message`.  A
pool index that leads nowhere stays one when it passes from one stage to the
next; any other cause is wrapped.
-/

/-- The wording of an invalid descriptor. -/
def InvalidDescriptor.message (error : InvalidDescriptor) : String :=
  s!"invalid descriptor {Text.quote error.text}"

/-! ## Reading -/

/-- What a size limit applies to. -/
inductive Measured where
  | classFile
  | methodBody
  deriving Repr, DecidableEq

/-- The wording of what is measured. -/
def Measured.describe : Measured → String
  | .classFile => "class file"
  | .methodBody => "method body"

/-- Why bytes are no class file. -/
inductive ReadError where
  | endOfInput
  | magic (found : UInt32)
  | version (major : UInt16)
  | constantTag (tag : UInt8)
  | poolIndex (index : UInt16)
  | attribute (name : String)
  | undefinedOpcode (opcode : Opcode) (offset : Nat)
  | branchTarget (offset : Nat) (target : Int)
  | text (fault : ModifiedUtf8.Fault)
  | tooLarge (what : Measured) (size limit : Nat)
  | trailingBytes (count : Nat)
  | descriptor (error : InvalidDescriptor)
  deriving Repr, DecidableEq

/-- The wording of each cause. -/
def ReadError.message : ReadError → String
  | .endOfInput => "unexpected end of input"
  | .magic found => s!"invalid magic 0x{Text.hexadecimal 8 found.toNat}"
  | .version major => s!"invalid class major version {major}"
  | .constantTag tag => s!"invalid constant pool tag {tag}"
  | .poolIndex index => s!"invalid constant pool index {index}"
  | .attribute name => s!"invalid attribute {name}"
  | .undefinedOpcode opcode offset => s!"invalid opcode 0x{Text.hexadecimal 2 opcode.toNat} at {offset}"
  | .branchTarget offset target =>
      s!"branch at {offset} targets {target}, which is not an instruction boundary"
  | .text fault => s!"modified utf8 error: {fault.message}"
  | .tooLarge what size limit =>
      s!"{what.describe} of {size} bytes exceeds the limit of {limit}"
  | .trailingBytes count => s!"{count} trailing bytes after the class structure"
  | .descriptor error => error.message

/-! ## Typing method bodies -/

/-- Why the frames of a method body do not fit together. -/
inductive FrameConflict where
  | stackHeights (left right : Nat)
  | noCommonSuperclass (left right : SlotType)
  | incompatibleStack (left right : SlotType)
  | declaredHeight (computed declared : Nat)
  | fallsOffEnd
  | unreachable
  | unmergedLocal (index : UInt16)
  | chop (count : UInt8) (available : Nat)
  | declaredLocals (count : Nat) (bound : UInt16)
  | outOfOrder
  deriving Repr, DecidableEq

/-- The wording of each conflict. -/
def FrameConflict.message : FrameConflict → String
  | .stackHeights left right => s!"stack height {left} vs {right}"
  | .noCommonSuperclass left right =>
      s!"no known common superclass of {left.describe} and {right.describe}"
  | .incompatibleStack left right =>
      s!"incompatible stack values {left.describe} and {right.describe}"
  | .declaredHeight computed declared =>
      s!"stack height {computed} where the original frame declares {declared}"
  | .fallsOffEnd => "execution falls off the end of the code"
  | .unreachable => "unreachable code"
  | .unmergedLocal index => s!"local {index} holds classes with no known common superclass"
  | .chop count available => s!"chop of {count} locals from {available}"
  | .declaredLocals count bound =>
      s!"declared frame has {count} locals, max_locals is {bound}"
  | .outOfOrder => "frames out of order"

/-- Why the type analysis of a method body stops. -/
inductive AnalysisError where
  | tooManyLocals
  | stackTooDeep
  | iterationLimit
  | missingState (offset : UInt16)
  | noInstruction (offset : UInt16)
  | stackUnderflow (offset : UInt16)
  | splitsWideValue (mnemonic : String) (offset : UInt16)
  | arrayType (code : Int32)
  | subroutine (offset : UInt16)
  | unresolvedMember (offset : UInt16)
  | descriptor (error : InvalidDescriptor)
  | unreadable (error : ReadError)
  deriving Repr, DecidableEq

/-- The wording of each cause. -/
def AnalysisError.message : AnalysisError → String
  | .tooManyLocals => "too many locals"
  | .stackTooDeep => "stack too deep"
  | .iterationLimit => "frame analysis exceeded iteration limit"
  | .missingState offset => s!"missing frame at {offset}"
  | .noInstruction offset => s!"no instruction at offset {offset}"
  | .stackUnderflow offset => s!"stack underflow at {offset}"
  | .splitsWideValue mnemonic offset => s!"{mnemonic} on a long or double at {offset}"
  | .arrayType code => s!"invalid newarray type {code}"
  | .subroutine offset => s!"jsr/ret not supported at {offset}"
  | .unresolvedMember offset => s!"unresolved member reference at {offset}"
  | .descriptor error => error.message
  | .unreadable error => error.message

/-! ## Writing -/

/-- Why a class cannot be written. -/
inductive WriteError where
  | unresolvedReference (index : UInt16)
  | poolOverflow (entries : Nat)
  | textTooLong (bytes : Nat)
  | undefinedOpcode (opcode : Opcode) (offset : Nat)
  | unplacedLabel (label : Nat)
  | branchOutOfRange (distance : Int)
  | codeTooLarge (bytes : Nat)
  | inconsistentFrame (offset : UInt16) (conflict : FrameConflict)
  | analysis (cause : AnalysisError)
  deriving Repr, DecidableEq

/-- The wording of each cause. -/
def WriteError.message : WriteError → String
  | .unresolvedReference index => s!"unresolved constant pool reference {index}"
  | .poolOverflow entries => s!"constant pool overflow: {entries} entries"
  | .textTooLong bytes => s!"string constant of {bytes} encoded bytes is too long"
  | .undefinedOpcode opcode offset =>
      s!"invalid opcode 0x{Text.hexadecimalUpper 2 opcode.toNat} at offset {offset}"
  | .unplacedLabel label => s!"label {label} is used but never placed"
  | .branchOutOfRange distance =>
      s!"branch offset {distance} does not fit the instruction encoding"
  | .codeTooLarge bytes => s!"method body of {bytes} bytes is too large"
  | .inconsistentFrame offset conflict =>
      s!"inconsistent frame at offset {offset}: {conflict.message}"
  | .analysis cause => s!"frame computation error: {cause.message}"

/-- A dangling pool index stays one; any other reading error stops the analysis. -/
def WriteError.ofRead : ReadError → WriteError
  | .poolIndex index => .unresolvedReference index
  | error => .analysis (.unreadable error)

/-- An invalid descriptor stops the analysis. -/
def WriteError.ofDescriptor (error : InvalidDescriptor) : WriteError :=
  .analysis (.descriptor error)

end JvmClass
