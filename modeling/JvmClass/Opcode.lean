namespace JvmClass

/-!
# Opcodes

An instruction starts with one byte that names its operation.  This module
holds the mnemonics, the opcodes that other modules speak of by name, the shape
of the operands that follow each opcode, and the opcodes after which control
does not fall through to the next instruction.
-/

/-- The first byte of an instruction. -/
abbrev Opcode := UInt8

namespace Opcode

/-- The mnemonics of the opcodes from zero on, without a gap. -/
def mnemonics : Array String :=
  #[
    "NOP", "ACONST_NULL", "ICONST_M1", "ICONST_0", "ICONST_1", "ICONST_2", "ICONST_3",
    "ICONST_4", "ICONST_5", "LCONST_0", "LCONST_1", "FCONST_0", "FCONST_1", "FCONST_2",
    "DCONST_0", "DCONST_1", "BIPUSH", "SIPUSH", "LDC", "LDC_W", "LDC2_W", "ILOAD", "LLOAD",
    "FLOAD", "DLOAD", "ALOAD", "ILOAD_0", "ILOAD_1", "ILOAD_2", "ILOAD_3", "LLOAD_0",
    "LLOAD_1", "LLOAD_2", "LLOAD_3", "FLOAD_0", "FLOAD_1", "FLOAD_2", "FLOAD_3", "DLOAD_0",
    "DLOAD_1", "DLOAD_2", "DLOAD_3", "ALOAD_0", "ALOAD_1", "ALOAD_2", "ALOAD_3", "IALOAD",
    "LALOAD", "FALOAD", "DALOAD", "AALOAD", "BALOAD", "CALOAD", "SALOAD", "ISTORE", "LSTORE",
    "FSTORE", "DSTORE", "ASTORE", "ISTORE_0", "ISTORE_1", "ISTORE_2", "ISTORE_3", "LSTORE_0",
    "LSTORE_1", "LSTORE_2", "LSTORE_3", "FSTORE_0", "FSTORE_1", "FSTORE_2", "FSTORE_3",
    "DSTORE_0", "DSTORE_1", "DSTORE_2", "DSTORE_3", "ASTORE_0", "ASTORE_1", "ASTORE_2",
    "ASTORE_3", "IASTORE", "LASTORE", "FASTORE", "DASTORE", "AASTORE", "BASTORE", "CASTORE",
    "SASTORE", "POP", "POP2", "DUP", "DUP_X1", "DUP_X2", "DUP2", "DUP2_X1", "DUP2_X2", "SWAP",
    "IADD", "LADD", "FADD", "DADD", "ISUB", "LSUB", "FSUB", "DSUB", "IMUL", "LMUL", "FMUL",
    "DMUL", "IDIV", "LDIV", "FDIV", "DDIV", "IREM", "LREM", "FREM", "DREM", "INEG", "LNEG",
    "FNEG", "DNEG", "ISHL", "LSHL", "ISHR", "LSHR", "IUSHR", "LUSHR", "IAND", "LAND", "IOR",
    "LOR", "IXOR", "LXOR", "IINC", "I2L", "I2F", "I2D", "L2I", "L2F", "L2D", "F2I", "F2L",
    "F2D", "D2I", "D2L", "D2F", "I2B", "I2C", "I2S", "LCMP", "FCMPL", "FCMPG", "DCMPL",
    "DCMPG", "IFEQ", "IFNE", "IFLT", "IFGE", "IFGT", "IFLE", "IF_ICMPEQ", "IF_ICMPNE",
    "IF_ICMPLT", "IF_ICMPGE", "IF_ICMPGT", "IF_ICMPLE", "IF_ACMPEQ", "IF_ACMPNE", "GOTO",
    "JSR", "RET", "TABLESWITCH", "LOOKUPSWITCH", "IRETURN", "LRETURN", "FRETURN", "DRETURN",
    "ARETURN", "RETURN", "GETSTATIC", "PUTSTATIC", "GETFIELD", "PUTFIELD", "INVOKEVIRTUAL",
    "INVOKESPECIAL", "INVOKESTATIC", "INVOKEINTERFACE", "INVOKEDYNAMIC", "NEW", "NEWARRAY",
    "ANEWARRAY", "ARRAYLENGTH", "ATHROW", "CHECKCAST", "INSTANCEOF", "MONITORENTER",
    "MONITOREXIT", "WIDE", "MULTIANEWARRAY", "IFNULL", "IFNONNULL", "GOTO_W", "JSR_W"
  ]

/-- The mnemonic of an opcode, which three reserved opcodes have as well. -/
def mnemonic (opcode : Opcode) : String :=
  match mnemonics[opcode.toNat]? with
  | some name => name
  | none =>
      if opcode = 0xCA then "BREAKPOINT"
      else if opcode = 0xFE then "IMPDEP1"
      else if opcode = 0xFF then "IMPDEP2"
      else "<invalid>"

/-! ## Opcodes spoken of by name -/

def bipush : Opcode := 0x10
def sipush : Opcode := 0x11
def ldc : Opcode := 0x12
def ldcW : Opcode := 0x13
def ldc2W : Opcode := 0x14
def iload : Opcode := 0x15
def lload : Opcode := 0x16
def fload : Opcode := 0x17
def dload : Opcode := 0x18
def aload : Opcode := 0x19
def istore : Opcode := 0x36
def lstore : Opcode := 0x37
def fstore : Opcode := 0x38
def dstore : Opcode := 0x39
def astore : Opcode := 0x3A
def pop : Opcode := 0x57
def dup : Opcode := 0x59
def ladd : Opcode := 0x61
def lsub : Opcode := 0x65
def iinc : Opcode := 0x84
def goto : Opcode := 0xA7
def jsr : Opcode := 0xA8
def ret : Opcode := 0xA9
def tableSwitch : Opcode := 0xAA
def lookupSwitch : Opcode := 0xAB
def intReturn : Opcode := 0xAC
def longReturn : Opcode := 0xAD
def floatReturn : Opcode := 0xAE
def doubleReturn : Opcode := 0xAF
def referenceReturn : Opcode := 0xB0
def voidReturn : Opcode := 0xB1
def getStatic : Opcode := 0xB2
def putStatic : Opcode := 0xB3
def getField : Opcode := 0xB4
def putField : Opcode := 0xB5
def invokeVirtual : Opcode := 0xB6
def invokeSpecial : Opcode := 0xB7
def invokeStatic : Opcode := 0xB8
def invokeInterface : Opcode := 0xB9
def invokeDynamic : Opcode := 0xBA
def newObject : Opcode := 0xBB
def newArray : Opcode := 0xBC
def newReferenceArray : Opcode := 0xBD
def throwReference : Opcode := 0xBF
def checkCast : Opcode := 0xC0
def instanceOf : Opcode := 0xC1
def wide : Opcode := 0xC4
def newMultiArray : Opcode := 0xC5
def ifNull : Opcode := 0xC6
def ifNonNull : Opcode := 0xC7
def gotoW : Opcode := 0xC8
def jsrW : Opcode := 0xC9

/-! ## Operands -/

/-- What follows an opcode. -/
inductive Layout where
  /-- Nothing. -/
  | plain
  /-- A signed byte. -/
  | signedByte
  /-- A signed 16-bit number. -/
  | signedShort
  /-- The code of a primitive array type. -/
  | arrayType
  /-- A pool index in one byte. -/
  | shortConstant
  /-- A pool index in two bytes. -/
  | longConstant
  /-- A local variable, in one byte or, after `wide`, in two. -/
  | localVariable
  /-- A local variable and what to add to it, each wider after `wide`. -/
  | increment
  /-- A signed 16-bit distance. -/
  | branch
  /-- A signed 32-bit distance. -/
  | wideBranch
  /-- A default and a distance for each of a range of keys. -/
  | tableSwitch
  /-- A default and pairs of a key and a distance. -/
  | lookupSwitch
  /-- The pool index of a class. -/
  | classRef
  /-- The pool index of a field. -/
  | fieldRef
  /-- The pool index of a method. -/
  | methodRef
  /-- The pool index of an interface method, a count and a zero. -/
  | interfaceMethodRef
  /-- The pool index of a call site and two zeros. -/
  | callSite
  /-- The pool index of a class and a number of dimensions. -/
  | multiArray
  /-- An instruction on a local variable with wide operands. -/
  | wide
  deriving Repr, DecidableEq

/-- What follows each opcode that the class file format defines. -/
def layout? (opcode : Opcode) : Option Layout :=
  if opcode ≤ 0x0F then some .plain
  else if opcode = bipush then some .signedByte
  else if opcode = sipush then some .signedShort
  else if opcode = ldc then some .shortConstant
  else if opcode ≤ ldc2W then some .longConstant
  else if opcode ≤ aload then some .localVariable
  else if opcode ≤ 0x35 then some .plain
  else if opcode ≤ astore then some .localVariable
  else if opcode ≤ 0x83 then some .plain
  else if opcode = iinc then some .increment
  else if opcode ≤ 0x98 then some .plain
  else if opcode ≤ jsr then some .branch
  else if opcode = ret then some .localVariable
  else if opcode = tableSwitch then some .tableSwitch
  else if opcode = lookupSwitch then some .lookupSwitch
  else if opcode ≤ voidReturn then some .plain
  else if opcode ≤ putField then some .fieldRef
  else if opcode ≤ invokeStatic then some .methodRef
  else if opcode = invokeInterface then some .interfaceMethodRef
  else if opcode = invokeDynamic then some .callSite
  else if opcode = newObject then some .classRef
  else if opcode = newArray then some .arrayType
  else if opcode = newReferenceArray then some .classRef
  else if opcode ≤ throwReference then some .plain
  else if opcode ≤ instanceOf then some .classRef
  else if opcode ≤ 0xC3 then some .plain
  else if opcode = wide then some .wide
  else if opcode = newMultiArray then some .multiArray
  else if opcode ≤ ifNonNull then some .branch
  else if opcode ≤ jsrW then some .wideBranch
  else none

/-! ## Ends of straight-line code -/

/-- Whether the opcode returns from a method. -/
def isReturn (opcode : Opcode) : Bool :=
  intReturn ≤ opcode && opcode ≤ voidReturn

/-- Whether control can leave a method through the opcode: a return or a throw. -/
def isExit (opcode : Opcode) : Bool :=
  opcode.isReturn || opcode = throwReference

/-- Whether control never falls through to the instruction behind. -/
def endsFlow (opcode : Opcode) : Bool :=
  opcode = goto || opcode = gotoW || opcode = tableSwitch || opcode = lookupSwitch
    || opcode = ret || opcode.isExit

end Opcode
end JvmClass
