import JvmClass.Access
import JvmClass.Decimal.Shortest
import JvmClass.Pool.Intern
import JvmClass.StackMap

namespace JvmClass.Trace

/-!
# Names in a trace

Flags are spelled as words, and a number that refers to the pool is spelled as
what stands there.  Without a pool, or if nothing of the right kind stands
there, the number itself is shown.
-/

/-- What the flags of a trace line belong to. -/
inductive Declaration where
  | aClass
  | aField
  | aMethod
  deriving Repr, DecidableEq

/-- The flags that are shown for a kind of declaration, in order. -/
def words : Declaration → List (UInt16 × String)
  | .aClass =>
      [ (Access.publicFlag, "public"), (Access.privateFlag, "private"),
        (Access.protectedFlag, "protected"), (Access.finalFlag, "final"),
        (Access.abstractFlag, "abstract"), (Access.syntheticFlag, "synthetic") ]
  | .aField =>
      [ (Access.publicFlag, "public"), (Access.privateFlag, "private"),
        (Access.protectedFlag, "protected"), (Access.staticFlag, "static"),
        (Access.finalFlag, "final"), (Access.volatileFlag, "volatile"),
        (Access.transientFlag, "transient"), (Access.syntheticFlag, "synthetic") ]
  | .aMethod =>
      [ (Access.publicFlag, "public"), (Access.privateFlag, "private"),
        (Access.protectedFlag, "protected"), (Access.staticFlag, "static"),
        (Access.finalFlag, "final"), (Access.synchronizedFlag, "synchronized"),
        (Access.nativeFlag, "native"), (Access.abstractFlag, "abstract"),
        (Access.syntheticFlag, "synthetic") ]

/-- The flags of a declaration as words, each with a blank behind it.  Interfaces are abstract anyway. -/
def accessWords (declaration : Declaration) (access : UInt16) : String :=
  let shown := (words declaration).filter fun (flag, _) =>
    Access.has access flag &&
      !(declaration == .aClass && flag == Access.abstractFlag && Access.isInterface access)
  String.join (shown.map fun (_, word) => word ++ " ")

/-- The number of an entry that is not resolved. -/
def number (index : UInt16) : String :=
  s!"#{index}"

/-- The member of a number, if it can be resolved. -/
def memberAt? (pool : Option Pool) (index : UInt16) : Option Member := do
  let pool ← pool
  (pool.member index).toOption

/-- The name of a class. -/
def className (pool : Option Pool) (index : UInt16) : String :=
  let resolved := do
    let pool ← pool
    (pool.className index).toOption
  resolved.getD (number index)

/-- The call site of a number: its name and its descriptor. -/
def callSite (pool : Option Pool) (index : UInt16) : String :=
  let resolved := do
    let pool ← pool
    (pool.dynamic index).toOption
  match resolved with
  | some (name, descriptor) => name ++ descriptor
  | none => number index

/-- A constant.  Long and floating-point constants carry a letter for their type. -/
def constant (pool : Pool) (index : UInt16) : String :=
  match pool.entry index with
  | .ok (.integer value) => toString value.toInt
  | .ok (.float bits) => Decimal.Format.single.text bits.toNat ++ "F"
  | .ok (.long value) => toString value.toInt ++ "L"
  | .ok (.double bits) => Decimal.Format.double.text bits.toNat ++ "D"
  | .ok (.string text) => ((pool.text text).toOption.map Text.quote).getD (number index)
  | .ok (.classRef name) =>
      ((pool.text name).toOption.map fun name => s!"L{name};.class").getD (number index)
  | _ => number index

/-- A verification type. -/
def typeName (pool : Option Pool) : StackMap.TypeInfo → String
  | .top => "T"
  | .integer => "I"
  | .float => "F"
  | .long => "J"
  | .double => "D"
  | .null => "null"
  | .uninitializedThis => "uninitializedThis"
  | .object index => className pool index
  | .uninitialized offset => s!"uninitialized@{offset}"

/-- Verification types between brackets. -/
def typeNames (pool : Option Pool) (types : List StackMap.TypeInfo) : String :=
  "[" ++ " ".intercalate (types.map (typeName pool)) ++ "]"

/-- The element type of an array of a primitive type, by its code. -/
def arrayTypeName (code : Int32) : String :=
  let names :=
    ["T_BOOLEAN", "T_CHAR", "T_FLOAT", "T_DOUBLE", "T_BYTE", "T_SHORT", "T_INT", "T_LONG"]
  if code < 4 then
    toString code.toInt
  else
    (names[code.toInt.toNat - 4]?).getD (toString code.toInt)

end JvmClass.Trace
