import JvmClass.Error

namespace JvmClass

/-!
# Constant pool entries and lookups

A class file keeps its names, constants and references in one numbered pool.
Entry zero is unusable, and so is the entry behind each long and double, which
take two numbers.  Entries refer to each other by number; a lookup follows such
references and fails with the number that leads nowhere or to an entry of
another kind.
-/

/-- What a member reference refers to. -/
inductive MemberKind where
  | field
  | method
  | interfaceMethod
  deriving Repr, DecidableEq

/-- One numbered entry.  Floating-point numbers are kept as their bits. -/
inductive Entry where
  | unusable
  | utf8 (text : String)
  | integer (value : Int32)
  | float (bits : UInt32)
  | long (value : Int64)
  | double (bits : UInt64)
  | classRef (name : UInt16)
  | string (text : UInt16)
  | member (kind : MemberKind) (owner nameAndType : UInt16)
  | nameAndType (name descriptor : UInt16)
  | methodHandle (kind : UInt8) (target : UInt16)
  | methodType (descriptor : UInt16)
  | dynamic (bootstrap nameAndType : UInt16)
  | invokeDynamic (bootstrap nameAndType : UInt16)
  | moduleName (name : UInt16)
  | packageName (name : UInt16)
  deriving Repr, DecidableEq

namespace Entry

/-- The byte that announces an entry in a class file. -/
def tag : Entry → UInt8
  | .unusable => 0
  | .utf8 _ => 1
  | .integer _ => 3
  | .float _ => 4
  | .long _ => 5
  | .double _ => 6
  | .classRef _ => 7
  | .string _ => 8
  | .member .field _ _ => 9
  | .member .method _ _ => 10
  | .member .interfaceMethod _ _ => 11
  | .nameAndType _ _ => 12
  | .methodHandle _ _ => 15
  | .methodType _ => 16
  | .dynamic _ _ => 17
  | .invokeDynamic _ _ => 18
  | .moduleName _ => 19
  | .packageName _ => 20

/-- Whether an entry takes two numbers. -/
def isWide : Entry → Bool
  | .long _ | .double _ => true
  | _ => false

end Entry

/-- A member by its names. -/
structure Member where
  owner : String
  name : String
  descriptor : String
  deriving Repr, DecidableEq

namespace Entry

/-! ## Lookups in a list of entries -/

/-- The usable entry of a number. -/
def at? (entries : Array Entry) (index : UInt16) : Except ReadError Entry :=
  match entries[index.toNat]? with
  | none | some .unusable => .error (.poolIndex index)
  | some entry => .ok entry

/-- The text of a number. -/
def textAt (entries : Array Entry) (index : UInt16) : Except ReadError String := do
  match ← at? entries index with
  | .utf8 text => .ok text
  | _ => .error (.poolIndex index)

/-- The name of the class of a number. -/
def classNameAt (entries : Array Entry) (index : UInt16) : Except ReadError String := do
  match ← at? entries index with
  | .classRef name => textAt entries name
  | _ => .error (.poolIndex index)

/-- The name and the descriptor of a number. -/
def nameAndTypeAt (entries : Array Entry) (index : UInt16) :
    Except ReadError (String × String) := do
  match ← at? entries index with
  | .nameAndType name descriptor =>
      let name ← textAt entries name
      let descriptor ← textAt entries descriptor
      return (name, descriptor)
  | _ => .error (.poolIndex index)

/-- The member of a number, be it a field or a method. -/
def memberAt (entries : Array Entry) (index : UInt16) : Except ReadError Member := do
  match ← at? entries index with
  | .member _ owner pair =>
      let owner ← classNameAt entries owner
      let (name, descriptor) ← nameAndTypeAt entries pair
      return ⟨owner, name, descriptor⟩
  | _ => .error (.poolIndex index)

/-- The name and the descriptor of a constant or call site computed at run time. -/
def dynamicAt (entries : Array Entry) (index : UInt16) :
    Except ReadError (String × String) := do
  match ← at? entries index with
  | .dynamic _ pair | .invokeDynamic _ pair => nameAndTypeAt entries pair
  | _ => .error (.poolIndex index)

/-- Checks that every number in an entry leads to an entry of the right kind. -/
def check (entries : Array Entry) : Entry → Except ReadError Unit
  | .classRef index
  | .string index
  | .methodType index
  | .moduleName index
  | .packageName index => do
      let _ ← textAt entries index
  | .nameAndType name descriptor => do
      let _ ← textAt entries name
      let _ ← textAt entries descriptor
  | .member _ owner pair => do
      let _ ← classNameAt entries owner
      let _ ← nameAndTypeAt entries pair
  | .methodHandle _ target => do
      let _ ← memberAt entries target
  | .dynamic _ pair | .invokeDynamic _ pair => do
      let _ ← nameAndTypeAt entries pair
  | .unusable | .utf8 _ | .integer _ | .float _ | .long _ | .double _ => .ok ()

end Entry
end JvmClass
