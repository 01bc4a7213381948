namespace JvmClass.Access

/-!
# Access flags

Sixteen bits say who may use a class, field or method and what it is.  Some bits
mean one thing on a class and another on a field or method.
-/

def publicFlag : UInt16 := 0x0001
def privateFlag : UInt16 := 0x0002
def protectedFlag : UInt16 := 0x0004
def staticFlag : UInt16 := 0x0008
def finalFlag : UInt16 := 0x0010
def synchronizedFlag : UInt16 := 0x0020
def volatileFlag : UInt16 := 0x0040
def transientFlag : UInt16 := 0x0080
def nativeFlag : UInt16 := 0x0100
def interfaceFlag : UInt16 := 0x0200
def abstractFlag : UInt16 := 0x0400
def syntheticFlag : UInt16 := 0x1000

/-- Whether a set of flags holds a flag. -/
def has (access flag : UInt16) : Bool :=
  access &&& flag != 0

/-- Whether a method has no receiver. -/
def isStatic (access : UInt16) : Bool :=
  has access staticFlag

/-- Whether a class is an interface. -/
def isInterface (access : UInt16) : Bool :=
  has access interfaceFlag

end JvmClass.Access
