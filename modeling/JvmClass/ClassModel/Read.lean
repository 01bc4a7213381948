import JvmClass.Body.Decode
import JvmClass.ClassFile
import JvmClass.ClassModel

namespace JvmClass

/-!
# Reading classes

Reading resolves the names of a class file and decodes its method bodies.  All
validation happens here: a class that was read has no dangling reference in
what it took apart.
-/

/-- The largest class file in bytes. -/
def maxClassSize : Nat := 16 * 1024 * 1024

namespace Method

/-- Splits the one body off the attributes of a method and decodes it on the way. -/
def splitBody (pool : Pool) (body : Option Body) (done : List Attribute) :
    List Attribute → Except ReadError (Option Body × List Attribute)
  | [] => .ok (body, done.reverse)
  | .code raw :: rest =>
      match body with
      | none => do
          let decoded ← Body.ofAttribute pool raw
          splitBody pool (some decoded) done rest
      | some _ => .error (.attribute "Code")
  | other :: rest => splitBody pool body (other :: done) rest

/-- Resolves a method. -/
def ofInfo (pool : Pool) (info : MemberInfo) : Except ReadError Method := do
  let (body, attributes) ← splitBody pool none [] info.attributes
  let name ← pool.text info.name
  let descriptor ← pool.text info.descriptor
  return { access := info.access, name, descriptor, body, attributes }

end Method

/-- Resolves a field. -/
def Field.ofInfo (pool : Pool) (info : MemberInfo) : Except ReadError Field := do
  let name ← pool.text info.name
  let descriptor ← pool.text info.descriptor
  return { access := info.access, name, descriptor, attributes := info.attributes }

namespace ClassModel

/-- Resolves a class file. -/
def ofClassFile (file : ClassFile) : Except ReadError ClassModel := do
  let pool := file.pool
  let name ← pool.className file.thisClass
  let superName ←
    if file.superClass = 0 then pure none else some <$> pool.className file.superClass
  let interfaces ← file.interfaces.mapM pool.className
  let fields ← file.fields.mapM (Field.ofInfo pool)
  let methods ← file.methods.mapM (Method.ofInfo pool)
  return {
    minor := file.minor
    major := file.major
    access := file.access
    pool, name, superName, interfaces, fields, methods
    attributes := file.attributes
  }

/-- Reads a class from bytes. -/
def read (bytes : Bytes) : Except ReadError ClassModel := do
  if maxClassSize < bytes.length then
    .error (.tooLarge .classFile bytes.length maxClassSize)
  else
    let file ← ClassFile.ofBytes bytes
    ofClassFile file

end ClassModel
end JvmClass
