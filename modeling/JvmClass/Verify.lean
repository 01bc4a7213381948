import JvmClass.Access
import JvmClass.ClassFile
import JvmClass.Insn.Decode
import JvmClass.Verify.DepthFlow

namespace JvmClass.Verify

/-!
# Checking classes

Checking a class file reports everything that is wrong with its method bodies
and raises nothing: unbalanced stacks, local variables that are read before they
are assigned, branches into the middle of an instruction, missing frames, bodies
that run off their end.
-/

/-- The offsets of frames behind a frame at `previous`.  They do not go beyond the last offset. -/
def tableOffsets (previous : Option UInt16) : List StackMap.Frame → List UInt16
  | [] => []
  | frame :: rest =>
      let offset :=
        match previous with
        | none => frame.delta
        | some previous =>
            UInt16.ofNat (min 0xFFFF (previous.toNat + frame.delta.toNat + 1))
      offset :: tableOffsets (some offset) rest

/-- The offsets at which a body declares frames. -/
def declaredOffsets (body : CodeAttribute Attribute) : Std.TreeSet UInt16 :=
  let offsets := body.attributes.flatMap fun
    | .stackMapTable frames => tableOffsets none frames
    | _ => []
  Std.TreeSet.ofList offsets

/-- What is wrong with a body whose instructions are known and not empty, the latest first. -/
def checkInsns (pool : Pool) (isStatic : Bool) (type : MethodType)
    (body : CodeAttribute Attribute) (framed : Bool) (insns : List (Nat × Insn)) :
    List (UInt16 × Finding) :=
  let code := LocatedCode.ofInsns insns
  let context : DepthContext := ⟨pool, body.maxStack, type.result⟩
  let (entry, findings) := DepthState.onEntry type isStatic body.maxLocals
  let solved := (DepthProgress.start insns entry findings).run context code body.handlers
    (DepthProgress.stepBound insns body.maxLocals)
  let checked := if framed then solved.reportMissing code (declaredOffsets body) else solved
  checked.reports

/-- What is wrong with a body, and where, in the order found. -/
def checkBody (pool : Pool) (access : UInt16) (descriptor : String)
    (body : CodeAttribute Attribute) (framed : Bool) : List (Option UInt16 × Finding) :=
  match MethodType.ofDescriptor descriptor with
  | .error _ => [(none, .invalidDescriptor descriptor)]
  | .ok type =>
      match Insn.decode body.code with
      | .error error => [(none, .unreadable error)]
      | .ok [] => [(some 0, .emptyCode)]
      | .ok insns =>
          (checkInsns pool (Access.isStatic access) type body framed insns).reverse.map
            fun (offset, finding) => (some offset, finding)

/-- The first body among attributes. -/
def firstBody? (attributes : List Attribute) : Option (CodeAttribute Attribute) :=
  attributes.findSome? fun
    | .code body => some body
    | _ => none

/-- The defects of a method. -/
def checkMethod (pool : Pool) (framed : Bool) (method : MemberInfo) : List Defect :=
  match pool.text method.name, pool.text method.descriptor with
  | .ok name, .ok descriptor =>
      match firstBody? method.attributes with
      | none => []
      | some body =>
          (checkBody pool method.access descriptor body framed).map fun (offset, finding) =>
            ⟨finding, some (name ++ descriptor), offset⟩
  | _, _ => [⟨.unnamedMethod, none, none⟩]

/-- The defects of a class file. -/
def checkFile (file : ClassFile) : List Defect :=
  file.methods.flatMap (checkMethod file.pool (StackMap.firstVersion ≤ file.major))

/-- The defects of bytes that should be a class file. -/
def check (bytes : Bytes) : List Defect :=
  match ClassFile.ofBytes bytes with
  | .ok file => checkFile file
  | .error error => [⟨.unreadable error, none, none⟩]

end JvmClass.Verify
