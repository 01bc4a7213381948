import JvmClass.Access
import JvmClass.ClassDirectory
import JvmClass.ClassFile
import JvmClass.ClassName

namespace JvmClass

/-!
# Class hierarchies

Where two paths leave different classes in one slot, the slot holds their
closest common superclass.  A hierarchy tells the superclass of each class that
it knows, from tables and from class files in package layout; a class that it
does not know leaves the question open.
-/

/-- What is known about a class.  Only a root has no superclass. -/
structure ClassInfo where
  superName : Option String
  isInterface : Bool
  deriving Repr, DecidableEq

/-- A class that is no interface. -/
def ClassInfo.aClass (superName : String) : ClassInfo :=
  ⟨some superName, false⟩

/-- An interface. -/
def ClassInfo.anInterface : ClassInfo :=
  ⟨some objectName, true⟩

/-- Classes with what is known about them, the newest first. -/
structure SuperclassTable where
  entries : List (String × ClassInfo)
  deriving Repr, DecidableEq

namespace SuperclassTable

/-- The table that knows the root only. -/
def empty : SuperclassTable :=
  ⟨[]⟩

/-- Adds a class, which hides an older entry of that name. -/
def insert (table : SuperclassTable) (name : String) (info : ClassInfo) : SuperclassTable :=
  ⟨(name, info) :: table.entries⟩

/-- What a table knows about a class.  It always knows the root. -/
def lookup (table : SuperclassTable) (name : String) : Option ClassInfo :=
  if name = objectName then some ⟨none, false⟩ else table.entries.lookup name

end SuperclassTable

namespace ClassDirectory

/-- What a class file tells about the class of a name, if it defines it. -/
def infoOf? (name : String) (bytes : Bytes) : Option ClassInfo :=
  match ClassFile.ofBytes bytes with
  | .error _ => none
  | .ok file =>
      match file.pool.className file.thisClass with
      | .error _ => none
      | .ok found =>
          if found = name then
            if file.superClass = 0 then
              some ⟨none, Access.isInterface file.access⟩
            else
              match file.pool.className file.superClass with
              | .ok superName => some ⟨some superName, Access.isInterface file.access⟩
              | .error _ => none
          else
            none

/-- What a directory knows about a class: `a/b/C` is in the file `a/b/C.class`. -/
def lookup (directory : ClassDirectory) (name : String) : Option ClassInfo := do
  let bytes ← directory.file? (name ++ ".class")
  infoOf? name bytes

end ClassDirectory

/-- A source of superclasses. -/
inductive HierarchyLayer where
  | table (table : SuperclassTable)
  | directory (directory : ClassDirectory)

namespace HierarchyLayer

/-- What a layer knows about a class. -/
def lookup : HierarchyLayer → String → Option ClassInfo
  | .table known, name => known.lookup name
  | .directory known, name => known.lookup name

/--
An upper bound on how many classes a layer knows.  A file tells about the one
class that it defines, whatever path leads to it.
-/
def size : HierarchyLayer → Nat
  | .table known => known.entries.length + 1
  | .directory known => known.files.length

end HierarchyLayer

/-- Layers that are asked in order. -/
abbrev Hierarchy := List HierarchyLayer

/-- What the supers of a class are. -/
inductive Ancestry where
  /-- The walk came back to a class that it had passed. -/
  | circular
  /-- The walk met an interface. -/
  | interfaceMet
  /-- The class and its superclasses, and whether the walk ended at a root. -/
  | chain (names : List String) (complete : Bool)
  deriving Repr, DecidableEq

namespace Hierarchy

/-- What the first layer that knows a class knows about it. -/
def lookup (hierarchy : Hierarchy) (name : String) : Option ClassInfo :=
  hierarchy.findSome? (·.lookup name)

/-- An upper bound on how many classes are known. -/
def size (hierarchy : Hierarchy) : Nat :=
  (hierarchy.map HierarchyLayer.size).foldr (· + ·) 0

/--
Walks up from `current`, having passed `passed`, the newest first.  Every step
passes another known class, so as many steps as there are known classes suffice.
-/
def walk (hierarchy : Hierarchy) (passed : List String) (current : String) : Nat → Ancestry
  | 0 => .chain (current :: passed).reverse false
  | steps + 1 =>
      if current = objectName then
        .chain (current :: passed).reverse true
      else
        match hierarchy.lookup current with
        | none => .chain (current :: passed).reverse false
        | some info =>
            if info.isInterface then
              .interfaceMet
            else
              match info.superName with
              | none => .chain (current :: passed).reverse true
              | some parent =>
                  if (current :: passed).contains parent then
                    .circular
                  else
                    walk hierarchy (current :: passed) parent steps

/-- A class with its superclasses. -/
def ancestry (hierarchy : Hierarchy) (name : String) : Ancestry :=
  walk hierarchy [] name (hierarchy.size + 1)

/-- The first of the superclasses of `right` that is one of `left` as well. -/
def commonClass? (hierarchy : Hierarchy) (left right : String) : Option String :=
  match hierarchy.ancestry left with
  | .circular => none
  | .interfaceMet => some objectName
  | .chain ancestors _ =>
      match hierarchy.ancestry right with
      | .circular => none
      | .interfaceMet => some objectName
      | .chain names _ => names.find? ancestors.contains

/--
The closest common superclass of two classes or arrays, if the hierarchy can
tell.  Interfaces have only the root in common with anything else, and so has an
array with anything but another array of references.
-/
def commonName? (hierarchy : Hierarchy) (left right : List Char) : Option (List Char) :=
  if left = right then
    some left
  else
    match left, right with
    | '[' :: left, '[' :: right =>
        match _found : ClassName.component? left, ClassName.component? right with
        | some leftComponent, some rightComponent =>
            (commonName? hierarchy leftComponent rightComponent).map ClassName.arrayOf
        | _, _ => some objectName.toList
    | '[' :: _, _ | _, '[' :: _ => some objectName.toList
    | left, right =>
        (commonClass? hierarchy (String.ofList left) (String.ofList right)).map String.toList
  termination_by left.length
  decreasing_by
    have bound := ClassName.component?_length_le ‹_›
    simp only [List.length_cons]
    omega

/-- The closest common superclass of two names, if the hierarchy can tell. -/
def commonSuperclass? (hierarchy : Hierarchy) (left right : String) : Option String :=
  (commonName? hierarchy left.toList right.toList).map String.ofList

end Hierarchy
end JvmClass
