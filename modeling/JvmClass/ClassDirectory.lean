import JvmClass.Bytes.Writer

namespace JvmClass

/-!
# Directories of class files

A directory holds class files in folders.  A path is walked step by step from
the directory: an empty step and `.` stay where they are, `..` goes up, and any
other step goes down.  A walk may only pass folders that exist, so one file has
many paths, but no path goes through a folder that is not there.
-/

/-- A place in a directory: the names on the way to it, the last one first. -/
abbrev Place := List String

/-- Where a step leads.  Nothing lies above the directory. -/
def Place.after? (place : Place) (step : String) : Option Place :=
  if step = "" ∨ step = "." then
    some place
  else if step = ".." then
    match place with
    | [] => none
    | _ :: above => some above
  else
    some (step :: place)

/-- Class files, and the folders that lead to them. -/
structure ClassDirectory where
  /-- The files by their places, the newest first. -/
  files : List (Place × Bytes)
  /-- The places of the folders, without the directory itself. -/
  folders : List Place
  deriving Repr, DecidableEq

namespace ClassDirectory

/-- The directory without any file. -/
def empty : ClassDirectory :=
  ⟨[], []⟩

/-- The number of bytes from which on a path is too long to be opened. -/
def pathLimit : Nat := 4096

/-- Puts a character in front of the steps that follow it. -/
def consStep (c : Char) (steps : List (List Char)) : List (List Char) :=
  if c = '/' then
    [] :: steps
  else
    match steps with
    | [] => [[c]]
    | step :: rest => (c :: step) :: rest

/-- The steps of a path, which `/` divides. -/
def stepsOf (path : String) : List String :=
  (path.toList.foldr consStep [[]]).map String.ofList

/-- The steps to the folder of a file, and its name.  A path that starts with `/` is none. -/
def splitPath? (path : String) : Option (List String × String) :=
  match stepsOf path with
  | "" :: _ :: _ => none
  | steps => steps.getLast?.map fun name => (steps.dropLast, name)

/-- Whether there is a folder at a place. -/
def hasFolder (directory : ClassDirectory) (place : Place) : Bool :=
  place.isEmpty || directory.folders.contains place

/-! ## Looking up files -/

/-- The folder that steps from a folder lead to, if they pass folders only. -/
def walk? (directory : ClassDirectory) : Place → List String → Option Place
  | place, [] => some place
  | place, step :: rest =>
      match place.after? step with
      | some next => if directory.hasFolder next then walk? directory next rest else none
      | none => none

/-- The bytes of the file at a path. -/
def file? (directory : ClassDirectory) (path : String) : Option Bytes :=
  if pathLimit ≤ path.utf8ByteSize then
    none
  else do
    let (steps, name) ← splitPath? path
    let folder ← directory.walk? [] steps
    List.lookup (name :: folder) directory.files

/-! ## Adding files -/

/-- Adds the folder at a place unless it is there. -/
def insertFolder (directory : ClassDirectory) (place : Place) : ClassDirectory :=
  if directory.hasFolder place then directory
  else { directory with folders := place :: directory.folders }

/-- Walks from a folder and adds each folder that is passed. -/
def makeFolders (directory : ClassDirectory) :
    Place → List String → Option (ClassDirectory × Place)
  | place, [] => some (directory, place)
  | place, step :: rest =>
      match place.after? step with
      | some next => makeFolders (directory.insertFolder next) next rest
      | none => none

/-- Adds the folder at a path and those on the way to it. -/
def addFolder (directory : ClassDirectory) (path : String) : ClassDirectory :=
  ((directory.makeFolders [] (stepsOf path)).map Prod.fst).getD directory

/-- Adds a file at a path, which hides an older file at its place. -/
def addFile (directory : ClassDirectory) (path : String) (bytes : Bytes) : ClassDirectory :=
  match splitPath? path with
  | none => directory
  | some (steps, name) =>
      match directory.makeFolders [] steps with
      | none => directory
      | some (made, folder) => { made with files := (name :: folder, bytes) :: made.files }

/-- The directory of files by their paths, of which the last one at a place counts. -/
def ofFiles (files : List (String × Bytes)) : ClassDirectory :=
  files.foldl (fun directory (path, bytes) => directory.addFile path bytes) empty

/-- Steps that stay, and steps down and up again, lead to the same file. -/
example :
    let directory := ofFiles [("q/B.class", [1])]
    directory.file? "./q//B.class" = some [1] ∧ directory.file? "q/../q/B.class" = some [1] := by
  decide

/-- No path goes through a folder that is not there, nor above the directory. -/
example :
    let directory := ofFiles [("q/B.class", [1])]
    directory.file? "r/../q/B.class" = none ∧ directory.file? "../q/B.class" = none := by
  decide

end ClassDirectory
end JvmClass
