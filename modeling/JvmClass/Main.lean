import JvmClass.CommandLine.Report

namespace JvmClass.Main

/-!
# The program

Reads the files that a command line names, and prints and writes what the report
of its job says.
-/

open CommandLine

/-- The bytes of a file. -/
def readBytes (path : String) : IO Bytes := do
  let content ← IO.FS.readBinFile path
  return content.toList

/--
Adds what lies at a path below `root`: a folder, or a class file.  A file that
cannot be read is left out.
-/
def addEntry (root : String) (directory : ClassDirectory) (path : String) (isFolder : Bool) :
    IO ClassDirectory := do
  let inside := String.ofList (path.toList.drop (root.length + 1))
  try
    if isFolder then
      return directory.addFolder inside
    else if inside.endsWith ".class" then
      return directory.addFile inside (← readBytes path)
    else
      return directory
  catch _ =>
    return directory

/-- The folders and class files below a directory. -/
def readDirectory (path : String) : IO ClassDirectory := do
  try
    let root ← IO.FS.realPath path
    let paths ← root.walkDir
    paths.toList.foldlM
      (fun directory path => do
        addEntry root.toString directory path.toString (← path.isDir))
      .empty
  catch _ =>
    return .empty

/-- Says why a job failed. -/
def complain (failure : Failure) : IO UInt32 := do
  IO.eprintln failure.text
  return 1

/-- Writes the file of a report. -/
def writeFile (report : Report) : IO (Option Failure) := do
  match report.file with
  | none => return none
  | some (path, bytes) =>
      try
        IO.FS.writeBinFile path ⟨bytes.toArray⟩
        return none
      catch error =>
        return some ⟨s!"failed to write {path}", [toString error]⟩

/-- Prints and writes what a report says. -/
def present (report : Report) (verbose : Bool) : IO UInt32 := do
  IO.print report.shown
  match ← writeFile report with
  | some failure => complain failure
  | none =>
      for note in report.visibleNotes verbose do
        IO.eprintln note.line
      return if report.succeeded then 0 else 1

/-- The input of a job, or why it cannot be read. -/
def readInput (job : Job) : IO (Except Failure Bytes) := do
  try
    return .ok (← readBytes job.input)
  catch error =>
    return .error ⟨s!"failed to read {job.input}", [toString error]⟩

/-- Does a job. -/
def perform (job : Job) (verbose : Bool) : IO UInt32 := do
  match ← readInput job with
  | .error failure => complain failure
  | .ok bytes =>
      let classPath ← job.directories.mapM readDirectory
      match report job bytes classPath with
      | .error failure => complain failure
      | .ok result => present result verbose

end JvmClass.Main

/-- Runs the program.  A failed job ends with 1, and arguments that name no job with 2. -/
def main (arguments : List String) : IO UInt32 := do
  match JvmClass.CommandLine.parse arguments with
  | .ok .help =>
      IO.print JvmClass.CommandLine.helpText
      return 0
  | .ok (.run job verbose) => JvmClass.Main.perform job verbose
  | .error error =>
      IO.eprintln s!"error: {error.message}\n\nFor more information, try '--help'."
      return 2
