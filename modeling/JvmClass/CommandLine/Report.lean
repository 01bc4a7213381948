import JvmClass.CommandLine
import JvmClass.Instrument
import JvmClass.Trace

namespace JvmClass.CommandLine

/-!
# Reports of jobs

A report is all that a job has to say: what to print, what to note, which file
to write and whether the job went well.  Nothing here reads or writes files.
-/

/-- How much a note matters. -/
inductive Level where
  | error
  | warning
  | info
  | debug
  deriving Repr, DecidableEq

/-- The name of a level, five characters wide. -/
def Level.name : Level → String
  | .error => "ERROR"
  | .warning => "WARN "
  | .info => "INFO "
  | .debug => "DEBUG"

/-- A remark beside the result of a job. -/
structure Note where
  level : Level
  text : String
  deriving Repr, DecidableEq

/-- A note in one line. -/
def Note.line (note : Note) : String :=
  s!"[{note.level.name}] {note.text}"

/-- What a job has to say. -/
structure Report where
  /-- What is printed. -/
  shown : String
  notes : List Note
  /-- The file to write, if there is one. -/
  file : Option (String × Bytes)
  succeeded : Bool

/-- Why a job has no report: what it tried, and the causes, the outermost first. -/
structure Failure where
  attempt : String
  causes : List String
  deriving Repr, DecidableEq

namespace Failure

/-- The causes, numbered if there are several. -/
def causeLines : List String → List String
  | [] => []
  | [cause] => ["", "Caused by:", "    " ++ cause]
  | causes => "" :: "Caused by:" :: causes.zipIdx.map fun (cause, position) =>
      s!"    {position}: {cause}"

/-- A failure with its causes. -/
def text (failure : Failure) : String :=
  "\n".intercalate (s!"Error: {failure.attempt}" :: causeLines failure.causes)

end Failure

/-- The trace of a class file. -/
def traceOf (bytes : Bytes) : Except Failure String :=
  match ClassModel.read bytes with
  | .error error => .error ⟨"failed to parse class", [error.message]⟩
  | .ok model => .ok (Trace.text (some model.pool) model.events)

/-- The report of a job that traces a class. -/
def traceReport (bytes : Bytes) : Except Failure Report :=
  (traceOf bytes).map fun shown => ⟨shown, [], none, true⟩

/-- The report of a job that checks a class. -/
def verifyReport (input : String) (bytes : Bytes) : Report :=
  let defects := Verify.check bytes
  let note : Note :=
    if defects.isEmpty then ⟨.info, s!"{input}: no defects"⟩
    else ⟨.error, s!"{input}: {defects.length} defect(s)"⟩
  ⟨String.join (defects.map (·.text ++ "\n")), [note], none, defects.isEmpty⟩

/-- What an instrumenting job notes besides the defects. -/
def outcomeNotes (job : InstrumentJob) (result : Instrument.Instrumented) : List Note :=
  let target := job.config.methodName ++ job.config.methodDescriptor
  let timed := result.outcome.methods.map fun method =>
    (⟨.info, s!"instrumented method {method}"⟩ : Note)
  let count : Note := ⟨.debug, s!"rewrote {result.outcome.methods.length} method(s)"⟩
  let added : List Note :=
    if result.outcome.fieldAdded then
      [⟨.info, s!"added field {job.config.fieldName} {job.config.fieldDescriptor}"⟩]
    else
      []
  let missed : List Note :=
    if result.outcome.methods.isEmpty then
      [⟨.error, s!"no method {target} in {job.input}"⟩]
    else
      []
  let written : Note :=
    ⟨.info,
      s!"wrote {job.output} ({result.bytes.length} bytes, strategy {job.config.strategy.name})"⟩
  timed ++ added ++ count :: missed ++ [written]

/-- The report of a job that instruments a class. -/
def instrumentReport (job : InstrumentJob) (bytes : Bytes) : Except Failure Report := do
  match Instrument.instrument bytes job.config with
  | .error error =>
      throw ⟨s!"failed to instrument {job.input}", error.message :: error.sourceMessage?.toList⟩
  | .ok result =>
      let shown ← if job.traced then traceOf result.bytes else pure ""
      let defects := result.defects.map fun defect => (⟨.error, defect.text⟩ : Note)
      return ⟨shown, outcomeNotes job result ++ defects, some (job.output, result.bytes),
        result.isClean⟩

/-- The notes to show.  Only a verbose run shows what is for debugging. -/
def Report.visibleNotes (report : Report) (verbose : Bool) : List Note :=
  report.notes.filter fun note => verbose || note.level ≠ .debug

/-- The report of a job on a class, with the class files of its directories. -/
def report (job : Job) (bytes : Bytes) (classPath : List ClassDirectory) :
    Except Failure Report :=
  match job with
  | .instrument job => instrumentReport { job with config.classPath := classPath } bytes
  | .trace _ => traceReport bytes
  | .verify input => .ok (verifyReport input bytes)

end JvmClass.CommandLine
