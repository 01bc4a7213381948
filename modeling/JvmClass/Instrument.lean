import JvmClass.ClassModel.Read
import JvmClass.ClassModel.Write
import JvmClass.Event.Collect
import JvmClass.Timer
import JvmClass.Verify

namespace JvmClass.Instrument

/-!
# Instrumenting a class

One class goes in and one comes out, with a method timed, its frames and sizes
computed anew, and everything reported that is wrong with the result.
-/

/-- An instrumented class and what checking it found. -/
structure Instrumented where
  bytes : Bytes
  defects : List Defect
  outcome : Timer.Outcome

namespace Instrumented

/-- Whether checking found nothing. -/
def isClean (result : Instrumented) : Bool :=
  result.defects.isEmpty

/-- The bytes of a class in which checking found nothing. -/
def verified (result : Instrumented) : Except RunError Bytes :=
  if result.isClean then .ok result.bytes else .error (.defects result.defects)

end Instrumented

/-- Everything about a written class is computed. -/
def computeAll : WriteOptions :=
  ⟨true, true⟩

/-- Everything about a written class is kept. -/
def computeNothing : WriteOptions :=
  ⟨false, false⟩

/--
The superclasses known to a run.  A class that is renamed still counts under its
old name as well, since its pool may go on using that name.
-/
def hierarchy (config : TimerConfig) (input : ClassModel) : Hierarchy :=
  .table input.ownTable :: config.classPath.map .directory

/-- The timed class, over the pool of the input. -/
def timed (config : TimerConfig) (input : ClassModel) :
    Except RunError (ClassModel × Timer.Outcome) :=
  let result := Timer.time config input.events
  match result.failure with
  | some error => .error error
  | none => .ok (.ofEvents input.pool result.events, result.outcome)

/--
The bytes of a timed class.  If its frames conflict and the run is lenient,
the conflict is a defect and the class is written with what it declares.
-/
def write (config : TimerConfig) (hierarchy : Hierarchy) (output : ClassModel) :
    Except WriteError (Bytes × List Defect) := do
  match output.writeWith computeAll hierarchy with
  | .ok bytes => return (bytes, [])
  | .error (.inconsistentFrame offset conflict) =>
      if config.lenient then
        let bytes ← output.write computeNothing
        return (bytes, [⟨.inconsistentFrame conflict, none, some offset⟩])
      else
        .error (.inconsistentFrame offset conflict)
  | .error error => .error error

/-- Reads a class, times the configured method, writes the class and checks the result. -/
def instrument (bytes : Bytes) (config : TimerConfig) : Except RunError Instrumented := do
  config.validate.mapError .invalidConfig
  let input ← (ClassModel.read bytes).mapError .ofRead
  let (output, outcome) ← timed config input
  let (written, conflicts) ←
    (write config (hierarchy config input) output).mapError .ofWrite
  return ⟨written, conflicts ++ Verify.check written, outcome⟩

end JvmClass.Instrument
