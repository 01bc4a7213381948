import JvmClass.Slots
import JvmClass.Timer.Config
import JvmClass.Verify.Defect

namespace JvmClass

/-!
# Errors of a whole run

A run over one class reads, changes, writes and checks it.  A pool index that
leads nowhere and frames that conflict are reported as such from whichever stage
they come; any other cause is wrapped.
-/

/-- Why a run over one class fails. -/
inductive RunError where
  | malformedInput (source : ReadError)
  | unresolvedReference (index : UInt16)
  | slotConflict (conflict : SlotConflict)
  | inconsistentFrame (offset : UInt16) (conflict : FrameConflict)
  | defects (defects : List Defect)
  | invalidConfig (fault : ConfigFault)
  | write (source : WriteError)
  deriving Repr, DecidableEq

namespace RunError

/-- The wording of each cause. -/
def message : RunError → String
  | .malformedInput _ => "malformed input"
  | .unresolvedReference index => (WriteError.unresolvedReference index).message
  | .slotConflict conflict => conflict.message
  | .inconsistentFrame offset conflict => (WriteError.inconsistentFrame offset conflict).message
  | .defects found => s!"verification reported {found.length} defect(s)"
  | .invalidConfig fault => s!"invalid configuration: {fault.message}"
  | .write _ => "class write error"

/-- The wording of what a cause wraps. -/
def sourceMessage? : RunError → Option String
  | .malformedInput source => some source.message
  | .write source => some source.message
  | _ => none

/-- A reading error of a run. -/
def ofRead : ReadError → RunError
  | .poolIndex index => .unresolvedReference index
  | error => .malformedInput error

/-- A writing error of a run. -/
def ofWrite : WriteError → RunError
  | .unresolvedReference index => .unresolvedReference index
  | .inconsistentFrame offset conflict => .inconsistentFrame offset conflict
  | error => .write error

/-- An invalid descriptor in a run. -/
def ofDescriptor (error : InvalidDescriptor) : RunError :=
  .malformedInput (.descriptor error)

end RunError
end JvmClass
