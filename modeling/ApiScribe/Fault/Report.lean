import ApiScribe.Fault

/-! Reports of faults: the words and the exit code that a run ends with, and what the fault names.
The exit code is that of the kind unless a caller overrides it. -/
namespace ApiScribe

/-- A fault as it is reported. -/
structure Report where
  kind : FaultKind
  message : String
  exitCode : Int := kind.exitCode
  field : Option String := none
  path : Option String := none
  url : Option String := none
  deriving Repr, DecidableEq

namespace Report

/-- A missing field; words that are given take the place of the usual ones. -/
def missingField (field : String) (words : Option String) : Report :=
  let usual := (Fault.missingField field).message
  { kind := .missingField
    message := (words.filter (· ≠ "")).getD usual
    field := some field }

/-- A failed access to a file. -/
def write (path detail : String) : Report :=
  { kind := .write, message := (Fault.write path detail).message, path := some path }

/-- A failed fetch of enum values. -/
def network (url detail : String) : Report :=
  { kind := .network, message := (Fault.network url detail).message, url := some url }

end Report

/-- The report of a fault. -/
def Fault.report (f : Fault) : Report :=
  match f with
  | .missingField field => .missingField field none
  | .noOperations => .missingField "paths" (some f.message)
  | .write path detail => .write path detail
  | .network url detail => .network url detail
  | f => { kind := f.kind, message := f.message }

/-- A report has the words of its fault. -/
theorem Fault.report_message (f : Fault) : f.report.message = f.message := by
  cases f <;> rfl

/-- A report has the kind of its fault. -/
theorem Fault.report_kind (f : Fault) : f.report.kind = f.kind := by
  cases f <;> rfl

/-- A report has the exit code of its fault. -/
theorem Fault.report_exitCode (f : Fault) : f.report.exitCode = f.exitCode := by
  cases f <;> rfl

end ApiScribe
