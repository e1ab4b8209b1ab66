import ApiScribe.Pipeline
import ApiScribe.Workspace

/-! Writing planned files below a directory. A file that holds the planned bytes already is left
alone, so that writing the same files again changes nothing. -/
namespace ApiScribe
namespace Job

/-- Whether the file at a location holds the given bytes. -/
def holds (target : Location) (content : Bytes) : Job Bool := do
  match ← read target with
  | .ok bs => return bs == content
  | .error .missing => return false
  | .error r => fail (.write target.text ("cannot read existing file: " ++ r.text target))

/-- Writes a planned file below a directory unless it is there already; tells whether it wrote. -/
def writeFile (root : Location) (f : PlannedFile) : Job Bool := do
  let target := root.below f.path
  let content := Text.utf8 f.content
  if ← holds target content then return false
  replace target content
  note .debug ("Wrote " ++ target.text)
  return true

/-- Writes planned files one after the other, up to the first that cannot be written. -/
def writeFiles (root : Location) : List PlannedFile → Job WriteResult
  | [] => return {}
  | f :: fs => do
    let wrote ← writeFile root f
    let r ← writeFiles root fs
    return if wrote then { r with filesWritten := f :: r.filesWritten }
      else { r with skippedFiles := r.skippedFiles + 1 }

end Job

/-- Writes the files of a draft below the target of its pipeline; without a target all count as
written. -/
def Pipeline.deliver (p : Pipeline) (d : Draft) : Job WriteResult :=
  match p.target with
  | none => return ⟨d.files, 0⟩
  | some root => Job.writeFiles (Location.ofPath root) d.files

/-- The whole run: nothing is written before all files are there. -/
def Pipeline.plan (p : Pipeline) (document : Value) : Job ExecutionPlan := do
  let d ← Job.ofOutcome (p.draft document)
  let r ← p.deliver d
  Job.note .debug ("Planned " ++ toString d.files.length ++ " files for "
    ++ toString d.endpointCount ++ " endpoints (" ++ toString r.filesWritten.length
    ++ " written, " ++ toString r.skippedFiles ++ " unchanged)")
  return d.plan r

end ApiScribe
