import ApiScribe.Console
import ApiScribe.Fault
import ApiScribe.FileTree.Replace
import ApiScribe.Text.Character
import ApiScribe.Web

/-! A workspace is all that a job can see and change: files, the environment, the input stream, the
web, and what has been said so far. A job is a step that may fail; what it changed before it failed
stays changed. -/
namespace ApiScribe

/-- All that a job can see and change. -/
structure Workspace where
  tree : FileTree := {}
  /-- The current directory, by its steps from the root. -/
  current : List String := []
  environment : Entries String String := []
  input : Bytes := []
  web : Web := {}
  /-- The delays so far, in half seconds. -/
  delays : List Nat := []
  notes : List Note := []
  printouts : List Printout := []
  /-- The time, as file names write it. -/
  time : String := ""

/-- A step that may fail. -/
abbrev Job (α : Type) := ExceptT Failure (StateM Workspace) α

namespace Job

/-- The outcome of something that sees and changes nothing. -/
def ofOutcome {α : Type} (r : Outcome α) : Job α :=
  match r with
  | .ok a => pure a
  | .error e => throw e

/-- Fails with a fault. -/
def fail {α : Type} (f : Fault) : Job α := throw (.fault f)

/-- Says something about the run. -/
def note (level : NoteLevel) (text : String) : Job Unit :=
  modify fun w => { w with notes := w.notes ++ [⟨level, text⟩] }

/-- Prints a result. -/
def print (p : Printout) : Job Unit :=
  modify fun w => { w with printouts := w.printouts ++ [p] }

/-- The value of a variable of the environment. -/
def environment? (name : String) : Job (Option String) := do
  return (← get).environment.get? name

/-- What stands at a location. No rule covers a question about a name that is too long. -/
def standing (l : Location) : Job (Option FileNode) := do
  let w ← get
  match w.tree.locate w.current l with
  | .ok place => return w.tree.node? place
  | .error .nameTooLong => ofOutcome .unexpected
  | .error _ => return none

/-- Whether a file stands at a location. -/
def isFile (l : Location) : Job Bool := do
  match ← standing l with
  | some (.file _) => return true
  | _ => return false

/-- Whether a directory stands at a location. -/
def isDirectory (l : Location) : Job Bool := do
  match ← standing l with
  | some .directory => return true
  | _ => return false

/-- Whether anything stands at a location. -/
def exists? (l : Location) : Job Bool := do
  return (← standing l).isSome

/-- Passes if a location can be opened; no rule covers one that cannot. -/
def demandStorable (l : Location) : Job Unit :=
  if l.isStorable then pure () else ofOutcome .unexpected

/-- The bytes of the file at a location, or why they cannot be read. -/
def read (l : Location) : Job (Except Refusal Bytes) := do
  demandStorable l
  let w ← get
  return w.tree.read w.current l

/-- The text of bytes, with line feeds for all kinds of line ends. -/
def textOf (bs : Bytes) : Option String :=
  (Text.ofUtf8? bs).map fun s => String.ofList (Text.unifyNewlines s.toList)

/-- The text of the file at a location; no rule covers a file that cannot be read as text. -/
def readText (l : Location) : Job String := do
  match ← read l with
  | .ok bs => ofOutcome (Outcome.expect (textOf bs))
  | .error _ => ofOutcome .unexpected

/-- Replaces the file at a location. -/
def replace (l : Location) (content : Bytes) : Job Unit := do
  demandStorable l
  let w ← get
  let (tree, refused) := w.tree.replace w.current l content
  set { w with tree }
  match refused with
  | none => pure ()
  | some r => fail (.write l.text r.text)

/-- Makes a directory and all above it that are missing. -/
def makePath (l : Location) : Job Unit := do
  demandStorable l
  let w ← get
  let (tree, refused) := w.tree.makePath w.current l
  set { w with tree }
  match refused with
  | none => pure ()
  | some _ => ofOutcome .unexpected

/-- The current directory. -/
def current : Job Location := do return ⟨"/", (← get).current⟩

/-- The whole of the input stream. -/
def readInput : Job String := do
  let w ← get
  set { w with input := [] }
  ofOutcome (Outcome.expect (textOf w.input))

/-- Asks the web. -/
def fetch (accept url : String) : Job (Except Web.Obstacle Web.Page) := do
  let w ← get
  let (web, fetched) := w.web.get accept url
  set { w with web }
  return fetched

end Job
end ApiScribe
