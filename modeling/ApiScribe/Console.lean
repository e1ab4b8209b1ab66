import ApiScribe.Json.Reader
import ApiScribe.Json.Writer

/-! What the user sees. Results are for other programs to read; notes tell the user about the run,
and a console decides which of them it shows and how. Nothing here is styled. -/
namespace ApiScribe

/-- How much a note matters. -/
inductive NoteLevel
  | debug
  | info
  | success
  | warning
  | error
  deriving Repr, DecidableEq, Inhabited

/-- How much a log record matters, by the name of its severity: what is below a warning is only
for those who look for faults. -/
def NoteLevel.ofSeverity (name : String) : NoteLevel :=
  match name with
  | "WARNING" => .warning
  | "ERROR" | "CRITICAL" => .error
  | _ => .debug

/-- Something told about a run. -/
structure Note where
  level : NoteLevel
  text : String
  deriving Repr, DecidableEq, Inhabited

/-- A result to print. -/
inductive Printout
  /-- A text as it is. -/
  | text (s : String)
  /-- A value in its JSON form. -/
  | value (v : Value)
  /-- A text that should be JSON, to be written anew. -/
  | json (s : String)
  /-- Paths, one per line. -/
  | paths (ps : List String)
  /-- A table with headers. -/
  | table (headers : List String) (rows : List (List String))
  deriving Repr, Inhabited

/-- A console. -/
structure Console where
  /-- Whether listings and tables are printed as JSON. -/
  json : Bool := false
  quiet : Bool := false
  verbose : Bool := false
  deriving Repr, DecidableEq, Inhabited

namespace Console

/-- A text with the end of its line. -/
def line (s : String) : String := s ++ "\n"

/-- What is shown of a note. -/
def shown (c : Console) (n : Note) : String :=
  match n.level with
  | .debug => if c.verbose then line ("[debug] " ++ n.text) else ""
  | .info | .success => if c.quiet then "" else line n.text
  | .warning => line ("Warning: " ++ n.text)
  | .error => line ("Error: " ++ n.text)

/-- JSON text laid out for print; a text that is none stays as it is. -/
def laidOut (s : String) : String :=
  match Json.read s with
  | .ok v => Json.printed.write v
  | .error _ => s

/-- A row of a table by its headers. -/
def rowValue (headers row : List String) : Value :=
  .record (Entries.ofList (headers.zip (row.map .str)))

/-- What is printed of a result. -/
def printed (c : Console) : Printout → String
  | .text s => line s
  | .value v => line (Json.printed.write v)
  | .json s => line (laidOut s)
  | .paths ps =>
    if c.json then line (Json.printed.write (.ofStrings ps)) else String.join (ps.map line)
  | .table headers rows =>
    if c.json then line (Json.printed.write (.list (rows.map (rowValue headers))))
    else String.join ((headers :: rows).map fun r => line ("\t".intercalate r))

/-- What is printed of a result, unless it is a text of an extent that is not read. -/
def printed? (c : Console) (p : Printout) : Option String :=
  match p with
  | .json s => if Json.isReadable s then some (c.printed p) else none
  | p => some (c.printed p)

end Console
end ApiScribe
