import ApiScribe.Entries
import ApiScribe.Json.Reader
import ApiScribe.Text.Character
import ApiScribe.Text.Search
import ApiScribe.TypeText

/-! Enums in source files. The first enum of a file is read line by line: each line gives a name
to a value, and a comment on a line of its own belongs to the next member. -/
namespace ApiScribe

/-- A member that a source file declares. -/
structure SourceMember where
  name : String
  comment : Option String := none
  deriving Repr, DecidableEq, Inhabited

/-- The enum of a source file: its name, and its members by the text of their values. -/
structure SourceEnum where
  name : String
  members : Entries String SourceMember
  deriving Repr, DecidableEq, Inhabited

/-- Enums that source files declare, by name. -/
abbrev SourceEnums := Entries String (Entries String SourceMember)

namespace SourceEnum

/-- At least one blank, and what follows the blanks. -/
def afterBlanks? (cs : List Char) : Option (List Char) :=
  match cs with
  | c :: rest => if Text.isBlank c then some (Text.trimStart rest) else none
  | [] => none

/-- The name of an enum whose head stands at the front of a text, and the text behind the head. -/
def headAt? (cs : List Char) : Option (List Char × List Char) := do
  let cs ← afterBlanks? (← Text.after? "export".toList cs)
  let cs ← afterBlanks? (← Text.after? "enum".toList cs)
  match cs with
  | [] => none
  | c :: _ =>
    if TypeText.isWordStart c then
      match Text.trimStart (cs.dropWhile TypeText.isWordChar) with
      | '{' :: rest => some (cs.takeWhile TypeText.isWordChar, rest)
      | _ => none
    else none

/-- The first head of an enum in a text. -/
def findHead? : List Char → Option (List Char × List Char)
  | [] => none
  | c :: cs =>
    match headAt? (c :: cs) with
    | some r => some r
    | none => findHead? cs

/-- The key of a written value: a text in quotes stands for what it says. -/
def valueKey (raw : List Char) : String :=
  let text := String.ofList raw
  if raw.head? = some '"' then
    match Json.read text with
    | .ok (.str s) => s
    | _ => text
  else text

/-- What a trimmed line can be. -/
inductive Line
  | comment (text : Option String)
  | skipped
  | member (name value : List Char)
  | other
  deriving Repr, DecidableEq

/-- The comment of a line that is a comment as a whole. -/
def commentOf (line : List Char) : Option String :=
  let text := Text.trim ((line.take (line.length - 2)).drop 3)
  if text.isEmpty then none else some (String.ofList text)

/-- Without commas at the end. -/
def withoutCommas (line : List Char) : List Char := (line.reverse.dropWhile (· = ',')).reverse

/-- What a trimmed line is. -/
def lineOf (line : List Char) : Line :=
  let starts (p : String) : Bool := Text.startsWith p.toList line
  if starts "/**" && Text.endsWith "*/".toList line then .comment (commentOf line)
  else if line.isEmpty || starts "*" || starts "//" || starts "/*" then .skipped
  else match Text.cut? ['='] (withoutCommas line) with
    | none => .other
    | some (name, value) =>
      let name := Text.trim name
      let value := Text.trim value
      if name.isEmpty || value.isEmpty then .other else .member name value

/-- Reads lines; `pending` is the comment for the next member. -/
def readLines (pending : Option String) (found : Entries String SourceMember) :
    List (List Char) → Entries String SourceMember
  | [] => found
  | l :: ls =>
    match lineOf (Text.trim l) with
    | .comment text => readLines text found ls
    | .skipped => readLines pending found ls
    | .other => readLines none found ls
    | .member name value =>
      readLines none (found.put (valueKey value) ⟨String.ofList name, pending⟩) ls

/-- The first enum of a source file, if there is one. -/
def read (content : String) : Option SourceEnum := do
  let (name, rest) ← findHead? content.toList
  let (body, _) ← Text.cut? ['}'] rest
  some ⟨String.ofList name, readLines none [] (Text.lines body)⟩

end SourceEnum
end ApiScribe
