import ApiScribe.Fault
import ApiScribe.Plan
import ApiScribe.Shell.Run
import ApiScribe.Shell.Words
import ApiScribe.Text.Character

/-! Formatters: planned files pass through as they are, or each goes through a program that reads
it and writes it anew. -/
namespace ApiScribe

/-- Formatters. -/
inductive Formatter
  /-- Files stay as they are. -/
  | none
  /-- A program with arguments, and the seconds that it may take for a file. -/
  | program (words : List String) (seconds : Float)

namespace Formatter

/-- The formatter with a command, if there is one. -/
def ofCommand (words : Option (List String)) : Formatter :=
  match words with
  | some (w :: ws) => .program (w :: ws) 30.0
  | _ => .none

/-- The words of a command line; it must not be empty. -/
def splitCommand (line : String) : Outcome (List String) := do
  match ← Outcome.expect (Shell.splitWords line) with
  | [] => .fail .emptyFormatter
  | words => return words

/-- The text of bytes that a program wrote, with line feeds for all kinds of line ends. -/
def decoded (bs : Bytes) : Outcome String := do
  let s ← Outcome.expect (Text.ofUtf8? bs)
  return String.ofList (Text.unifyNewlines s.toList)

/-- Formats the content of the file at a path. The program learns the path from its arguments. -/
def format (f : Formatter) (path content : String) : Outcome String :=
  match f with
  | .none => .ok content
  | .program words seconds =>
    match Shell.runProgram (words ++ ["--stdin-filepath", path]) (Text.utf8 content) with
    | .missing => match words with
      | word :: _ => .fail (.formatterMissing word)
      | [] => .unexpected
    | .refused => .unexpected
    | .finished code out err taken =>
      if taken > seconds then .fail (.formatterTimeout path)
      else do
        let out ← decoded out
        let detail := Text.trimmed (← decoded err)
        if code = 0 then return out
        else .fail (.formatterFailed path
          (if detail = "" then "exit code " ++ toString code else detail))

/-- Formats files, up to the first that fails. -/
def formatAll (f : Formatter) (files : List PlannedFile) : Outcome (List PlannedFile) :=
  files.mapM fun p => return ⟨p.path, ← f.format p.path p.content⟩

end Formatter
end ApiScribe
