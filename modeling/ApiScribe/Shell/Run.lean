import ApiScribe.Checked
import ApiScribe.Shell.Script
import ApiScribe.Shell.Tool

/-! Running scripts and the programs that a formatter command may name. A run reads bytes, writes
bytes to two streams, takes time, and ends with a code. -/
namespace ApiScribe
namespace Shell

/-- What a script under way knows: its parameters, what is left of its input, what it wrote, the
code of its last command, the seconds that went by, and whether it ended. -/
structure Scene where
  name : String
  args : List String
  bindings : List (String × String) := []
  input : Bytes
  out : Bytes := []
  err : Bytes := []
  code : Int := 0
  seconds : Float := 0
  ended : Bool := false

/-- What a tool did. -/
structure Deed where
  out : Bytes := []
  err : Bytes := []
  code : Int := 0
  seconds : Float := 0
  readsInput : Bool := false

namespace Scene

/-- The value of a parameter. -/
def param (s : Scene) (name : String) : String :=
  if name = "0" then s.name
  else if name = "@" || name = "*" then " ".intercalate s.args
  else if name = "#" then toString s.args.length
  else if name = "?" then toString s.code
  else if name = "$" then "1"
  else match name.toNat? with
    | some n => (s.args[n - 1]?).getD ""
    | none => (s.bindings.lookup name).getD ""

end Scene

/-- Fields under way: those complete, last first, and the one that is not. -/
structure Fields where
  complete : List String := []
  current : Option (List Char) := none

namespace Fields

/-- Adds text to the current field. -/
def add (f : Fields) (cs : List Char) : Fields := { f with current := some (f.current.getD [] ++ cs) }

/-- Ends the current field. -/
def cut (f : Fields) : Fields :=
  match f.current with
  | some cs => ⟨String.ofList cs :: f.complete, none⟩
  | none => f

/-- Adds text that is split at blanks. -/
def addSplit (f : Fields) (cs : List Char) : Fields :=
  cs.foldl (fun f c => if c = ' ' || c = '\t' || c = '\n' then f.cut else f.add [c]) f

/-- Adds texts, each in a field of its own. -/
def addEach : Fields → List String → Fields
  | f, [] => f
  | f, [s] => f.add s.toList
  | f, s :: rest => addEach (f.add s.toList).cut rest

/-- The fields in order. -/
def toList (f : Fields) : List String := f.cut.complete.reverse

end Fields

/-- Where the two streams of a command go: to the first stream, to the second, or away. -/
def routed (routes : List Route) : Option Nat × Option Nat :=
  routes.foldl (fun (m : Option Nat × Option Nat) r =>
    match r with
    | .toStream source target =>
      let goal := if target = 1 then m.1 else m.2
      if source = 1 then (goal, m.2) else (m.1, goal)
    | .away source => if source = 1 then (none, m.2) else (m.1, none)) (some 1, some 2)

/-- Adds what a deed wrote to where its streams go. -/
def Scene.record (s : Scene) (routes : List Route) (d : Deed) : Scene :=
  let (first, second) := routed routes
  let write (s : Scene) (goal : Option Nat) (bs : Bytes) : Scene :=
    match goal with
    | some 1 => { s with out := s.out ++ bs }
    | some _ => { s with err := s.err ++ bs }
    | none => s
  let s := write (write s first d.out) second d.err
  { s with
    code := d.code, seconds := s.seconds + d.seconds,
    input := if d.readsInput then [] else s.input }

/-- The seconds that a text names. -/
def secondsOf (text : String) : Float := (Text.Number.decimal? false text.toList).getD 0

/-- A tool that makes output of its input, or fails because it knows no such arguments. -/
def filterDeed (name : String) (out : Option Bytes) : Deed :=
  match out with
  | some bs => { out := bs, readsInput := true }
  | none => { err := Text.utf8 (name ++ ": invalid arguments\n"), code := 1 }

/-- The code of a truth value. -/
def truthCode (b : Bool) : Int := if b then 0 else 1

/-- Whether a test holds. -/
def testHolds : List String → Bool
  | [] => false
  | [s] => s ≠ ""
  | ["-n", s] => s ≠ ""
  | ["-z", s] => s = ""
  | "!" :: rest => match rest with
    | [s] => s = ""
    | [a, "=", b] => a ≠ b
    | _ => false
  | [a, "=", b] => a = b
  | [a, "!=", b] => a ≠ b
  | [a, "-eq", b] => a.toInt? == b.toInt?
  | [a, "-ne", b] => a.toInt? != b.toInt?
  | _ => false

/-- What a tool does with arguments and input. -/
def tool? (name : String) (args : List String) (input : Bytes) : Option Deed :=
  match name with
  | ":" | "true" => some {}
  | "false" => some { code := 1 }
  | "echo" => some { out := echo args }
  | "printf" => some { out := printf args }
  | "cat" => match args.filter (· ≠ "-") with
    | [] => some { out := input, readsInput := true }
    | file :: _ =>
      some { err := Text.utf8 ("cat: " ++ file ++ ": No such file or directory\n"), code := 1 }
  | "tr" => some (filterDeed name (tr args input))
  | "sed" => some (filterDeed name (sed args input))
  | "head" => some (filterDeed name (headOf args input))
  | "tail" => some (filterDeed name (tailOf args input))
  | "sleep" => some { seconds := secondsOf (args.headD "0") }
  | "test" => some { code := truthCode (testHolds args) }
  | "[" => some { code := truthCode (testHolds args.dropLast) }
  | _ => none

/-- The number of a signal. -/
def signalNumber (option : String) : Int :=
  match option with
  | "-9" | "-KILL" => 9
  | "-2" | "-INT" => 2
  | "-1" | "-HUP" => 1
  | "-6" | "-ABRT" => 6
  | _ => 15

/-- Runs a simple command: a word of the shell itself, a tool, or nothing that is known. -/
def Scene.call (s : Scene) (routes : List Route) : List String → Scene
  | [] => s.record routes {}
  | "exit" :: args =>
    let code := match args with
      | a :: _ => (a.toInt?.getD 2) % 256
      | [] => s.code
    { s with code, ended := true }
  | "kill" :: args =>
    if args.getLast? = some "1" then
      { s with code := -signalNumber (args.headD ""), ended := true }
    else s.record routes { code := 1 }
  | "exec" :: name :: args =>
    match tool? name args s.input with
    | some d => { s.record routes d with ended := true }
    | none =>
      let text := s.name ++ ": 1: exec: " ++ name ++ ": not found\n"
      { s.record routes { err := Text.utf8 text, code := 127 } with ended := true }
  | name :: args =>
    match tool? name args s.input with
    | some d => s.record routes d
    | none =>
      s.record routes { err := Text.utf8 (s.name ++ ": 1: " ++ name ++ ": not found\n"), code := 127 }

/-- The variable and value of an assignment. -/
def assignment? (text : String) : Option (String × String) :=
  let name := text.toList.takeWhile (· ≠ '=')
  match text.toList.dropWhile (· ≠ '=') with
  | _ :: value =>
    if !name.isEmpty && name.all isParamChar && !(name.headD '0').isDigit then
      some (String.ofList name, String.ofList value)
    else none
  | [] => none

/-- Whether a text fits a pattern of stars, question marks and other characters. -/
def fitsPattern : Nat → List Char → List Char → Bool
  | 0, _, _ => false
  | fuel + 1, p, cs => match p, cs with
    | [], cs => cs.isEmpty
    | '*' :: p, cs =>
      fitsPattern fuel p cs || (match cs with
        | _ :: cs => fitsPattern fuel ('*' :: p) cs
        | [] => false)
    | '?' :: p, _ :: cs => fitsPattern fuel p cs
    | a :: p, c :: cs => a = c && fitsPattern fuel p cs
    | _ :: _, [] => false

/-- The text without line feeds at the end. -/
def withoutLineEnds (bs : Bytes) : Bytes := (bs.reverse.dropWhile (· == 10)).reverse

mutual

/-- The fields of a word. -/
def fieldsOf (fuel : Nat) (w : Word) (f : Fields) (s : Scene) : Fields × Scene :=
  match fuel with
  | 0 => (f, s)
  | fuel + 1 => match w with
    | [] => (f, s)
    | .text cs _ :: w => fieldsOf fuel w (f.add cs) s
    | .param name quoted :: w =>
      let f := if quoted then
          if name = "@" then f.addEach s.args else f.add (s.param name).toList
        else f.addSplit (s.param name).toList
      fieldsOf fuel w f s
    | .output script quoted :: w =>
      let inner := match parse script with
        | some c => run fuel c { s with out := [] }
        | none => { s with out := [], code := 2 }
      let text := (Text.ofUtf8? (withoutLineEnds inner.out)).getD ""
      let f := if quoted then f.add text.toList else f.addSplit text.toList
      fieldsOf fuel w f
        { s with err := inner.err, code := inner.code, seconds := inner.seconds, input := inner.input }

/-- The fields of words. -/
def allFields (fuel : Nat) (ws : List Word) (s : Scene) : List String × Scene :=
  match fuel with
  | 0 => ([], s)
  | fuel + 1 => match ws with
    | [] => ([], s)
    | w :: ws =>
      let (f, s) := fieldsOf fuel w {} s
      let (rest, s) := allFields fuel ws s
      (f.toList ++ rest, s)

/-- Runs a command. -/
def run (fuel : Nat) (c : Command) (s : Scene) : Scene :=
  match fuel with
  | 0 => s
  | fuel + 1 =>
    if s.ended then s
    else match c with
    | .empty => { s with code := 0 }
    | .simple ws routes =>
      let (fields, s) := allFields fuel ws s
      match fields.mapM assignment? with
      | some (v :: vs) => { s with bindings := (v :: vs).reverse ++ s.bindings, code := 0 }
      | _ => s.call routes fields
    | .joined .sequence a b =>
      let s := run fuel a s
      match b with
      | .empty => s
      | b => run fuel b s
    | .joined .both a b =>
      let s := run fuel a s
      if s.code = 0 then run fuel b s else s
    | .joined .either a b =>
      let s := run fuel a s
      if s.code = 0 then s else run fuel b s
    | .joined .pipe a b =>
      let first := run fuel a { s with out := [] }
      let second := run fuel b
        { s with input := first.out, err := first.err, seconds := first.seconds }
      { second with ended := false, input := first.input, bindings := s.bindings }
    | .inverted a =>
      let s := run fuel a s
      { s with code := truthCode (s.code != 0) }
    | .isolated a =>
      let inner := run fuel a s
      { inner with ended := false, bindings := s.bindings }
    | .condition test success failure =>
      let s := run fuel test s
      if s.code = 0 then run fuel success s else run fuel failure s
    | .choice subject bs =>
      let (f, s) := fieldsOf fuel subject {} s
      runBranch fuel (" ".intercalate f.toList).toList bs s

/-- Runs the first branch with a pattern that fits. -/
def runBranch (fuel : Nat) (subject : List Char) (bs : List (List Word × Command)) (s : Scene) :
    Scene :=
  match fuel with
  | 0 => s
  | fuel + 1 => match bs with
    | [] => { s with code := 0 }
    | (ws, body) :: bs =>
      let (patterns, s) := allFields fuel ws s
      if patterns.any fun p => fitsPattern (p.length + subject.length + 1) p.toList subject then
        run fuel body s
      else runBranch fuel subject bs s

end

/-- How a program ended. -/
inductive Ending
  /-- There is no such program. -/
  | missing
  /-- It may not be run. -/
  | refused
  /-- It ran. -/
  | finished (code : Int) (out err : Bytes) (seconds : Float)

/-- Runs a program that exists with arguments and input. -/
def runProgram (words : List String) (input : Bytes) : Ending :=
  match words with
  | [] => .missing
  | program :: args =>
    let name := (program.splitOn "/").getLastD ""
    match name, args with
    | "", _ => .refused
    | "sh", "-c" :: script :: rest =>
      match parse script.toList with
      | some c =>
        let s := run (20 * script.length + 200) c
          { name := rest.headD "sh", args := rest.drop 1, input }
        .finished s.code s.out s.err s.seconds
      | none => .finished 2 [] (Text.utf8 "sh: 1: Syntax error\n") 0
    | "true", _ => .finished 0 [] [] 0
    | "false", _ => .finished 1 [] [] 0
    | "echo", _ => .finished 0 (Text.utf8 (" ".intercalate args ++ "\n")) [] 0
    | "cat", _ =>
      match args.find? (·.startsWith "-") with
      | some option =>
        let text := "cat: unrecognized option '" ++ option
          ++ "'\nTry 'cat --help' for more information.\n"
        .finished 1 [] (Text.utf8 text) 0
      | none => .finished 0 input [] 0
    | _, _ => .missing

end Shell
end ApiScribe
