import ApiScribe.Text.Character
import ApiScribe.Text.Search

/-! Command lines in their parts: settings that options make, and words. An option has long names
behind two dashes and short ones behind one; short ones can be run together, and a value can be
attached to its option. -/
namespace ApiScribe

/-- An option: the key of the setting that it makes, its names, and the value that it stands for
unless it takes the next word. -/
structure OptionRule where
  key : String
  names : List String
  stands : Option String := none
  deriving Repr, DecidableEq, Inhabited

/-- A command line in its parts. -/
structure CommandLine where
  settings : List (String × String) := []
  words : List String := []
  deriving Repr, DecidableEq, Inhabited

namespace CommandLine

/-- Settings in front of a command line. -/
def withSettings (ss : List (String × String)) (l : CommandLine) : CommandLine :=
  { l with settings := ss ++ l.settings }

/-- A word in front of a command line. -/
def withWord (w : String) (l : CommandLine) : CommandLine := { l with words := w :: l.words }

/-- The option with a name. -/
def rule? (rules : List OptionRule) (name : String) : Option OptionRule :=
  rules.find? (·.names.contains name)

/-- Whether a word is made of options: a dash with something behind it. -/
def isOptional (word : String) : Bool := word.startsWith "-" && word ≠ "-"

/-- The settings that short names run together make. The last one may take a value, which is what
is left of the word if anything is; its key is returned if the value is still to come. -/
def shortSettings (rules : List OptionRule) :
    List Char → Option (List (String × String) × Option String)
  | [] => some ([], none)
  | c :: cs => do
    let r ← rule? rules (String.ofList ['-', c])
    match r.stands with
    | some v =>
      let (more, open_) ← shortSettings rules cs
      some ((r.key, v) :: more, open_)
    | none =>
      if cs.isEmpty then some ([], some r.key) else some ([(r.key, String.ofList cs)], none)

/-- The settings of a word that is made of options, and the key of a setting whose value is still
to come. -/
def wordSettings (rules : List OptionRule) (word : String) :
    Option (List (String × String) × Option String) :=
  let (name, attached) := match Text.cut? ['='] word.toList with
    | some (name, v) => (String.ofList name, some (String.ofList v))
    | none => (word, none)
  match rule? (rules.filter fun r => name.startsWith "--" && r.names.contains name) name with
  | some r => match r.stands, attached with
    | some v, none => some ([(r.key, v)], none)
    | some _, some _ => none
    | none, some v => some ([(r.key, v)], none)
    | none, none => some ([], some r.key)
  | none => if word.startsWith "--" then none else shortSettings rules (word.toList.drop 1)

/-- Reads words. Two dashes end the options; unless options may follow words, so does the first
word. -/
def read (rules : List OptionRule) (mixed : Bool) : List String → Option CommandLine
  | [] => some {}
  | w :: ws =>
    if w = "--" then some { words := ws }
    else if isOptional w then
      match wordSettings rules w with
      | none => none
      | some (ss, none) => (read rules mixed ws).map (withSettings ss)
      | some (ss, some key) => match ws with
        | [] => none
        | v :: ws => (read rules mixed ws).map (withSettings (ss ++ [(key, v)]))
    else if mixed then (read rules mixed ws).map (withWord w)
    else some { words := w :: ws }

/-- All values of a setting in order. -/
def all (l : CommandLine) (key : String) : List String :=
  l.settings.filterMap fun s => if s.1 = key then some s.2 else none

/-- The last value of a setting. -/
def last? (l : CommandLine) (key : String) : Option String := (l.all key).getLast?

/-- Whether a setting is made. -/
def has (l : CommandLine) (key : String) : Bool := (l.last? key).isSome

/-- The integer that a text writes: decimal digits of any script with single underscores between
them, an optional sign, and blanks around it. -/
def integer? (text : String) : Option Int :=
  let (negative, body) := match Text.trim text.toList with
    | '-' :: cs => (true, cs)
    | '+' :: cs => (false, cs)
    | cs => (false, cs)
  let groups := Text.splitAt '_' body
  if groups.any List.isEmpty then none
  else (Text.decimalNumber? groups.flatten).map fun n => if negative then -n else n

/-- An optional setting that is an integer of at least `low`. -/
def integerAtLeast? (l : CommandLine) (key : String) (low : Int) : Option (Option Int) :=
  match l.last? key with
  | none => some none
  | some text => do
    let n ← integer? text
    if low ≤ n then some (some n) else none

end CommandLine
end ApiScribe
