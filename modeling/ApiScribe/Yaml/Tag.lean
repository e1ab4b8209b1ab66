import ApiScribe.Moment
import ApiScribe.Text.Search
import ApiScribe.Yaml.Cursor

/-! The written forms of dates and moments. -/
namespace ApiScribe
namespace Yaml

/-- The number of a run of digits. -/
def decimalNumber (cs : List Char) : Nat := cs.foldl (fun n c => 10 * n + (c.toNat - 48)) 0

/-- At least `least` and at most `most` digits, and what follows. -/
def digitRun? (least most : Nat) (cs : List Char) : Option (List Char × List Char) :=
  let run := (cs.take most).takeWhile Char.isDigit
  if least ≤ run.length then some (run, cs.drop run.length) else none

/-- What follows a character. -/
def behind? (c : Char) : List Char → Option (List Char)
  | d :: cs => if c == d then some cs else none
  | [] => none

/-- A blank or a tab. -/
def isGap (c : Char) : Bool := c == ' ' || c == '\t'

/-- A zone: `Z`, or hours and minutes with a sign; nothing may follow it. -/
def zone? : List Char → Option Int
  | ['Z'] => some 0
  | s :: cs => do
    let negative ← if s == '-' then some true else if s == '+' then some false else none
    let (hours, cs) ← digitRun? 1 2 cs
    let minutes ← match cs with
      | [] => some []
      | _ => do
        let (minutes, cs) ← digitRun? 2 2 (← behind? ':' cs)
        if cs.isEmpty then some minutes else none
    let offset : Int := 60 * decimalNumber hours + decimalNumber minutes
    some (if negative then -offset else offset)
  | [] => none

/-- The time of a day, after the mark that separates it from the date. -/
def clock? (cs : List Char) : Option Clock := do
  let (hour, cs) ← digitRun? 1 2 cs
  let (minute, cs) ← digitRun? 2 2 (← behind? ':' cs)
  let (second, cs) ← digitRun? 2 2 (← behind? ':' cs)
  let (fraction, cs) := match cs with
    | '.' :: more => (more.takeWhile Char.isDigit, more.dropWhile Char.isDigit)
    | _ => ([], cs)
  let micro := decimalNumber ((fraction ++ List.replicate 6 '0').take 6)
  let offset ← if cs.isEmpty then some none else (zone? (cs.dropWhile isGap)).map some
  some ⟨decimalNumber hour, decimalNumber minute, decimalNumber second, micro, offset⟩

/-- Reads a date or a moment; also tells whether month and day have two digits each. -/
def moment? (cs : List Char) : Option (Moment × Bool) := do
  let (year, cs) ← digitRun? 4 4 cs
  let (month, cs) ← digitRun? 1 2 (← behind? '-' cs)
  let (day, cs) ← digitRun? 1 2 (← behind? '-' cs)
  let narrow := month.length == 2 && day.length == 2
  let clock ← match cs with
    | [] => some none
    | c :: rest =>
      if c == 'T' || c == 't' then (clock? rest).map some
      else if isGap c then (clock? (rest.dropWhile isGap)).map some
      else none
  some (⟨decimalNumber year, decimalNumber month, decimalNumber day, clock⟩, narrow)

/-- The form of a moment, or of a date with two digits for month and day. -/
def isMoment (cs : List Char) : Bool :=
  (moment? cs).any fun (t, narrow) => narrow || t.clock.isSome

end Yaml
end ApiScribe

/-! Tags: what a node says it is. A scalar without a tag and without quotes is of the first kind
whose form its text has, and a text if it has none of these forms. -/
namespace ApiScribe
namespace Yaml

/-- Tags. -/
inductive Tag
  | null
  | bool
  | int
  | float
  | binary
  | timestamp
  | orderedMap
  | pairs
  | set
  | str
  | seq
  | map
  | merge
  | value
  | other
  deriving Repr, DecidableEq

namespace Tag

/-- The tags that have names, by the part of the name behind the common one. -/
def named : List (String × Tag) :=
  [("null", null), ("bool", bool), ("int", int), ("float", float), ("binary", binary),
   ("timestamp", timestamp), ("omap", orderedMap), ("pairs", pairs), ("set", set), ("str", str),
   ("seq", seq), ("map", map), ("merge", merge), ("value", value)]

/-- The common part of the names of tags. -/
def root : String := "tag:yaml.org,2002:"

/-- The tag with a full name. -/
def ofName (name : String) : Tag :=
  match Text.after? root.toList name.toList with
  | some rest => (named.lookup (String.ofList rest)).getD other
  | none => other

/-- Whether a tag is one of collections. -/
def isCollection : Tag → Bool
  | orderedMap | pairs | set | seq | map => true
  | _ => false

/-- The texts of truth values. -/
def truthTexts : List String :=
  ["yes", "Yes", "YES", "no", "No", "NO", "true", "True", "TRUE", "false", "False", "FALSE",
   "on", "On", "ON", "off", "Off", "OFF"]

/-- The texts of null. -/
def nullTexts : List String := ["~", "null", "Null", "NULL", ""]

/-- Without a sign in front. -/
def unsigned : List Char → List Char
  | '-' :: cs => cs
  | '+' :: cs => cs
  | cs => cs

/-- A digit or an underscore. -/
def isDigitOrGap (c : Char) : Bool := c.isDigit || c == '_'

/-- One or two digits that write a number below sixty. -/
def isSixtieth : List Char → Bool
  | [a] => a.isDigit
  | [a, b] => '0' ≤ a && a ≤ '5' && b.isDigit
  | _ => false

/-- Numbers below sixty after colons, at least one. -/
def areSixtieths (pieces : List (List Char)) : Bool := !pieces.isEmpty && pieces.all isSixtieth

/-- Digits and underscores with a digit in front. -/
def isDigits : List Char → Bool
  | c :: cs => c.isDigit && cs.all isDigitOrGap
  | [] => false

/-- The form of an integer: binary, octal, hexadecimal, decimal, or in sixtieths. -/
def isInt (cs : List Char) : Bool :=
  match unsigned cs with
  | '0' :: 'b' :: ds => !ds.isEmpty && ds.all fun c => c == '0' || c == '1' || c == '_'
  | '0' :: 'x' :: ds => !ds.isEmpty && ds.all fun c => isHex c || c == '_'
  | '0' :: ds => ds.all fun c => ('0' ≤ c && c ≤ '7') || c == '_'
  | ds => match Text.splitAt ':' ds with
    | [whole] => isDigits whole
    | whole :: sixtieths => isDigits whole && areSixtieths sixtieths
    | [] => false

/-- A signed exponent, or none. -/
def isExponent : List Char → Bool
  | [] => true
  | e :: s :: ds =>
    (e == 'e' || e == 'E') && (s == '-' || s == '+') && !ds.isEmpty && ds.all Char.isDigit
  | _ => false

/-- The form of a number with a fraction: decimal, in sixtieths, infinite or undefined. -/
def isFloat (cs : List Char) : Bool :=
  let body := unsigned cs
  let whole := body.takeWhile (· != '.')
  match body.dropWhile (· != '.') with
  | '.' :: tail =>
    let word := String.ofList tail
    let fraction := tail.takeWhile isDigitOrGap
    let rest := tail.dropWhile isDigitOrGap
    if whole.isEmpty then
      word ∈ ["inf", "Inf", "INF"]
        || (body.length == cs.length
            && (word ∈ ["nan", "NaN", "NAN"] || (isDigits fraction && isExponent rest)))
    else match Text.splitAt ':' whole with
      | [digits] => isDigits digits && isExponent rest
      | digits :: sixtieths => isDigits digits && areSixtieths sixtieths && rest.isEmpty
      | [] => false
  | _ => false

/-- The tag of a text that says nothing else. A line feed at the end does not count. -/
def ofPlain (text : String) : Tag :=
  let cs := text.toList
  let cs := if cs.getLast? == some '\n' then cs.dropLast else cs
  let word := String.ofList cs
  if word ∈ truthTexts then bool
  else if isFloat cs then float
  else if isInt cs then int
  else if word = "<<" then merge
  else if text = "" || (word ≠ "" && word ∈ nullTexts) then null
  else if isMoment cs then timestamp
  else if word = "=" then value
  else if word ∈ ["!", "&", "*"] then other
  else str

end Tag
end Yaml
end ApiScribe
