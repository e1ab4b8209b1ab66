import ApiScribe.Text.Character
import ApiScribe.Text.Search
import ApiScribe.Web.Domain.Context
import ApiScribe.Web.Domain.Flaw
import ApiScribe.Web.Domain.Mark
import ApiScribe.Web.Domain.Punycode

/-! Directions of writing. A name that is written from right to left starts with a letter of that
direction, ends with such a letter or a digit, and holds digits of one kind; letters of the other
direction are not mixed in. -/
namespace ApiScribe
namespace Domain

/-- How a character goes with a direction of writing. -/
inductive Direction
  | left
  | right
  | digit
  | arabicDigit
  | sign
  | mark
  deriving Repr, DecidableEq

open Text (Range inRanges)

/-- The letters written from right to left. -/
def rightRanges : List Range :=
  [(1488, 1524), (1568, 1610), (1646, 1647), (1649, 1749), (1765, 1766), (1774, 1775), (1786, 1808),
   (1810, 1839), (1869, 1957), (1969, 1969), (1984, 2026), (2036, 2037), (2048, 2069), (2074, 2074),
   (2084, 2084), (2088, 2088), (2112, 2136), (2144, 2190), (2208, 2249), (65139, 65139), (67584,
   68096), (68112, 68149), (68192, 68324), (68352, 68850), (68864, 68899), (69248, 69289), (69296,
   69415), (69424, 69445), (69488, 69505), (69552, 69622), (124928, 125124), (125218, 125251),
   (125259, 125273)]

/-- The digits of the Arabic scripts. -/
def arabicDigitRanges : List Range :=
  [(1632, 1641), (68912, 68921)]

/-- The digits of the other scripts. -/
def digitRanges : List Range :=
  [(48, 57), (1776, 1785)]

/-- The signs of no direction. -/
def signRanges : List Range :=
  [(45, 45), (183, 183), (697, 698), (710, 719), (748, 748), (885, 885), (8204, 8205), (11823,
   11823), (12539, 12539), (42623, 42623), (42775, 42783), (42888, 42888)]

/-- The direction of a character that a name may hold. -/
def direction (c : Char) : Direction :=
  if inRanges rightRanges c then .right
  else if inRanges arabicDigitRanges c then .arabicDigit
  else if inRanges digitRanges c then .digit
  else if inRanges signRanges c then .sign
  else if isBareMark c then .mark
  else .left

/-- The last direction that is not that of a mark. -/
def lastDirection? (ds : List Direction) : Option Direction := ds.reverse.find? (· ≠ .mark)

/-- The first flaw of a name that is written from right to left, from a place on; `digits` is the kind
of the digits so far. -/
def rightwardFlaw? (place : Nat) (digits : Option Direction) : List Direction → Option Flaw
  | [] => none
  | d :: ds =>
    if d = .left then some (.againstRight place)
    else if d = .digit || d = .arabicDigit then
      if digits.all (· = d) then rightwardFlaw? (place + 1) (some d) ds else some .mixedDigits
    else rightwardFlaw? (place + 1) digits ds

/-- The first flaw of a name that is written from left to right. -/
def leftwardFlaw? (ds : List Direction) : Option Flaw :=
  (ds.findIdx? fun d => d = .right || d = .arabicDigit).map fun i => .againstLeft (i + 1)

/-- The first flaw in the directions of a name. A name with no letter or digit that is written from
right to left has no rules to keep. -/
def directionFlaw? (label : List Char) : Option Flaw :=
  let ds := label.map direction
  if !ds.contains .right && !ds.contains .arabicDigit then none
  else
    let finish (ends : List Direction) : Option Flaw :=
      if (lastDirection? ds).any ends.contains then none else some .lastDirection
    match ds.head? with
    | some .right => (rightwardFlaw? 1 none ds).or (finish [.right, .digit, .arabicDigit])
    | some .left => (leftwardFlaw? ds).or (finish [.left, .digit])
    | _ => some (.firstDirection label)

end Domain
end ApiScribe

/-! Names of domains: labels between dots. The network knows plain characters only, so a label with
other characters is written in plain ones after a sign for that. -/
namespace ApiScribe
namespace Domain

/-- The most characters of a name. -/
def mostCharacters : Nat := 253

/-- The most characters of a label in plain characters. -/
def mostInLabel : Nat := 63

/-- Passes if a label is well made. -/
def check (label : List Char) : Except Flaw Unit := do
  if label.isEmpty then throw .emptyLabel
  if mostCharacters + 1 < label.length then throw .longLabel
  if composed label ≠ label then throw .composition
  if (label.drop 2).take 2 = ['-', '-'] then throw .innerHyphens
  if label.head? = some '-' || label.getLast? = some '-' then throw .outerHyphen
  if label.head?.any isMark then throw .firstMark
  match (characterFlaw? label [] label).or (directionFlaw? label) with
  | some f => throw f
  | none => return ()

/-- The sign in front of a label that is written in plain characters. -/
def plainSign : List Char := ['x', 'n', '-', '-']

/-- The label that plain characters tell; a label that has other characters tells itself. -/
def fullLabel (label : List Char) : Except Flaw (List Char) := do
  let told ←
    if !label.all Punycode.isPlain then pure label
    else
      let plain := label.map Char.toLower
      match Text.after? plainSign plain with
      | none => pure plain
      | some rest =>
        if rest.isEmpty then throw .nothingTold
        else if rest.getLast? = some '-' then throw .endHyphen
        else match Punycode.decode? rest with
          | none => throw .untold
          | some told => pure told
  check told
  return told

/-- A label in plain characters. -/
def plainLabel (label : List Char) : Except Flaw (List Char) := do
  let plain ←
    if label.all Punycode.isPlain then do
      let _ ← fullLabel label
      pure label
    else do
      check label
      pure (plainSign ++ Punycode.encode label)
  if mostInLabel < plain.length then throw .longLabel
  return plain

/-- The dots between labels. -/
def isDot (c : Char) : Bool := c == '.' || c == '\u3002' || c == '\uff0e' || c == '\uff61'

/-- Rewords each label of a name; a dot may end it. -/
def mapLabels (f : List Char → Except Flaw (List Char)) (name : List Char) :
    Except Flaw (List Char) := do
  if mostCharacters + 1 < name.length then throw .longName
  let labels := Text.splitAt '.' (name.map fun c => if isDot c then '.' else c)
  if labels = [[]] then throw .emptyName
  let isRooted := labels.getLast? = some []
  let labels ← (if isRooted then labels.dropLast else labels).mapM f
  return (['.'] : List Char).intercalate (if isRooted then labels ++ [[]] else labels)

/-- A name in plain characters. -/
def plain (name : List Char) : Except Flaw (List Char) := do
  let plain ← mapLabels plainLabel name
  let most := if plain.getLast? = some '.' then mostCharacters + 1 else mostCharacters
  if most < plain.length then throw .longName
  return plain

/-- The name that plain characters tell. -/
def full (name : List Char) : Except Flaw (List Char) := mapLabels fullLabel name

end Domain
end ApiScribe
