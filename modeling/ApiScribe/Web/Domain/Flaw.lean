import ApiScribe.Value.Shown

/-! What can be wrong with the name of a domain or with one of its labels. -/
namespace ApiScribe
namespace Domain

/-- A flaw. Places count from one. -/
inductive Flaw
  | emptyName
  | longName
  | emptyLabel
  | longLabel
  | composition
  | innerHyphens
  | outerHyphen
  | firstMark
  /-- A character that no label holds. -/
  | stranger (c : Char) (place : Nat) (label : List Char)
  /-- A joiner between letters that do not join. -/
  | joiner (c : Char) (place : Nat) (label : List Char)
  /-- A character that other characters must stand beside. -/
  | lonely (c : Char) (place : Nat) (label : List Char)
  | firstDirection (label : List Char)
  | againstRight (place : Nat)
  | againstLeft (place : Nat)
  | mixedDigits
  | lastDirection
  | nothingTold
  | endHyphen
  | untold
  deriving Repr, DecidableEq

/-- The number of a character, with four digits at least. -/
def codeText (c : Char) : String :=
  let ds := (Nat.toDigits 16 c.toNat).map Char.toUpper
  "U+" ++ String.ofList (List.replicate (4 - ds.length) '0' ++ ds)

/-- A label in quotes. -/
def shownLabel (label : List Char) : String := shownText (String.ofList label)

/-- The wording of a flaw. -/
def Flaw.text : Flaw → String
  | emptyName => "Empty domain"
  | longName => "Domain too long"
  | emptyLabel => "Empty Label"
  | longLabel => "Label too long"
  | composition => "Label must be in Normalization Form C"
  | innerHyphens => "Label has disallowed hyphens in 3rd and 4th position"
  | outerHyphen => "Label must not start or end with a hyphen"
  | firstMark => "Label begins with an illegal combining character"
  | stranger c place label =>
    "Codepoint " ++ codeText c ++ " at position " ++ toString place ++ " of " ++ shownLabel label
      ++ " not allowed"
  | joiner c place label =>
    "Unknown codepoint adjacent to joiner " ++ codeText c ++ " at position " ++ toString place
      ++ " in " ++ shownLabel label
  | lonely c place label =>
    "Codepoint " ++ codeText c ++ " not allowed at position " ++ toString place ++ " in "
      ++ shownLabel label
  | firstDirection label =>
    "First codepoint in label " ++ shownLabel label ++ " must be directionality L, R or AL"
  | againstRight place =>
    "Invalid direction for codepoint at position " ++ toString place ++ " in a right-to-left label"
  | againstLeft place =>
    "Invalid direction for codepoint at position " ++ toString place ++ " in a left-to-right label"
  | mixedDigits => "Can not mix numeral types in a right-to-left label"
  | lastDirection => "Label ends with illegal codepoint directionality"
  | nothingTold => "Malformed A-label, no Punycode eligible content found"
  | endHyphen => "A-label must not end with a hyphen"
  | untold => "Invalid A-label"

end Domain
end ApiScribe
