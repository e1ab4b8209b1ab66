/-! Command lines split into words. Blanks separate words; quotes keep them together, and a
backslash keeps the next character, inside double quotes only a quote or a backslash. -/
namespace ApiScribe
namespace Shell

/-- Where a reader of words is: between words, in a word, in quotes, or behind a backslash that
stood in quotes or not. -/
inductive Spot
  | between
  | inWord
  | inQuotes (quote : Char)
  | behind (quote : Option Char)
  deriving Repr, DecidableEq

/-- A blank between words. -/
def isSeparator (c : Char) : Bool := c == ' ' || c == '\t' || c == '\r' || c == '\n'

/-- The words of a command line, where `word` holds the characters of the word under way, last
first. A quote or a backslash at the end is an error. -/
def wordsFrom (spot : Spot) (word : List Char) : List Char → Option (List String)
  | [] => match spot with
    | .between => some []
    | .inWord => some [String.ofList word.reverse]
    | _ => none
  | c :: cs =>
    match spot with
    | .between =>
      if isSeparator c then wordsFrom .between [] cs
      else if c = '\'' || c = '"' then wordsFrom (.inQuotes c) [] cs
      else if c = '\\' then wordsFrom (.behind none) [] cs
      else wordsFrom .inWord [c] cs
    | .inWord =>
      if isSeparator c then
        (wordsFrom .between [] cs).map (String.ofList word.reverse :: ·)
      else if c = '\'' || c = '"' then wordsFrom (.inQuotes c) word cs
      else if c = '\\' then wordsFrom (.behind none) word cs
      else wordsFrom .inWord (c :: word) cs
    | .inQuotes q =>
      if c = q then wordsFrom .inWord word cs
      else if c = '\\' && q = '"' then wordsFrom (.behind (some q)) word cs
      else wordsFrom (.inQuotes q) (c :: word) cs
    | .behind none => wordsFrom .inWord (c :: word) cs
    | .behind (some q) =>
      wordsFrom (.inQuotes q) (if c = q || c = '\\' then c :: word else c :: '\\' :: word) cs

/-- The words of a command line. -/
def splitWords (line : String) : Option (List String) := wordsFrom .between [] line.toList

end Shell
end ApiScribe
