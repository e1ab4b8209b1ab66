import ApiScribe.Text.Character

/-! Identifiers in different styles. A text is split into words at everything that is no ASCII
letter or digit and at the boundaries of case, and words are joined again in the style wanted:
`GetOrderList` in camel case is `getOrderList`, in kebab case `get-order-list`. -/
namespace ApiScribe
namespace Naming

/-- What a character does in a word. -/
inductive LetterClass
  | upper
  | lower
  | digit
  | other
  deriving Repr, DecidableEq

/-- The class of a character; only ASCII letters and digits make words. -/
def classOf (c : Char) : LetterClass :=
  if c.isUpper then .upper
  else if c.isLower then .lower
  else if c.isDigit then .digit
  else .other

/-- The longest run of characters of one class at the front. -/
def run (k : LetterClass) (cs : List Char) : List Char := cs.takeWhile (classOf · = k)

/-- The word at the front of a text that starts with a letter or digit. A run of capitals before a
small letter leaves its last capital to the next word; a single capital joins the small letters
after it. -/
def firstWord (cs : List Char) : List Char :=
  match cs with
  | [] => []
  | c :: _ =>
    match classOf c with
    | .other => []
    | .digit => run .digit cs
    | .lower => run .lower cs
    | .upper =>
      let capitals := run .upper cs
      match cs.drop capitals.length with
      | [] => capitals
      | d :: _ =>
        if classOf d = .lower then
          if capitals.length = 1 then c :: run .lower (cs.drop 1)
          else capitals.take (capitals.length - 1)
        else capitals

theorem firstWord_pos {c : Char} {cs : List Char} (h : classOf c ≠ .other) :
    0 < (firstWord (c :: cs)).length := by
  simp only [firstWord]
  split
  · exact absurd ‹_› h
  · simp [run, *]
  · simp [run, *]
  · have hc : 0 < (run .upper (c :: cs)).length := by simp [run, *]
    split
    · exact hc
    · split
      · split
        · simp
        · simp only [List.length_take]
          omega
      · exact hc

/-- The words of a text, in order. -/
def splitWords (cs : List Char) : List (List Char) :=
  match cs with
  | [] => []
  | c :: rest =>
    if _known : classOf c = .other then splitWords rest
    else
      let word := firstWord (c :: rest)
      word :: splitWords ((c :: rest).drop word.length)
termination_by cs.length
decreasing_by
  · simp
  · have := @firstWord_pos c rest _known
    simp only [List.length_drop, List.length_cons]
    omega

/-- A word with its first letter capital and the others small. -/
def capitalize : List Char → List Char
  | [] => []
  | c :: cs => c.toUpper :: cs.map Char.toLower

/-- A word in small letters. -/
def lowered (cs : List Char) : List Char := cs.map Char.toLower

/-- Words joined with capitals at their starts. -/
def pascalChars (cs : List Char) : List Char := (splitWords cs).flatMap capitalize

/-- Words joined with capitals at all starts but the first. -/
def camelChars (cs : List Char) : List Char :=
  match splitWords cs with
  | [] => []
  | w :: ws => lowered w ++ ws.flatMap capitalize

/-- Words in small letters joined by hyphens. -/
def kebabChars (cs : List Char) : List Char :=
  List.intercalate ['-'] ((splitWords cs).map lowered)

/-- `GetOrderList` style. -/
def pascal (s : String) : String := String.ofList (pascalChars s.toList)

/-- `getOrderList` style. -/
def camel (s : String) : String := String.ofList (camelChars s.toList)

/-- `get-order-list` style. -/
def kebab (s : String) : String := String.ofList (kebabChars s.toList)

/-- An ASCII letter or digit. -/
def isWordChar (c : Char) : Bool := classOf c != .other

/-- Runs of letters and digits with the run under way in front: `word` holds its characters, last
first. -/
def runsFrom (word : List Char) : List Char → List (List Char)
  | [] => if word.isEmpty then [] else [word.reverse]
  | c :: cs =>
    if isWordChar c then runsFrom (c :: word) cs
    else if word.isEmpty then runsFrom [] cs
    else word.reverse :: runsFrom [] cs

/-- The maximal runs of ASCII letters and digits. -/
def runs (cs : List Char) : List (List Char) := runsFrom [] cs

/-- Free text as an identifier: every run of letters and digits is one word, without a look at
case boundaries, and a result that starts with a digit gets the word `Value` in front. -/
def identifierChars (cs : List Char) : List Char :=
  let joined := (runs cs).flatMap capitalize
  match joined with
  | c :: _ => if c.isDigit then "Value".toList ++ joined else joined
  | [] => []

/-- `identifierChars` on strings. -/
def identifierOf (s : String) : String := String.ofList (identifierChars s.toList)

/-- The first of `base ++ index`, `base ++ (index + 1)`, … that is not used; `fuel` bounds the
search. -/
def firstFree (used : List String) (base : String) : Nat → Nat → String
  | 0, index => base ++ toString index
  | fuel + 1, index =>
    let candidate := base ++ toString index
    if candidate ∈ used then firstFree used base fuel (index + 1) else candidate

/-- The base if it is not used, and otherwise the base with the least number from 2 on that makes
it unused. Among more numbers than used names one is free. -/
def uniqueName (used : List String) (base : String) : String :=
  if base ∈ used then firstFree used base used.length 2 else base

/-- Unique names for a list of bases, each name used from then on; with the names used at the
end. -/
def uniqueNames (used : List String) : List String → List String × List String
  | [] => ([], used)
  | base :: bases =>
    let name := uniqueName used base
    let (names, used) := uniqueNames (name :: used) bases
    (name :: names, used)

end Naming
end ApiScribe
