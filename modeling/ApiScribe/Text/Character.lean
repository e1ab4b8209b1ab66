/-! Sets of characters given as intervals of code points. -/
namespace ApiScribe
namespace Text

/-- The code points from the first number to the second, both included. -/
abbrev Range := Nat × Nat

/-- Whether a character lies in one of the intervals. -/
def inRanges (ranges : List Range) (c : Char) : Bool :=
  ranges.any fun r => r.1 ≤ c.toNat && c.toNat ≤ r.2

theorem inRanges_iff (ranges : List Range) (c : Char) :
    inRanges ranges c = true ↔ ∃ r ∈ ranges, r.1 ≤ c.toNat ∧ c.toNat ≤ r.2 := by
  simp [inRanges]

end Text
end ApiScribe

/-! Digits. Each script with decimal digits has them in one run of ten code points, so a table of
the zeros gives every digit its value; superscripts and circled digits count as digits too, but
have no decimal value. -/
namespace ApiScribe
namespace Text

/-- The zero of each run of decimal digits, in increasing order. -/
def decimalZeros : List Nat :=
  [48, 1632, 1776, 1984, 2406, 2534, 2662, 2790, 2918, 3046, 3174, 3302, 3430, 3558, 3664, 3792,
   3872, 4160, 4240, 6112, 6160, 6470, 6608, 6784, 6800, 6992, 7088, 7232, 7248, 42528, 43216,
   43264, 43472, 43504, 43600, 44016, 65296, 66720, 68912, 69734, 69872, 69942, 70096, 70384,
   70736, 70864, 71248, 71360, 71472, 71904, 72016, 72784, 73040, 73120, 92768, 92864, 93008,
   120782, 120792, 120802, 120812, 120822, 123200, 123632, 125264, 130032]

/-- The characters that are digits without a decimal value. -/
def digitFormRanges : List Range :=
  [(178, 179), (185, 185), (4969, 4977), (6618, 6618), (8304, 8304), (8308, 8313), (8320, 8329),
   (9312, 9320), (9332, 9340), (9352, 9360), (9450, 9450), (9461, 9469), (9471, 9471), (10102,
   10110), (10112, 10120), (10122, 10130), (68160, 68163), (69216, 69224), (69714, 69722),
   (127232, 127242)]

/-- The value of a decimal digit of any script. -/
def decimalValue? (c : Char) : Option Nat :=
  if c.isDigit then some (c.toNat - 48)
  else if c.toNat < 128 then none
  else (decimalZeros.find? fun z => z ≤ c.toNat && c.toNat < z + 10).map (c.toNat - ·)

/-- A decimal digit of any script. -/
def isDecimal (c : Char) : Bool := (decimalValue? c).isSome

/-- A digit of any form, decimal or not. -/
def isDigitForm (c : Char) : Bool := isDecimal c || inRanges digitFormRanges c

/-- The number written by decimal digits of any script; none if some character is not one. -/
def decimalNumber? (cs : List Char) : Option Nat :=
  cs.foldl (fun n c => do return (← n) * 10 + (← decimalValue? c)) (some 0)

end Text
end ApiScribe

/-! White space: the blanks of every script, and the line ends among them. A text is trimmed at
blanks, split into words at blanks, and split into lines at line ends. -/
namespace ApiScribe
namespace Text

/-- The blank characters, as intervals of code points in increasing order. -/
def blankRanges : List Range :=
  [(9, 13), (28, 32), (133, 133), (160, 160), (5760, 5760), (8192, 8202), (8232, 8233),
   (8239, 8239), (8287, 8287), (12288, 12288)]

/-- A blank character of any script. -/
def isBlank (c : Char) : Bool := inRanges blankRanges c

/-- The characters that end a line; a carriage return takes a line feed after it along. -/
def lineEndRanges : List Range :=
  [(10, 13), (28, 30), (133, 133), (8232, 8233)]

/-- A character that ends a line. -/
def isLineEnd (c : Char) : Bool := inRanges lineEndRanges c

/-- Every line end is blank. -/
theorem isBlank_of_isLineEnd {c : Char} (h : isLineEnd c = true) : isBlank c = true := by
  simp [isLineEnd, isBlank, inRanges, lineEndRanges, blankRanges] at *
  omega

/-- The text without leading blanks. -/
def trimStart (cs : List Char) : List Char := cs.dropWhile isBlank

/-- The text without trailing blanks. -/
def trimEnd (cs : List Char) : List Char := (cs.reverse.dropWhile isBlank).reverse

/-- The text without blanks at either end. -/
def trim (cs : List Char) : List Char := trimEnd (trimStart cs)

/-- Whether the text holds nothing but blanks. -/
def isAllBlank (cs : List Char) : Bool := cs.all isBlank

/-- Words with the word under way in front: `word` holds its characters, last first. -/
def wordsFrom (word : List Char) : List Char → List (List Char)
  | [] => if word.isEmpty then [] else [word.reverse]
  | c :: cs =>
    if isBlank c then
      if word.isEmpty then wordsFrom [] cs else word.reverse :: wordsFrom [] cs
    else wordsFrom (c :: word) cs

/-- The maximal runs of characters that are not blank. -/
def words (cs : List Char) : List (List Char) := wordsFrom [] cs

/-- Lines with the line under way in front: `line` holds its characters, last first. -/
def linesFrom (line : List Char) : List Char → List (List Char)
  | [] => if line.isEmpty then [] else [line.reverse]
  | '\r' :: '\n' :: cs => line.reverse :: linesFrom [] cs
  | c :: cs => if isLineEnd c then line.reverse :: linesFrom [] cs else linesFrom (c :: line) cs

/-- The lines of a text without their ends; a line end at the very end opens no further line. -/
def lines (cs : List Char) : List (List Char) := linesFrom [] cs

/-- Every carriage return, with the line feed that may follow it, becomes one line feed. -/
def unifyNewlines : List Char → List Char
  | [] => []
  | '\r' :: '\n' :: cs => '\n' :: unifyNewlines cs
  | c :: cs => (if c = '\r' then '\n' else c) :: unifyNewlines cs

/-- `trim` on strings. -/
def trimmed (s : String) : String := String.ofList (trim s.toList)

/-- Whether a string holds nothing but blanks. -/
def blank (s : String) : Bool := isAllBlank s.toList

end Text
end ApiScribe
