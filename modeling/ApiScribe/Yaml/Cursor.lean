/-! A place in a text, with its line and column. The end of the text reads as the null character,
which no text may contain. -/
namespace ApiScribe
namespace Yaml

/-- What can go wrong with a text: it is not well formed, or it names a value that cannot be. -/
inductive Trouble
  | malformed
  | impossible
  deriving Repr, DecidableEq

/-- A place in a text: what follows it, and how far in it is. -/
structure Cursor where
  rest : List Char
  index : Nat
  line : Nat
  column : Nat
  /-- The number of characters of the text. -/
  total : Nat
  deriving Repr

/-- A character that ends a line; a carriage return takes a line feed along. -/
def isBreak (c : Char) : Bool :=
  c == '\n' || c == '\r' || c == '\x85' || c == '\u2028' || c == '\u2029'

/-- A line end or the end of the text. -/
def isLineStop (c : Char) : Bool := c == '\x00' || isBreak c

/-- A line stop or a blank. -/
def isGapOrStop (c : Char) : Bool := isLineStop c || c == ' '

/-- A line stop, a blank or a tab. -/
def isSpaceOrStop (c : Char) : Bool := isGapOrStop c || c == '\t'

/-- A character of a name. -/
def isNameChar (c : Char) : Bool := c.isAlphanum || c == '-' || c == '_'

/-- A hexadecimal digit. -/
def isHex (c : Char) : Bool :=
  c.isDigit || ('a' ≤ c && c ≤ 'f') || ('A' ≤ c && c ≤ 'F')

namespace Cursor

/-- The place before a text. -/
def start (text : List Char) : Cursor := ⟨text, 0, 0, 0, text.length⟩

/-- The number of characters from a place on. -/
def left (c : Cursor) : Nat := c.total - c.index

/-- The character `k` places on. -/
def peek (c : Cursor) (k : Nat := 0) : Char := (c.rest[k]?).getD '\x00'

/-- The next `n` characters. -/
def ahead (c : Cursor) (n : Nat) : List Char := c.rest.take n

/-- Whether the text is at its end. -/
def atEnd (c : Cursor) : Bool := c.rest.isEmpty

/-- One character on. -/
def advance (c : Cursor) : Cursor :=
  match c.rest with
  | [] => c
  | ch :: rest =>
    if ch == '\n' || ch == '\x85' || ch == '\u2028' || ch == '\u2029'
        || (ch == '\r' && rest.head? != some '\n') then
      ⟨rest, c.index + 1, c.line + 1, 0, c.total⟩
    else if ch == '\ufeff' then ⟨rest, c.index + 1, c.line, c.column, c.total⟩
    else ⟨rest, c.index + 1, c.line, c.column + 1, c.total⟩

/-- `n` characters on. -/
def forward (c : Cursor) : Nat → Cursor
  | 0 => c
  | n + 1 => c.advance.forward n

/-- The longest run of characters of a class, and the place after it. -/
def span (c : Cursor) (p : Char → Bool) : List Char × Cursor :=
  let run := c.rest.takeWhile p
  (run, c.forward run.length)

/-- The place after a run of characters of a class. -/
def skip (c : Cursor) (p : Char → Bool) : Cursor := (c.span p).2

/-- The place after blanks. -/
def skipBlanks (c : Cursor) : Cursor := c.skip (· == ' ')

/-- Reads a line end, if there is one; all but the two separator characters read as a line
feed. -/
def lineBreak? (c : Cursor) : Option (Char × Cursor) :=
  let ch := c.peek
  if ch == '\r' && c.peek 1 == '\n' then some ('\n', c.forward 2)
  else if ch == '\r' || ch == '\n' || ch == '\x85' then some ('\n', c.advance)
  else if ch == '\u2028' || ch == '\u2029' then some (ch, c.advance)
  else none

/-- Whether a line that starts here separates documents. -/
def atSeparator (c : Cursor) : Bool :=
  (c.ahead 3 == ['-', '-', '-'] || c.ahead 3 == ['.', '.', '.']) && isSpaceOrStop (c.peek 3)

/-- The place after blanks, a comment and the end of the line; nothing else may stand there. -/
def endLine (c : Cursor) : Except Trouble Cursor :=
  let c := c.skipBlanks
  let c := if c.peek == '#' then c.skip (fun ch => !isLineStop ch) else c
  if c.atEnd then .ok c
  else match c.lineBreak? with
    | some (_, c) => .ok c
    | none => .error .malformed

end Cursor
end Yaml
end ApiScribe
