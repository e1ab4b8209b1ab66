import ApiScribe.Yaml.Cursor

/-! Scalar texts: block scalars with kept or folded line ends, quoted scalars with doubled quotes
or escapes, and plain scalars. In quoted and plain scalars a single line end reads as a blank, and
of several all but the first are kept. -/
namespace ApiScribe
namespace Yaml

/-- Whether the line ends after a block scalar are kept, dropped or cut to one. -/
inductive Chomping
  | keep
  | strip
  | clip
  deriving Repr, DecidableEq

/-- Skips blanks up to a column. -/
def toColumn (column : Nat) (c : Cursor) : Cursor :=
  c.forward (min (column - c.column) (c.rest.takeWhile (· == ' ')).length)

/-- Reads line ends, each followed by blanks up to a column. -/
def breaksAt (column : Nat) : Nat → Cursor → List Char × Cursor
  | 0, c => ([], c)
  | fuel + 1, c =>
    let c := toColumn column c
    match c.lineBreak? with
    | some (b, c) =>
      let (bs, c) := breaksAt column fuel c
      (b :: bs, c)
    | none => ([], c)

/-- Reads line ends and blanks, and finds the deepest column reached by blanks. -/
def leadingBreaks (deepest : Nat) : Nat → Cursor → List Char × Nat × Cursor
  | 0, c => ([], deepest, c)
  | fuel + 1, c =>
    match c.lineBreak? with
    | some (b, c) =>
      let (bs, deepest, c) := leadingBreaks deepest fuel c
      (b :: bs, deepest, c)
    | none =>
      if c.peek == ' ' then
        let c := c.advance
        leadingBreaks (max deepest c.column) fuel c
      else ([], deepest, c)

/-- The header of a block scalar: chomping and explicit indentation, in either order. -/
def blockHeader (c : Cursor) : Except Trouble (Chomping × Option Nat × Cursor) :=
  let chomping? (ch : Char) : Option Chomping :=
    if ch == '+' then some .keep else if ch == '-' then some .strip else none
  let digit? (ch : Char) : Option Nat := if ch.isDigit then some (ch.toNat - 48) else none
  let (first, c) := match chomping? c.peek with
    | some k => (some k, c.advance)
    | none => (none, c)
  let (digit, c) := match digit? c.peek with
    | some d => (some d, c.advance)
    | none => (none, c)
  let (second, c) := match first, digit with
    | none, some _ => match chomping? c.peek with
      | some k => (some k, c.advance)
      | none => (none, c)
    | _, _ => (none, c)
  if digit == some 0 then .error .malformed
  else if !isGapOrStop c.peek then .error .malformed
  else .ok (((first.or second).getD .clip), digit, c)

/-- The lines of a block scalar at a column: the text, the last line end, the line ends after it,
and the place behind. `breaks` are the line ends in front. -/
def blockLines (folded : Bool) (column : Nat) (breaks : List Char) :
    Nat → Cursor → List Char × List Char × List Char × Cursor
  | 0, c => ([], [], breaks, c)
  | fuel + 1, c =>
    if c.column != column || c.atEnd then ([], [], breaks, c)
    else
      let solid := c.peek != ' ' && c.peek != '\t'
      let (line, c) := c.span (fun ch => !isBreak ch)
      let (ending, c) := match c.lineBreak? with
        | some (b, c) => ([b], c)
        | none => ([], c)
      let (after, c) := breaksAt column c.left.succ c
      if c.column == column && !c.atEnd then
        let joint :=
          if folded && ending == ['\n'] && solid && c.peek != ' ' && c.peek != '\t' then
            if after.isEmpty then [' '] else []
          else ending
        let (text, last, tail, c) := blockLines folded column after fuel c
        (breaks ++ line ++ joint ++ text, last, tail, c)
      else (breaks ++ line, ending, after, c)

/-- A block scalar in a block of the given indentation; the cursor stands after its indicator. -/
def blockText (folded : Bool) (indent : Int) (c : Cursor) :
    Except Trouble (List Char × Cursor) := do
  let (chomping, increment, c) ← blockHeader c
  let c ← c.endLine
  let least : Nat := (max (indent + 1) 1).toNat
  let (breaks, column, c) := match increment with
    | none =>
      let (bs, deepest, c) := leadingBreaks 0 c.left.succ c
      (bs, max least deepest, c)
    | some k =>
      let column := least + k - 1
      let (bs, c) := breaksAt column c.left.succ c
      (bs, column, c)
  let (text, last, tail, c) := blockLines folded column breaks c.left.succ c
  return match chomping with
    | .strip => (text, c)
    | .clip => (text ++ last, c)
    | .keep => (text ++ last ++ tail, c)

/-- Line ends inside a quoted scalar, with the blanks around them left out. -/
def quotedBreaks : Nat → Cursor → Except Trouble (List Char × Cursor)
  | 0, c => .ok ([], c)
  | fuel + 1, c => do
    if c.atSeparator then throw .malformed
    let c := c.skip (fun ch => ch == ' ' || ch == '\t')
    match c.lineBreak? with
    | some (b, c) =>
      let (bs, c) ← quotedBreaks fuel c
      return (b :: bs, c)
    | none => return ([], c)

/-- What a single line end with the line ends after it reads as. -/
def foldBreaks (first : Char) (more : List Char) : List Char :=
  (if first != '\n' then [first] else if more.isEmpty then [' '] else []) ++ more

/-- The escapes of one letter. -/
def escapes : List (Char × Char) :=
  [('0', '\x00'), ('a', '\x07'), ('b', '\x08'), ('t', '\t'), ('\t', '\t'), ('n', '\n'),
   ('v', '\x0b'), ('f', '\x0c'), ('r', '\r'), ('e', '\x1b'), (' ', ' '), ('"', '"'),
   ('\\', '\\'), ('/', '/'), ('N', '\x85'), ('_', '\xa0'), ('L', '\u2028'), ('P', '\u2029')]

/-- The escapes that give a code point, with their numbers of digits. -/
def codeEscapes : List (Char × Nat) := [('x', 2), ('u', 4), ('U', 8)]

/-- The number of a run of hexadecimal digits. -/
def hexNumber (cs : List Char) : Nat :=
  cs.foldl (fun n c =>
    16 * n + (if c.isDigit then c.toNat - 48 else (c.toNat ||| 32) - 87)) 0

/-- An escape in a double-quoted scalar, as code points; the cursor stands after the backslash. -/
def escaped (c : Cursor) : Except Trouble (List Nat × Cursor) :=
  match escapes.lookup c.peek with
  | some ch => .ok ([ch.toNat], c.advance)
  | none =>
    match codeEscapes.lookup c.peek with
    | some n =>
      let digits := c.advance.ahead n
      if digits.length < n || !digits.all isHex then .error .malformed
      else if hexNumber digits > 0x10ffff then .error .impossible
      else .ok ([hexNumber digits], c.advance.forward n)
    | none =>
      match c.lineBreak? with
      | some (_, c) => do
        let (bs, c) ← quotedBreaks c.left.succ c
        return (bs.map Char.toNat, c)
      | none => .error .malformed

/-- A code point as a character; half of a pair alone stands for the replacement character. -/
def unitChar (n : Nat) : Char := if n.isValidChar then Char.ofNat n else '\ufffd'

/-- Code points as characters; two halves of a pair make one character. -/
def joinUnits : List Nat → List Char
  | [] => []
  | high :: low :: rest =>
    if 0xd800 ≤ high && high < 0xdc00 && 0xdc00 ≤ low && low < 0xe000 then
      Char.ofNat (0x10000 + (high - 0xd800) * 1024 + (low - 0xdc00)) :: joinUnits rest
    else unitChar high :: joinUnits (low :: rest)
  | [n] => [unitChar n]

/-- The rest of a quoted scalar, as code points. -/
def quotedUnits (double : Bool) : Nat → Cursor → Except Trouble (List Nat × Cursor)
  | 0, _ => .error .malformed
  | fuel + 1, c => do
    let more (here : List Char) (c : Cursor) : Except Trouble (List Nat × Cursor) := do
      let (units, c) ← quotedUnits double fuel c
      return (here.map Char.toNat ++ units, c)
    let ch := c.peek
    if c.atEnd then throw .malformed
    else if ch == ' ' || ch == '\t' || isBreak ch then
      let (blanks, c) := c.span (fun ch => ch == ' ' || ch == '\t')
      if c.atEnd then throw .malformed
      match c.lineBreak? with
      | some (b, c) =>
        let (bs, c) ← quotedBreaks c.left.succ c
        more (foldBreaks b bs) c
      | none => more blanks c
    else if !double && ch == '\'' then
      if c.peek 1 == '\'' then more ['\''] (c.forward 2) else return ([], c.advance)
    else if double && ch == '"' then return ([], c.advance)
    else if double && ch == '\\' then
      let (units, c) ← escaped c.advance
      let (rest, c) ← quotedUnits double fuel c
      return (units ++ rest, c)
    else
      let (run, c) := c.span fun ch =>
        !(ch == '\'' || ch == '"' || ch == '\\' || ch == ' ' || ch == '\t' || isBreak ch)
      if run.isEmpty then more [ch] c.advance else more run c

/-- A quoted scalar; the cursor stands after the opening quote. -/
def quotedText (double : Bool) (c : Cursor) : Except Trouble (List Char × Cursor) := do
  let (units, c) ← quotedUnits double c.left.succ c
  return (joinUnits units, c)

/-- Line ends and blanks inside a plain scalar; none at the start of another document. -/
def plainBreaks : Nat → Cursor → Option (List Char) × Cursor
  | 0, c => (some [], c)
  | fuel + 1, c =>
    if c.peek == ' ' then plainBreaks fuel c.advance
    else match c.lineBreak? with
      | some (b, c) =>
        if c.atSeparator then (none, c)
        else
          let (bs, c) := plainBreaks fuel c
          (bs.map (b :: ·), c)
      | none => (some [], c)

/-- The gap after a run of a plain scalar: what it reads as, and whether it holds a line end. -/
def plainGap (c : Cursor) : List Char × Bool × Cursor :=
  let (blanks, c) := c.span (· == ' ')
  match c.lineBreak? with
  | some (b, c) =>
    if c.atSeparator then ([], true, c)
    else match plainBreaks c.left.succ c with
      | (some bs, c) => (foldBreaks b bs, true, c)
      | (none, c) => ([], true, c)
  | none => (blanks, false, c)

/-- The length of the run of a plain scalar that starts here. -/
def plainRunLength (inFlow : Bool) : List Char → Nat
  | [] => 0
  | ch :: rest =>
    let next := rest.head?.getD '\x00'
    if isSpaceOrStop ch then 0
    else if ch == ':' && (isSpaceOrStop next
        || (inFlow && (next == ',' || next == '[' || next == ']' || next == '\x7b' || next == '\x7d')))
      then 0
    else if inFlow && (ch == ',' || ch == '?' || ch == '[' || ch == ']' || ch == '\x7b' || ch == '\x7d')
      then 0
    else plainRunLength inFlow rest + 1

/-- A plain scalar in a block of the given indentation: its text, whether it ended at a line end,
and the place behind. `gap` is what stands between the text so far and the next run. -/
def plainText (inFlow : Bool) (indent : Int) (gap : List Char) (broken : Bool) :
    Nat → Cursor → List Char × Bool × Cursor
  | 0, c => ([], broken, c)
  | fuel + 1, c =>
    let n := plainRunLength inFlow c.rest
    if c.peek == '#' || n == 0 then ([], broken, c)
    else
      let run := c.ahead n
      let (gap', broken, c) := plainGap (c.forward n)
      if gap'.isEmpty || c.peek == '#' || (!inFlow && (c.column : Int) < indent + 1) then
        (gap ++ run, broken, c)
      else
        let (text, broken, c) := plainText inFlow indent gap' broken fuel c
        (gap ++ run ++ text, broken, c)

end Yaml
end ApiScribe
