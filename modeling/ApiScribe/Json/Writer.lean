import ApiScribe.Decimal.Style
import ApiScribe.Json.Quoted
import ApiScribe.Json.Reader

/-! JSON text of values. A format fixes whether text beyond ASCII is escaped, how numbers are
written and whether the text is indented. -/
namespace ApiScribe
namespace Json

/-- The choices of a JSON text. -/
structure Format where
  ascii : Bool
  numbers : Decimal.Style
  /-- Whether numbers that are not finite are written as null. -/
  finiteOnly : Bool
  indented : Bool

/-- One line with blanks after separators, escaped to ASCII. -/
def oneLine : Format := ⟨true, Decimal.compact, false, false⟩

/-- One line with blanks after separators, text beyond ASCII left raw. -/
def oneLineRaw : Format := ⟨false, Decimal.compact, false, false⟩

/-- Two blanks per level; the form of printed results. -/
def printed : Format := ⟨false, Decimal.compact, false, true⟩

/-- Two blanks per level; the form of stored documents and snapshots. -/
def stored : Format := ⟨false, Decimal.indented, true, true⟩

/-- The text of an integer. -/
def intText (n : Int) : String := toString n

/-- The text of a floating-point number. -/
def Format.floatText (f : Format) (x : Float) : String :=
  if f.finiteOnly && !Decimal.isFinite x then "null" else f.numbers.text x

/-- The text of a scalar. -/
def Format.scalar (f : Format) : Scalar → List Char
  | .null => "null".toList
  | .bool b => (if b then "true" else "false").toList
  | .int n => (intText n).toList
  | .float x => (f.floatText x).toList
  | .str s => quotedChars f.ascii s.toList
  | .bytes bs => quotedChars f.ascii ((Text.ofUtf8? bs).getD "").toList
  | .moment t => quotedChars f.ascii t.text.toList

/-- The text of a key: keys that are no strings are quoted as their text. -/
def Format.key (f : Format) : Scalar → List Char
  | .str s => quotedChars f.ascii s.toList
  | k => '"' :: f.scalar k ++ ['"']

/-- The break before an item at a level. -/
def Format.lineBreak (f : Format) (level : Nat) : List Char :=
  if f.indented then '\n' :: List.replicate (2 * level) ' ' else []

/-- The separator between items. -/
def Format.comma (f : Format) (level : Nat) : List Char :=
  if f.indented then ',' :: f.lineBreak level else [',', ' ']

mutual

/-- The text of a value whose items stand one level below `level`. -/
def Format.chars (f : Format) (level : Nat) : Value → List Char
  | .scalar s => f.scalar s
  | .list [] => ['[', ']']
  | .list (x :: xs) =>
    '[' :: f.lineBreak (level + 1) ++ f.chars (level + 1) x ++ f.moreItems (level + 1) xs
      ++ f.lineBreak level ++ [']']
  | .pair a b =>
    '[' :: f.lineBreak (level + 1) ++ f.chars (level + 1) a ++ f.comma (level + 1)
      ++ f.chars (level + 1) b ++ f.lineBreak level ++ [']']
  | .set _ => ['[', ']']
  | .endless => "null".toList
  | .map [] => ['{', '}']
  | .map ((k, v) :: m) =>
    '{' :: f.lineBreak (level + 1) ++ f.key k ++ [':', ' '] ++ f.chars (level + 1) v
      ++ f.moreEntries (level + 1) m ++ f.lineBreak level ++ ['}']

/-- The items after the first, each with its separator. -/
def Format.moreItems (f : Format) (level : Nat) : List Value → List Char
  | [] => []
  | x :: xs => f.comma level ++ f.chars level x ++ f.moreItems level xs

/-- The entries after the first, each with its separator. -/
def Format.moreEntries (f : Format) (level : Nat) : List (Scalar × Value) → List Char
  | [] => []
  | (k, v) :: m =>
    f.comma level ++ f.key k ++ [':', ' '] ++ f.chars level v ++ f.moreEntries level m

end

/-- The text of a value. -/
def Format.write (f : Format) (v : Value) : String := String.ofList (f.chars 0 v)

/-- Whether an integer has a text: it must not have more digits than are read. -/
def isWritable (n : Int) : Bool := n.natAbs < Nat.pow 10 mostDigits

/-- Whether a scalar has a JSON form. -/
def isPlainScalar : Scalar → Bool
  | .bytes _ | .moment _ => false
  | .int n => isWritable n
  | _ => true

mutual

/-- Whether a value has a JSON form: no part of it is of a kind that JSON lacks. -/
def isPlain : Value → Bool
  | .scalar s => isPlainScalar s
  | .list xs => arePlain xs
  | .pair a b => isPlain a && isPlain b
  | .map m => areEntriesPlain m
  | .set _ | .endless => false

/-- Item by item. -/
def arePlain : List Value → Bool
  | [] => true
  | x :: xs => isPlain x && arePlain xs

/-- Entry by entry, keys included. -/
def areEntriesPlain : List (Scalar × Value) → Bool
  | [] => true
  | (k, v) :: m => isPlainScalar k && isPlain v && areEntriesPlain m

end

/-- The text of a value that has a JSON form. -/
def Format.write? (f : Format) (v : Value) : Option String :=
  if isPlain v then some (f.write v) else none

end Json
end ApiScribe
