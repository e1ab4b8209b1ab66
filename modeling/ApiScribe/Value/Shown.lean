import ApiScribe.Value
import ApiScribe.Decimal.Style
import ApiScribe.Json.Quoted
import ApiScribe.Text.Printable

/-! Values as messages show them. A text shows as itself on its own and quoted inside a larger
value; most other values have the same form in both places. -/
namespace ApiScribe

/-- `width` hexadecimal digits of a number. -/
def hexDigits : Nat → Nat → List Char
  | 0, _ => []
  | width + 1, n => hexDigits width (n / 16) ++ [Json.hexDigit n]

/-- A character inside a quoted text. -/
def shownChar (quote c : Char) : List Char :=
  if c = quote || c = '\\' then ['\\', c]
  else if c = '\n' then ['\\', 'n']
  else if c = '\r' then ['\\', 'r']
  else if c = '\t' then ['\\', 't']
  else if Text.isPrintable c then [c]
  else if c.toNat < 256 then '\\' :: 'x' :: hexDigits 2 c.toNat
  else if c.toNat < 65536 then '\\' :: 'u' :: hexDigits 4 c.toNat
  else '\\' :: 'U' :: hexDigits 8 c.toNat

/-- The quote that shown text stands in: a single one, but a double one around single ones. -/
def quoteFor (cs : List Char) : Char :=
  if cs.contains '\'' && !cs.contains '"' then '"' else '\''

/-- A text in single quotes, or in double quotes if it holds single quotes only. -/
def shownText (s : String) : String :=
  let cs := s.toList
  let quote := quoteFor cs
  String.ofList (quote :: cs.flatMap (shownChar quote) ++ [quote])

/-- A byte inside shown bytes; what is no plain sign shows as two digits. -/
def shownByte (quote : Char) (b : UInt8) : List Char :=
  let c := Char.ofNat b.toNat
  if b.toNat < 127 && (32 ≤ b.toNat || ['\t', '\n', '\r'].contains c) then shownChar quote c
  else '\\' :: 'x' :: hexDigits 2 b.toNat

/-- Bytes in quotes. -/
def shownBytes (bs : Bytes) : String :=
  let quote := quoteFor (bs.map fun b => Char.ofNat b.toNat)
  String.ofList ('b' :: quote :: bs.flatMap (shownByte quote) ++ [quote])

/-- A number with a fraction. -/
def shownFloat (x : Float) : String :=
  match Decimal.read x with
  | .finite _ => Decimal.compact.text x
  | .infinite negative => if negative then "-inf" else "inf"
  | .undefined => "nan"

/-- A scalar inside a larger value. -/
def Scalar.shown : Scalar → String
  | .null => "None"
  | .bool b => if b then "True" else "False"
  | .int n => toString n
  | .float x => shownFloat x
  | .str s => shownText s
  | .bytes bs => shownBytes bs
  | .moment t => t.shown

/-- A scalar on its own. -/
def Scalar.display : Scalar → String
  | .str s => s
  | .moment t => t.text
  | s => s.shown

/-- A set inside a larger value. -/
def shownSet (members : List Scalar) : String :=
  if members.isEmpty then "set()"
  else "\x7b" ++ ", ".intercalate (members.map Scalar.shown) ++ "\x7d"

namespace Value

mutual

/-- A value inside a larger one. -/
def shown : Value → String
  | .scalar s => s.shown
  | .list xs => "[" ++ ", ".intercalate (shownItems xs) ++ "]"
  | .pair a b => "(" ++ shown a ++ ", " ++ shown b ++ ")"
  | .set members => shownSet members
  | .map m => "\x7b" ++ ", ".intercalate (shownEntries m) ++ "\x7d"
  | .endless => "..."

/-- Item by item. -/
def shownItems : List Value → List String
  | [] => []
  | x :: xs => shown x :: shownItems xs

/-- Entry by entry. -/
def shownEntries : List (Scalar × Value) → List String
  | [] => []
  | (k, v) :: m => (k.shown ++ ": " ++ shown v) :: shownEntries m

end

/-- A value on its own. -/
def display : Value → String
  | .scalar s => s.display
  | v => v.shown

end Value
end ApiScribe
