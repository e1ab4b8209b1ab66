import ApiScribe.Decimal.Binary
import ApiScribe.Text.Character

/-! Numbers of texts. A whole number is a run of digits of some base with an optional sign; a number
with a fraction has digits, a point and an exponent, or is a word. Digits of any script count where
a text is first brought into its plain form. -/
namespace ApiScribe
namespace Text
namespace Number

/-- The number of a run of decimal digits. -/
def ofDigits (cs : List Char) : Nat := cs.foldl (fun n c => 10 * n + (c.toNat - 48)) 0

/-- Splits off a sign; true means negative. -/
def signed : List Char → Bool × List Char
  | '-' :: cs => (true, cs)
  | '+' :: cs => (false, cs)
  | cs => (false, cs)

/-- Without single underscores, each between two other characters. -/
def joined? : List Char → Option (List Char)
  | [] => some []
  | '_' :: _ => none
  | [c] => some [c]
  | c :: '_' :: cs => match cs with
    | [] => none
    | d :: ds => (joined? (d :: ds)).map (c :: ·)
  | c :: cs => (joined? cs).map (c :: ·)

/-- The number that digits with an optional point and exponent write. -/
def decimal? (negative : Bool) (cs : List Char) : Option Float := do
  let whole := cs.takeWhile Char.isDigit
  let rest := cs.dropWhile Char.isDigit
  let (fraction, rest) := match rest with
    | '.' :: more => (more.takeWhile Char.isDigit, more.dropWhile Char.isDigit)
    | _ => ([], rest)
  if whole.isEmpty && fraction.isEmpty then none
  else
    let exponent : Int ← match rest with
      | [] => some 0
      | e :: more =>
        if e == 'e' || e == 'E' then
          let (minus, ds) := signed more
          if ds.isEmpty || !ds.all Char.isDigit then none
          else some (if minus then -(ofDigits ds : Int) else ofDigits ds)
        else none
    some (Decimal.toFloat negative (ofDigits (whole ++ fraction)) (exponent - fraction.length))

/-- The number that digits with a sign, or a word for infinity or no number, write. -/
def real? (cs : List Char) : Option Float :=
  let (negative, body) := signed cs
  let word := String.ofList (body.map Char.toLower)
  if word = "inf" || word = "infinity" then
    some (if negative then -1.0 / 0.0 else 1.0 / 0.0)
  else if word = "nan" then some (0.0 / 0.0)
  else decimal? negative body

/-- A blank that may stand around a number. -/
def isGap (c : Char) : Bool := c == ' ' || ('\t' ≤ c && c ≤ '\r')

/-- The plain form of a character: decimal digits of any script are those of the first, and blanks
of other scripts are plain blanks. -/
def plainChar (c : Char) : Char :=
  if c.toNat < 127 then c
  else if isBlank c then ' '
  else match decimalValue? c with
    | some n => Char.ofNat (48 + n)
    | none => c

/-- The plain form of a text without the blanks around it. -/
def plainForm (cs : List Char) : List Char :=
  ((cs.map plainChar).dropWhile isGap).reverse.dropWhile isGap |>.reverse

/-- The digit of a base that a character is. -/
def digit? (base : Nat) (c : Char) : Option Nat :=
  let n? :=
    if c.isDigit then some (c.toNat - '0'.toNat)
    else if 'a' ≤ c && c ≤ 'z' then some (c.toNat - 'a'.toNat + 10)
    else if 'A' ≤ c && c ≤ 'Z' then some (c.toNat - 'A'.toNat + 10)
    else none
  n?.filter (· < base)

/-- The letter that may follow a zero in front of digits of a base. -/
def baseLetter? : Nat → Option Char
  | 2 => some 'b'
  | 8 => some 'o'
  | 16 => some 'x'
  | _ => none

/-- Without the mark of the base, which an underscore may follow. -/
def unmarked (base : Nat) : List Char → List Char
  | '0' :: c :: cs =>
    if some c.toLower = baseLetter? base then
      match cs with
      | '_' :: ds => ds
      | ds => ds
    else '0' :: c :: cs
  | cs => cs

/-- The most digits of a decimal number. -/
def mostDigits : Nat := 4300

/-- The integer that digits of a base write, with an optional sign, blanks around it and single
underscores in it. A decimal number must not have too many digits. -/
def integer? (base : Nat) (cs : List Char) : Option Int := do
  let (negative, body) := signed (plainForm cs)
  let digits ← joined? (unmarked base body)
  if digits.isEmpty || (base = 10 && mostDigits < digits.length) then none
  else
    let ns ← digits.mapM (digit? base)
    let n : Nat := ns.foldl (fun n d => base * n + d) 0
    some (if negative then -(n : Int) else n)

/-- The number with a fraction that a text writes, with blanks around it. -/
def fraction? (cs : List Char) : Option Float := real? (plainForm cs)

end Number
end Text
end ApiScribe
