import ApiScribe.Decimal.Binary

/-! The shortest decimal that reads back: the fewest significant digits whose decimal rounds to
the given number, and of those digits the nearest to it. -/
namespace ApiScribe
namespace Decimal

/-- A positive decimal `0.d₁d₂…dₙ * 10 ^ point` with `digits` the number `d₁d₂…dₙ`. -/
structure Digits where
  digits : Nat
  count : Nat
  point : Int
  deriving Repr, DecidableEq

/-- The number of places before the point: the least `p` with the ratio below `10 ^ p`, counted
from `k` on the way down for ratios below one. -/
def placesBelowOne (num den : Nat) : Nat → Nat → Int
  | 0, k => -k
  | fuel + 1, k => if num * Nat.pow 10 (k + 1) ≥ den then -k else placesBelowOne num den fuel (k + 1)

/-- The `p` with `10 ^ (p - 1) ≤ num / den < 10 ^ p`. -/
def places (num den : Nat) : Int :=
  if num ≥ den then (Nat.toDigits 10 (num / den)).length else placesBelowOne num den 400 0

/-- The reals that round to a positive number, as numerators over the common denominator
`4 * den`: lower end, upper end, and whether the ends belong to it. -/
structure Interval where
  low : Nat
  high : Nat
  den : Nat
  closed : Bool

/-- The neighbours below a power of two are half as far away as those above. -/
def Binary.interval (b : Binary) : Interval :=
  let (num, den) := b.ratio
  let unit := num / b.significand
  let below := if b.significand = Nat.pow 2 52 && b.exponent > -1074 then unit else 2 * unit
  ⟨4 * num - below, 4 * num + 2 * unit, 4 * den, b.significand % 2 == 0⟩

/-- Whether `num / den` lies in the interval. -/
def Interval.contains (i : Interval) (num den : Nat) : Bool :=
  if i.closed then i.low * den ≤ num * i.den && num * i.den ≤ i.high * den
  else i.low * den < num * i.den && num * i.den < i.high * den

/-- The decimal of `n` digits nearest to the number, among those that read back: one of its two
neighbours on the grid of `n` digits. A tie goes to the even digit. -/
def Binary.onGrid? (b : Binary) (point : Int) (n : Nat) : Option Nat :=
  let (num, den) := b.ratio
  let shift : Int := n - point
  let (up, down) := if shift ≥ 0 then (Nat.pow 10 shift.toNat, 1) else (1, Nat.pow 10 (-shift).toNat)
  let below := num * up / (den * down)
  let i := b.interval
  let fits (d : Nat) : Bool := i.contains (d * down) up
  let rest := num * up % (den * down)
  let lowerFirst := 2 * rest < den * down || (2 * rest == den * down && below % 2 == 0)
  let (first, second) := if lowerFirst then (below, below + 1) else (below + 1, below)
  if fits first then some first else if fits second then some second else none

/-- The first grid with a decimal that reads back, from `n` digits on. -/
def Binary.search (b : Binary) (point : Int) : Nat → Nat → Nat × Nat
  | 0, n => ((b.onGrid? point n).getD 0, n)
  | fuel + 1, n =>
    match b.onGrid? point n with
    | some d => (d, n)
    | none => b.search point fuel (n + 1)

/-- Drops zeros at the end of the digits. -/
def stripZeros : Nat → Nat → Nat × Nat
  | d, 0 => (d, 0)
  | d, n + 1 => if d % 10 = 0 && 0 < n then stripZeros (d / 10) n else (d, n + 1)

/-- The shortest decimal of a positive number. A decimal that rounds up to the next power of ten
has its point one place further on. -/
def Binary.shortest (b : Binary) : Digits :=
  let (num, den) := b.ratio
  let p := places num den
  let (d, n) := b.search p 16 1
  let (d, n, p) := if d = Nat.pow 10 n then (d / 10, n, p + 1) else (d, n, p)
  let (d, n) := stripZeros d n
  ⟨d, n, p⟩

end Decimal
end ApiScribe

/-! How a number is written: with all its places, or with an exponent when it is very large or
very small. The two notations of the library differ in where the exponent starts and how it is
spelled. -/
namespace ApiScribe
namespace Decimal

/-- The choices of a notation for numbers. -/
structure Style where
  /-- Positions of the point above this one are written positionally. -/
  above : Int
  /-- Positions of the point up to this one are written positionally. -/
  upTo : Int
  /-- Whether a positive exponent has a sign. -/
  plus : Bool
  /-- The least number of digits of the exponent. -/
  width : Nat

/-- The notation of values on one line: `1e+16`, `1e-05`, `0.0001`. -/
def compact : Style := ⟨-4, 16, true, 2⟩

/-- The notation of indented documents: `1e16`, `1e-7`, `0.00001`. -/
def indented : Style := ⟨-5, 16, false, 1⟩

/-- `count` zeros. -/
def zeros (count : Nat) : List Char := List.replicate count '0'

/-- The digits of a number, with zeros in front up to a given width. -/
def padded (width n : Nat) : List Char :=
  let ds := Nat.toDigits 10 n
  zeros (width - ds.length) ++ ds

/-- A decimal with all its places; at least one digit stands on each side of the point. -/
def positional (d : Digits) : List Char :=
  let ds := padded d.count d.digits
  if d.point ≤ 0 then '0' :: '.' :: zeros (-d.point).toNat ++ ds
  else
    let whole := d.point.toNat
    if d.count ≤ whole then ds ++ zeros (whole - d.count) ++ ['.', '0']
    else ds.take whole ++ '.' :: ds.drop whole

/-- A decimal with one digit before the point and an exponent. -/
def scientific (style : Style) (d : Digits) : List Char :=
  let e := d.point - 1
  let sign := if e < 0 then ['-'] else if style.plus then ['+'] else []
  let mantissa := match padded d.count d.digits with
    | [] => []
    | [c] => [c]
    | c :: cs => c :: '.' :: cs
  mantissa ++ 'e' :: sign ++ padded style.width e.natAbs

/-- The text of a finite number. -/
def Style.finite (style : Style) (b : Binary) : List Char :=
  let body :=
    if b.significand = 0 then ['0', '.', '0']
    else
      let d := b.shortest
      if style.above < d.point && d.point ≤ style.upTo then positional d else scientific style d
  if b.negative then '-' :: body else body

/-- The text of a number. -/
def Style.text (style : Style) (x : Float) : String :=
  match read x with
  | .finite b => String.ofList (style.finite b)
  | .infinite true => "-Infinity"
  | .infinite false => "Infinity"
  | .undefined => "NaN"

end Decimal
end ApiScribe
