/-! Binary floating-point numbers as exact quantities: a finite one is a natural number times a
power of two, so everything about it can be decided in whole numbers. -/
namespace ApiScribe
namespace Decimal

/-- A finite number `±significand * 2 ^ exponent`. -/
structure Binary where
  negative : Bool
  significand : Nat
  exponent : Int
  deriving Repr, DecidableEq, Inhabited

/-- A floating-point number is finite, infinite or no number at all. -/
inductive Reading
  | finite (b : Binary)
  | infinite (negative : Bool)
  | undefined
  deriving Repr, DecidableEq

/-- The quantity that the 64 bits of a double stand for. -/
def read (x : Float) : Reading :=
  let bits : Nat := x.toBits.toNat
  let negative := bits / Nat.pow 2 63 == 1
  let biased : Nat := bits / Nat.pow 2 52 % Nat.pow 2 11
  let fraction : Nat := bits % Nat.pow 2 52
  if biased = 2047 then
    if fraction = 0 then .infinite negative else .undefined
  else if biased = 0 then .finite ⟨negative, fraction, -1074⟩
  else .finite ⟨negative, Nat.pow 2 52 + fraction, Int.ofNat biased - 1075⟩

/-- Numerator and denominator of the absolute value. -/
def Binary.ratio (b : Binary) : Nat × Nat :=
  if b.exponent ≥ 0 then (b.significand * Nat.pow 2 b.exponent.toNat, 1)
  else (b.significand, Nat.pow 2 (-b.exponent).toNat)

/-- The integer that the number equals, if it is one. -/
def Binary.int? (b : Binary) : Option Int :=
  let (num, den) := b.ratio
  if num % den = 0 then
    some (if b.negative then -Int.ofNat (num / den) else Int.ofNat (num / den))
  else none

/-- The integer that a double equals, if it is one. -/
def int? (x : Float) : Option Int :=
  match read x with
  | .finite b => b.int?
  | _ => none

/-- Whether a double is neither infinite nor undefined. -/
def isFinite (x : Float) : Bool :=
  match read x with
  | .finite _ => true
  | _ => false

/-- The double nearest to `±digits * 10 ^ exponent`; exponents beyond the range of doubles go to
zero or infinity without computing the power. -/
def toFloat (negative : Bool) (digits : Nat) (exponent : Int) : Float :=
  let places : Int := (Nat.toDigits 10 digits).length
  let size :=
    if digits = 0 then 0.0
    else if places + exponent > 400 then 1.0 / 0.0
    else if places + exponent < -400 then 0.0
    else Float.ofScientific digits (exponent < 0) exponent.natAbs
  if negative then -size else size

/-- The double nearest to an integer. -/
def ofInt (n : Int) : Float := toFloat (n < 0) n.natAbs 0

end Decimal
end ApiScribe
