/-! Bytes as text: three bytes in four characters of an alphabet of 64, filled up with equality
signs. Reading leaves out characters of no alphabet and stops at the filling. -/
namespace ApiScribe
namespace Text
namespace Base64

/-- The alphabet. -/
def alphabet : List Char :=
  "ABCDEFGHIJKLMNOPQRSTUVWXYZabcdefghijklmnopqrstuvwxyz0123456789+/".toList

/-- The character of a number below 64. -/
def digit (n : Nat) : Char := (alphabet[n % 64]?).getD 'A'

/-- The number of a character. -/
def value? (c : Char) : Option Nat := alphabet.findIdx? (· == c)

/-- Writes bytes. -/
def encode : List UInt8 → List Char
  | [] => []
  | [a] =>
    let n := a.toNat
    [digit (n / 4), digit (n * 16), '=', '=']
  | [a, b] =>
    let n := a.toNat * 256 + b.toNat
    [digit (n / 1024), digit (n / 16), digit (n * 4), '=']
  | a :: b :: c :: rest =>
    let n := (a.toNat * 256 + b.toNat) * 256 + c.toNat
    digit (n / 262144) :: digit (n / 4096) :: digit (n / 64) :: digit n :: encode rest

/-- Reads bytes. `pending` holds the characters of the group under way, last first, and `pads` the
number of filling signs just read. -/
def decodeFrom (pending : List Nat) (pads : Nat) : List Char → Option (List UInt8)
  | [] => if pending.isEmpty then some [] else none
  | c :: cs =>
    if c = '=' then
      if 2 ≤ pending.length then
        if 4 ≤ pending.length + pads + 1 then some [] else decodeFrom pending (pads + 1) cs
      else decodeFrom pending pads cs
    else match value? c with
      | none => decodeFrom pending pads cs
      | some v => match pending with
        | [] => decodeFrom [v] 0 cs
        | [a] => (decodeFrom [v, a] 0 cs).map (UInt8.ofNat (a * 4 + v / 16) :: ·)
        | [b, a] => (decodeFrom [v, b, a] 0 cs).map (UInt8.ofNat (b * 16 + v / 4) :: ·)
        | b :: _ => (decodeFrom [] 0 cs).map (UInt8.ofNat (b * 64 + v) :: ·)

/-- Reads bytes, if the last group is complete. -/
def decode? (cs : List Char) : Option (List UInt8) := decodeFrom [] 0 cs

end Base64
end Text
end ApiScribe
