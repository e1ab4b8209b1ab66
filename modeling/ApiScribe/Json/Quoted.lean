/-! Quoted strings: a text between double quotes, with escapes for the quote, the backslash and
the characters that may not stand raw. -/
namespace ApiScribe
namespace Json

/-- The hexadecimal digit of a number below sixteen. -/
def hexDigit (n : Nat) : Char := (Nat.toDigits 16 (n % 16)).headD '0'

/-- The escape of a 16-bit unit. -/
def unitEscape (n : Nat) : List Char :=
  ['\\', 'u', hexDigit (n / 4096), hexDigit (n / 256), hexDigit (n / 16), hexDigit n]

/-- The escape of a character: one unit, or two for characters beyond the 16-bit range. -/
def charEscape (c : Char) : List Char :=
  let n := c.toNat
  if n < 65536 then unitEscape n
  else unitEscape (55296 + (n - 65536) / 1024) ++ unitEscape (56320 + (n - 65536) % 1024)

/-- The escapes with a letter of their own. -/
def shortEscape? : Char → Option Char
  | '"' => some '"'
  | '\\' => some '\\'
  | '\n' => some 'n'
  | '\r' => some 'r'
  | '\t' => some 't'
  | '\x08' => some 'b'
  | '\x0c' => some 'f'
  | _ => none

/-- Whether a character may stand for itself: no control, and with `ascii` nothing outside the
printable ASCII characters. -/
def standsRaw (ascii : Bool) (c : Char) : Bool :=
  32 ≤ c.toNat && (!ascii || c.toNat < 127)

/-- A character as it stands inside quotes. -/
def quotedChar (ascii : Bool) (c : Char) : List Char :=
  match shortEscape? c with
  | some e => ['\\', e]
  | none => if standsRaw ascii c then [c] else charEscape c

/-- A text between double quotes. -/
def quotedChars (ascii : Bool) (cs : List Char) : List Char :=
  '"' :: cs.flatMap (quotedChar ascii) ++ ['"']

/-- A string between double quotes, in ASCII characters only. -/
def quoted (s : String) : String := String.ofList (quotedChars true s.toList)

/-- A string between double quotes, with the characters beyond ASCII left as they are. -/
def quotedRaw (s : String) : String := String.ofList (quotedChars false s.toList)

end Json
end ApiScribe
