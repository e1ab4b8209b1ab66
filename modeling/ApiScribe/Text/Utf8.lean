/-! Bytes of text. A text has exactly one form in bytes; bytes that are no text are reported with
the first place where they go wrong. -/
namespace ApiScribe

/-- Bytes. -/
abbrev Bytes := List UInt8

namespace Text

/-- The bytes of a text. -/
def utf8 (s : String) : Bytes := s.toUTF8.toList

/-- The text of bytes, if they are one. -/
def ofUtf8? (bs : Bytes) : Option String := String.fromUTF8? ⟨bs.toArray⟩

/-- How bytes fail to be a text. -/
inductive Flaw
  | start
  | continuation
  | truncated
  deriving Repr, DecidableEq

/-- The wording of a flaw. -/
def Flaw.text : Flaw → String
  | .start => "invalid start byte"
  | .continuation => "invalid continuation byte"
  | .truncated => "unexpected end of data"

/-- A flaw, its place, and the bytes that it spoils. -/
structure FlawedBytes where
  flaw : Flaw
  position : Nat
  bytes : Bytes
  deriving Repr, DecidableEq

/-- The number of bytes of a character whose first byte is given; zero if there is none. -/
def characterWidth (b : UInt8) : Nat :=
  if b < 0x80 then 1 else if b < 0xC2 then 0 else if b < 0xE0 then 2 else if b < 0xF0 then 3
  else if b < 0xF5 then 4 else 0

/-- Whether a byte can follow the bytes of a character under way. What follows the first byte must
not make the character one that fewer bytes write, a half of a pair or one beyond the last. -/
def continues (pending : Bytes) (b : UInt8) : Bool :=
  0x80 ≤ b && b < 0xC0 &&
    match pending with
    | [0xE0] => 0xA0 ≤ b
    | [0xED] => b < 0xA0
    | [0xF0] => 0x90 ≤ b
    | [0xF4] => b < 0x90
    | _ => true

/-- The first flaw of bytes from a position on; `pending` holds the bytes of the character under
way. -/
def flawFrom (position : Nat) (pending : Bytes) : Bytes → Option FlawedBytes
  | [] => if pending.isEmpty then none else some ⟨.truncated, position - pending.length, pending⟩
  | b :: bs =>
    match pending with
    | [] =>
      match characterWidth b with
      | 0 => some ⟨.start, position, [b]⟩
      | 1 => flawFrom (position + 1) [] bs
      | _ => flawFrom (position + 1) [b] bs
    | first :: _ =>
      if !continues pending b then
        some ⟨.continuation, position - pending.length, pending⟩
      else if pending.length + 1 = characterWidth first then flawFrom (position + 1) [] bs
      else flawFrom (position + 1) (pending ++ [b]) bs

/-- The first flaw of bytes. -/
def flaw? (bs : Bytes) : Option FlawedBytes := flawFrom 0 [] bs

/-- One of sixteen digits. -/
def byteDigit (n : Nat) : Char := ("0123456789abcdef".toList[n]?).getD '0'

/-- The wording of flawed bytes. -/
def FlawedBytes.text (f : FlawedBytes) : String :=
  let place := match f.bytes with
    | [b] => "byte 0x" ++ String.ofList [byteDigit (b.toNat / 16), byteDigit (b.toNat % 16)]
        ++ " in position " ++ toString f.position
    | bs => "bytes in position " ++ toString f.position ++ "-"
        ++ toString (f.position + bs.length - 1)
  "'utf-8' codec can't decode " ++ place ++ ": " ++ f.flaw.text

/-- The text of bytes with a mark for each place where they are no text. -/
def patched (bs : Bytes) : String :=
  match flaw? bs with
  | none => (ofUtf8? bs).getD ""
  | some f =>
    let next := f.position + f.bytes.length
    if _h : 0 < next ∧ next ≤ bs.length then
      (ofUtf8? (bs.take f.position)).getD "" ++ "\ufffd" ++ patched (bs.drop next)
    else ""
termination_by bs.length
decreasing_by
  simp only [List.length_drop]
  omega

/-- The wording of the first flaw of bytes. -/
def flawText (bs : Bytes) : String := ((flaw? bs).map FlawedBytes.text).getD ""

end Text
end ApiScribe
