import ApiScribe.Entries
import ApiScribe.Text.Character
import ApiScribe.Text.LowerCase
import ApiScribe.Text.Search
import ApiScribe.Text.Utf8
import ApiScribe.Value.Shown

/-! Texts of the first 128 characters, the only ones that some places hold. -/
namespace ApiScribe
namespace Text
namespace Ascii

/-- Whether a character is one of the first 128. -/
def isAscii (c : Char) : Bool := c.toNat < 128

/-- A character as messages write one that has no place. -/
def escaped (c : Char) : String :=
  String.ofList (if c.toNat < 256 then '\\' :: 'x' :: hexDigits 2 c.toNat
    else if c.toNat < 65536 then '\\' :: 'u' :: hexDigits 4 c.toNat
    else '\\' :: 'U' :: hexDigits 8 c.toNat)

/-- What is said of a text with other characters: the first run of them and its place. -/
def complaint? (s : String) : Option String :=
  let start := (s.toList.takeWhile isAscii).length
  let run := (s.toList.drop start).takeWhile (!isAscii ·)
  let named := match run with
    | [] => none
    | [c] => some ("character '" ++ escaped c ++ "' in position " ++ toString start)
    | _ => some ("characters in position " ++ toString start ++ "-"
        ++ toString (start + run.length - 1))
  named.map fun what => "'ascii' codec can't encode " ++ what ++ ": ordinal not in range(128)"

end Ascii
end Text
end ApiScribe

/-! Character sets of replies. The content type of a reply may name the set in which its bytes are
read; bytes that mean nothing there are read as marks. -/
namespace ApiScribe

/-- The ways to read bytes as text. -/
inductive Charset
  | utf8
  /-- Texts that a mark may open. -/
  | signed
  | ascii
  | latin
  | western
  | lowFirst
  | highFirst
  /-- Units of several bytes whose order a mark at the start must tell. -/
  | marked
  deriving Repr, DecidableEq

namespace Charset

/-- The names of character sets, in plain form. -/
def names : List (String × Charset) :=
  [("utf_8_sig", signed), ("ascii", ascii), ("us_ascii", ascii), ("us", ascii), ("646", ascii),
   ("iso646_us", ascii), ("ansi_x3.4_1968", ascii), ("ansi_x3_4_1968", ascii), ("cp367", ascii),
   ("ibm367", ascii), ("csascii", ascii), ("latin_1", latin), ("latin1", latin), ("latin", latin),
   ("l1", latin), ("8859", latin), ("iso8859", latin), ("iso8859_1", latin), ("iso_8859_1", latin),
   ("iso_ir_100", latin), ("cp819", latin), ("ibm819", latin), ("csisolatin1", latin),
   ("cp1252", western), ("windows_1252", western), ("1252", western), ("utf_16_le", lowFirst),
   ("utf_16le", lowFirst), ("utf_16_be", highFirst), ("utf_16be", highFirst), ("utf_16", marked),
   ("utf16", marked), ("u16", marked), ("utf_32", marked), ("utf32", marked), ("u32", marked)]

/-- The words of a name, of letters, digits and points, with low lines between them. -/
def plainName (name : List Char) : List Char :=
  let isPart (c : Char) : Bool := c.isAlphanum || c == '.'
  let spaced := name.map fun c => if isPart c then c.toLower else ' '
  (['_'] : List Char).intercalate (Text.words spaced)

/-- The set of a name. One that is not known is taken for the usual one. -/
def ofName (name : List Char) : Charset :=
  (names.lookup (String.ofList (plainName name))).getD utf8

/-- A text without the double quotes around it. -/
def unquoted (cs : List Char) : List Char :=
  if 2 ≤ cs.length && cs.head? = some '"' && cs.getLast? = some '"' then (cs.drop 1).dropLast else cs

/-- The name of the set in the parameters of a content type. -/
def name? (contentType : String) : Option (List Char) :=
  (Text.splitAt ';' contentType.toList).findSome? fun p => do
    let (key, value) ← Text.cut? ['='] p
    if String.ofList ((Text.trim key).map Char.toLower) = "charset" then
      some (unquoted (Text.trim value))
    else none

/-- The set that a content type names. -/
def ofContentType (contentType : String) : Charset := ((name? contentType).map ofName).getD utf8

/-- The mark for bytes that mean nothing. -/
def blot : Char := '\ufffd'

/-- The characters of the bytes from 128 to 159 in the set of western scripts. -/
def westernChars : List Char :=
  "€\ufffd‚ƒ„…†‡ˆ‰Š‹Œ\ufffdŽ\ufffd\ufffd‘’“”•–—˜™š›œ\ufffdžŸ".toList

/-- The character of a byte in the set of western scripts. -/
def westernChar (b : UInt8) : Char :=
  if b < 0x80 || 0xA0 ≤ b then Char.ofNat b.toNat
  else (westernChars[b.toNat - 0x80]?).getD blot

/-- The text of units of two bytes. A character beyond the first units takes two of them. -/
def ofUnits (unit : UInt8 → UInt8 → Nat) : Bytes → List Char
  | a :: b :: rest =>
    let high := unit a b
    if 0xD800 ≤ high && high < 0xDC00 then
      match rest with
      | c :: d :: more =>
        let low := unit c d
        if 0xDC00 ≤ low && low < 0xE000 then
          Char.ofNat (0x10000 + (high - 0xD800) * 0x400 + (low - 0xDC00)) :: ofUnits unit more
        else blot :: ofUnits unit (c :: d :: more)
      | _ => [blot]
    else (if (high : Nat).isValidChar then Char.ofNat high else blot) :: ofUnits unit rest
  | [_] => [blot]
  | [] => []

/-- The text of bytes, unless it needs a mark that is not there. -/
def decode? (bs : Bytes) : Charset → Option String
  | utf8 => some (Text.patched bs)
  | signed => match bs with
    | 0xEF :: 0xBB :: 0xBF :: rest => some (Text.patched rest)
    | bs => some (Text.patched bs)
  | ascii => some (String.ofList (bs.map fun b => if b < 0x80 then Char.ofNat b.toNat else blot))
  | latin => some (String.ofList (bs.map fun b => Char.ofNat b.toNat))
  | western => some (String.ofList (bs.map westernChar))
  | lowFirst => some (String.ofList (ofUnits (fun a b => a.toNat + 256 * b.toNat) bs))
  | highFirst => some (String.ofList (ofUnits (fun a b => 256 * a.toNat + b.toNat) bs))
  | marked => if bs.isEmpty then some "" else none

end Charset
end ApiScribe

/-! Replies of the web: a status, headers and a body. -/
namespace ApiScribe

/-- A reply; the names of its headers are in lower case. -/
structure Reply where
  status : Nat := 200
  headers : Entries String String := []
  body : String := ""
  deriving Repr, DecidableEq, Inhabited

namespace Reply

/-- The value of a header; values of headers of one name are put together. -/
def header? (r : Reply) (name : String) : Option String :=
  match r.headers.filter (·.1 = name) with
  | [] => none
  | found => some (", ".intercalate (found.map (·.2)))

/-- What is said of headers that a reply cannot have. -/
def complaint? (r : Reply) : Option String :=
  r.headers.findSome? fun (name, value) =>
    (Text.Ascii.complaint? name).or (Text.Ascii.complaint? value)

/-- The text of the body in the character set that the content type names. -/
def text? (r : Reply) : Option String :=
  (Charset.ofContentType ((r.header? "content-type").getD "")).decode? (Text.utf8 r.body)

end Reply
end ApiScribe
