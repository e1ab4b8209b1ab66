import ApiScribe.Value

/-! Reading JSON text. A failed reading says what was missing and where, counting characters; the
word forms for numbers that are not finite are accepted. Integers of very many digits and texts of
very many levels are not read, whatever else is in the text. -/
namespace ApiScribe
namespace Json

/-- What is wrong with a text. -/
inductive Complaint
  | value
  | propertyName
  | colon
  | comma
  | unterminatedString
  | controlCharacter
  | escape
  | unitEscape
  | extraData
  | byteOrderMark
  | tooManyDigits (count : Nat)
  | tooDeep
  deriving Repr, DecidableEq

/-- The most digits that an integer may have. -/
def mostDigits : Nat := 4300

/-- The most levels that a text may have. -/
def mostLevels : Nat := 988

/-- The wording of a complaint. -/
def Complaint.text : Complaint → String
  | .value => "Expecting value"
  | .propertyName => "Expecting property name enclosed in double quotes"
  | .colon => "Expecting ':' delimiter"
  | .comma => "Expecting ',' delimiter"
  | .unterminatedString => "Unterminated string starting at"
  | .controlCharacter => "Invalid control character at"
  | .escape => "Invalid \\escape"
  | .unitEscape => "Invalid \\uXXXX escape"
  | .extraData => "Extra data"
  | .byteOrderMark => "Unexpected UTF-8 BOM (decode using utf-8-sig)"
  | .tooManyDigits count =>
    "Exceeds the limit (" ++ toString mostDigits
      ++ " digits) for integer string conversion: value has " ++ toString count
      ++ " digits; use sys.set_int_max_str_digits() to increase the limit"
  | .tooDeep => "maximum recursion depth exceeded"

/-- Whether a complaint is about the form of the text, and not about its extent. -/
def Complaint.isFormal : Complaint → Bool
  | .tooManyDigits _ | .tooDeep => false
  | _ => true

/-- A complaint with the number of characters from the place it is about to the end. -/
structure Stop where
  complaint : Complaint
  left : Nat
  deriving Repr, DecidableEq

/-- The outcome of a reading step: the thing read and the rest of the text. -/
abbrev Step (α : Type) := Except Stop (α × List Char)

/-- Stops in front of `cs`. -/
def stopAt {α : Type} (complaint : Complaint) (cs : List Char) : Except Stop α :=
  .error ⟨complaint, cs.length⟩

/-- The blanks between tokens. -/
def isGap (c : Char) : Bool := c == ' ' || c == '\t' || c == '\n' || c == '\r'

/-- The text from the next token on. -/
def skipGaps (cs : List Char) : List Char := cs.dropWhile isGap

/-- The value of a hexadecimal digit. -/
def hexValue? (c : Char) : Option Nat :=
  if '0' ≤ c && c ≤ '9' then some (c.toNat - 48)
  else if 'a' ≤ c && c ≤ 'f' then some (c.toNat - 87)
  else if 'A' ≤ c && c ≤ 'F' then some (c.toNat - 55)
  else none

/-- The 16-bit unit that four hexadecimal digits write. -/
def unit? (a b c d : Char) : Option Nat := do
  return (← hexValue? a) * 4096 + (← hexValue? b) * 256 + (← hexValue? c) * 16 + (← hexValue? d)

/-- The character of a short escape. -/
def unescape? : Char → Option Char
  | '"' => some '"'
  | '\\' => some '\\'
  | '/' => some '/'
  | 'b' => some '\x08'
  | 'f' => some '\x0c'
  | 'n' => some '\n'
  | 'r' => some '\r'
  | 't' => some '\t'
  | _ => none

/-- The first half of a pair of units. -/
def isHighUnit (n : Nat) : Bool := 55296 ≤ n && n < 56320

/-- The second half of a pair of units. -/
def isLowUnit (n : Nat) : Bool := 56320 ≤ n && n < 57344

/-- The character of a unit; half of a pair alone stands for the replacement character. -/
def unitChar (n : Nat) : Char :=
  if isHighUnit n || isLowUnit n then '\ufffd' else Char.ofNat n

/-- The character of a pair of units. -/
def pairChar (high low : Nat) : Char :=
  Char.ofNat (65536 + (high - 55296) * 1024 + (low - 56320))

/-- Puts a character in front of what the rest of a string reads as. -/
def prepend (c : Char) (r : Step (List Char)) : Step (List Char) :=
  r.map fun s => (c :: s.1, s.2)

/-- The rest of a string after its opening quote; `opening` is the text from that quote on. -/
def stringChars (opening : List Char) : List Char → Step (List Char)
  | [] => stopAt .unterminatedString opening
  | '"' :: rest => .ok ([], rest)
  | ['\\'] => stopAt .unterminatedString opening
  | '\\' :: 'u' :: a :: b :: c :: d :: '\\' :: 'u' :: a' :: b' :: c' :: d' :: e :: rest =>
    match unit? a b c d with
    | none =>
      stopAt .unitEscape
        ('u' :: a :: b :: c :: d :: '\\' :: 'u' :: a' :: b' :: c' :: d' :: e :: rest)
    | some high =>
      if isHighUnit high then
        match unit? a' b' c' d' with
        | none => stopAt .unitEscape ('u' :: a' :: b' :: c' :: d' :: e :: rest)
        | some low =>
          if isLowUnit low then prepend (pairChar high low) (stringChars opening (e :: rest))
          else prepend (unitChar high)
            (stringChars opening ('\\' :: 'u' :: a' :: b' :: c' :: d' :: e :: rest))
      else prepend (unitChar high)
        (stringChars opening ('\\' :: 'u' :: a' :: b' :: c' :: d' :: e :: rest))
  | '\\' :: 'u' :: a :: b :: c :: d :: e :: rest =>
    match unit? a b c d with
    | none => stopAt .unitEscape ('u' :: a :: b :: c :: d :: e :: rest)
    | some n => prepend (unitChar n) (stringChars opening (e :: rest))
  | '\\' :: 'u' :: rest => stopAt .unitEscape ('u' :: rest)
  | '\\' :: c :: rest =>
    match unescape? c with
    | some x => prepend x (stringChars opening rest)
    | none => stopAt .escape ('\\' :: c :: rest)
  | c :: rest =>
    if c.toNat < 32 then stopAt .controlCharacter (c :: rest)
    else prepend c (stringChars opening rest)

/-- The number of a run of decimal digits. -/
def digitsValue (cs : List Char) : Nat := cs.foldl (fun n c => 10 * n + (c.toNat - 48)) 0

/-- The part of a number after its integer digits: the digits after the point and the exponent,
each absent if it is not complete. -/
structure Tail where
  fraction : List Char
  exponent : Option Int
  rest : List Char

/-- Reads an exponent if it has at least one digit. -/
def exponent (cs : List Char) : Option Int × List Char :=
  match cs with
  | e :: more =>
    if e == 'e' || e == 'E' then
      let (negative, digits) := match more with
        | '-' :: ds => (true, ds)
        | '+' :: ds => (false, ds)
        | ds => (false, ds)
      let ds := digits.takeWhile Char.isDigit
      if ds.isEmpty then (none, cs)
      else
        let n : Int := digitsValue ds
        (some (if negative then -n else n), digits.dropWhile Char.isDigit)
    else (none, cs)
  | [] => (none, [])

/-- Reads what follows the integer digits of a number. -/
def numberTail (cs : List Char) : Tail :=
  let (fraction, afterFraction) := match cs with
    | '.' :: more =>
      let ds := more.takeWhile Char.isDigit
      if ds.isEmpty then ([], cs) else (ds, more.dropWhile Char.isDigit)
    | _ => ([], cs)
  let (e, rest) := exponent afterFraction
  ⟨fraction, e, rest⟩

/-- Reads a number; `start` is the text from its sign on. -/
def number (start : List Char) (negative : Bool) (cs : List Char) : Step Value :=
  let digits := match cs with
    | '0' :: _ => ['0']
    | _ => cs.takeWhile Char.isDigit
  if digits.isEmpty then stopAt .value start
  else
    let tail := numberTail (cs.drop digits.length)
    if tail.fraction.isEmpty && tail.exponent.isNone then
      if mostDigits < digits.length then stopAt (.tooManyDigits digits.length) start
      else
        let n : Int := digitsValue digits
        .ok (.int (if negative then -n else n), tail.rest)
    else
      let exponent := tail.exponent.getD 0 - tail.fraction.length
      .ok (.float (Decimal.toFloat negative (digitsValue (digits ++ tail.fraction)) exponent),
        tail.rest)

/-- The words that stand for values. -/
def words : List (List Char × Value) :=
  [("null".toList, .null), ("true".toList, .bool true), ("false".toList, .bool false),
   ("NaN".toList, .float (0.0 / 0.0)), ("Infinity".toList, .float (1.0 / 0.0)),
   ("-Infinity".toList, .float (-1.0 / 0.0))]

/-- Reads a word or a number. -/
def atom (cs : List Char) : Step Value :=
  match words.find? (fun w => w.1.isPrefixOf cs) with
  | some w => .ok (w.2, cs.drop w.1.length)
  | none =>
    match cs with
    | '-' :: rest => number cs true rest
    | _ => number cs false cs

mutual

/-- Reads a value at the front of the text; `fuel` bounds the steps, and `levels` the levels. -/
def value (fuel levels : Nat) (cs : List Char) : Step Value :=
  match fuel with
  | 0 => stopAt .value cs
  | fuel + 1 =>
    match cs, levels with
    | '"' :: rest, _ => (stringChars cs rest).map fun s => (.str (String.ofList s.1), s.2)
    | '[' :: _, 0 | '{' :: _, 0 => stopAt .tooDeep cs
    | '[' :: rest, levels + 1 =>
      match skipGaps rest with
      | ']' :: rest => .ok (.list [], rest)
      | inside => (items fuel levels inside).map fun r => (.list r.1, r.2)
    | '{' :: rest, levels + 1 =>
      match skipGaps rest with
      | '}' :: rest => .ok (.map [], rest)
      | inside => (members fuel levels [] inside).map fun r => (.map r.1, r.2)
    | _, _ => atom cs

/-- Reads the items of a list up to its closing bracket. -/
def items (fuel levels : Nat) (cs : List Char) : Except Stop (List Value × List Char) :=
  match fuel with
  | 0 => stopAt .value cs
  | fuel + 1 => do
    let (v, rest) ← value fuel levels cs
    match skipGaps rest with
    | ']' :: rest => return ([v], rest)
    | ',' :: rest =>
      let (vs, rest) ← items fuel levels (skipGaps rest)
      return (v :: vs, rest)
    | rest => stopAt .comma rest

/-- Reads the entries of a map up to its closing brace; `m` holds those read so far. -/
def members (fuel levels : Nat) (m : List (Scalar × Value)) (cs : List Char) :
    Except Stop (List (Scalar × Value) × List Char) :=
  match fuel with
  | 0 => stopAt .value cs
  | fuel + 1 =>
    match cs with
    | '"' :: rest => do
      let (name, rest) ← stringChars cs rest
      match skipGaps rest with
      | ':' :: rest =>
        let (v, rest) ← value fuel levels (skipGaps rest)
        let m := Entries.put (.str (String.ofList name)) v m
        match skipGaps rest with
        | '}' :: rest => return (m, rest)
        | ',' :: rest => members fuel levels m (skipGaps rest)
        | rest => stopAt .comma rest
      | rest => stopAt .colon rest
    | _ => stopAt .propertyName cs

end

/-- A complaint with the number of characters before the place it is about. -/
structure ReadError where
  complaint : Complaint
  position : Nat
  line : Nat
  column : Nat
  deriving Repr, DecidableEq

/-- Line and column of a place: lines end at line feeds, and both count from one. -/
def place (before : List Char) : Nat × Nat :=
  (before.count '\n' + 1, (before.reverse.takeWhile (· ≠ '\n')).length + 1)

/-- The error of a stop in a text. -/
def Stop.error (s : Stop) (text : List Char) : ReadError :=
  let position := text.length - s.left
  let (line, column) := place (text.take position)
  ⟨s.complaint, position, line, column⟩

/-- Whether an error is about the form of the text, and not about its extent. -/
def ReadError.isFormal (e : ReadError) : Bool := e.complaint.isFormal

/-- The wording of a read error; what is wrong with the form of a text has a place. -/
def ReadError.text (e : ReadError) : String :=
  if e.isFormal then
    e.complaint.text ++ ": line " ++ toString e.line ++ " column " ++ toString e.column
      ++ " (char " ++ toString e.position ++ ")"
  else e.complaint.text

/-- Reads a whole text as one value. -/
def readChars (text : List Char) : Except Stop Value :=
  match text with
  | '\ufeff' :: _ => stopAt .byteOrderMark text
  | _ => do
    let (v, rest) ← value (2 * text.length + 2) mostLevels (skipGaps text)
    match skipGaps rest with
    | [] => return v
    | rest => stopAt .extraData rest

/-- Reads a string as one value. -/
def read (s : String) : Except ReadError Value :=
  (readChars s.toList).mapError (·.error s.toList)

/-- Whether a text, be it well formed or not, is of an extent that is read. -/
def isReadable (s : String) : Bool :=
  match read s with
  | .ok _ => true
  | .error e => e.isFormal

end Json
end ApiScribe
