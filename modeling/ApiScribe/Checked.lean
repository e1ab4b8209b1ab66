import ApiScribe.Fault
import ApiScribe.Text.Number

/-! Checking decoded values against declared shapes. A check collects every issue it finds, fields
in declaration order, and converts leniently: texts and whole numbers count as integers, the usual
words count as truth values, but nothing counts as a text except a text and its bytes. -/
namespace ApiScribe

/-- The outcome of a check: a value, or all the issues found. -/
inductive Checked (α : Type)
  | ok (a : α)
  | bad (issues : List Issue)

namespace Checked
variable {α β : Type}

/-- Applies a checked function to a checked argument; issues of both are kept in order. -/
def apply : Checked (α → β) → Checked α → Checked β
  | ok f, ok a => ok (f a)
  | ok _, bad is => bad is
  | bad is, ok _ => bad is
  | bad is, bad js => bad (is ++ js)

instance : Applicative Checked where
  pure := ok
  seq f a := apply f (a ())

/-- Issues one step further out. -/
def under (p : Place) : Checked α → Checked α
  | ok a => ok a
  | bad is => bad (is.map (·.under p))

/-- Continues with a value that passed. -/
def andThen (c : Checked α) (k : α → Checked β) : Checked β :=
  match c with
  | ok a => k a
  | bad is => bad is

/-- One issue at this place. -/
def reject (m : Mismatch) : Checked α := bad [⟨[], m⟩]

/-- The outcome of an operation whose input was checked. -/
def toOutcome : Checked α → Outcome α
  | ok a => .ok a
  | bad is => .error (.invalid is)

/-- Checks items one by one; each issue is placed under the item's index. -/
def eachFrom (d : Value → Checked α) : Nat → List Value → Checked (List α)
  | _, [] => ok []
  | i, v :: vs => List.cons <$> under (.index i) (d v) <*> eachFrom d (i + 1) vs

end Checked

/-- A check of a value against a shape. -/
abbrev Check (α : Type) := Value → Checked α

namespace Check
open Checked

/-- A text; bytes that are a text count. -/
def string : Check String
  | .str s => ok s
  | .scalar (.bytes bs) => match Text.ofUtf8? bs with
    | some s => ok s
    | none => reject .stringUnicode
  | _ => reject .stringType

/-- Null, or a value of the shape. -/
def optional {α : Type} (d : Check α) : Check (Option α)
  | .null => ok none
  | v => some <$> d v

/-- A list of values of the shape. -/
def list {α : Type} (d : Check α) : Check (List α)
  | .list xs => eachFrom d 0 xs
  | _ => reject .listType

/-- The entries of a map of texts to texts. -/
def textEntries : List (Scalar × Value) → Checked (List (String × String))
  | [] => ok []
  | (k, v) :: m =>
    let key := match k with
      | .str s => s
      | k => k.kindName
    List.cons <$> under (.field key) ((fun s => (key, s)) <$> string v) <*> textEntries m

/-- A map of texts to texts. -/
def textMap : Check (List (String × String))
  | .map m => textEntries m
  | _ => reject .dictType

/-- The text that a value is, if it is one or bytes that are one; none within if the bytes are no
text. -/
def text? : Value → Option (Option String)
  | .str s => some (some s)
  | .scalar (.bytes bs) => some (Text.ofUtf8? bs)
  | _ => none

/-- The truth value that a word stands for. -/
def truthWord? (s : String) : Option Bool :=
  let w := String.ofList (s.toList.map Char.toLower)
  if w ∈ ["1", "t", "y", "on", "yes", "true"] then some true
  else if w ∈ ["0", "f", "n", "no", "off", "false"] then some false
  else none

/-- The truth value that an integer stands for. -/
def truthNumber (n : Int) : Checked Bool :=
  if n = 1 then ok true else if n = 0 then ok false else reject .boolParsing

/-- One more than the greatest integer that 64 bits hold. -/
def wordEnd : Int := 0x8000000000000000

/-- A truth value. A number stands for one only if 64 bits hold it. -/
def bool : Check Bool
  | .bool b => ok b
  | .int n => if -wordEnd ≤ n && n < wordEnd then truthNumber n else reject .boolType
  | .float x => match Decimal.int? x with
    | some n => if n.natAbs < wordEnd.natAbs then truthNumber n else reject .boolType
    | none => reject .boolType
  | v => match text? v with
    | some s => match s.bind truthWord? with
      | some b => ok b
      | none => reject .boolParsing
    | none => reject .boolType

/-- The blanks that may stand around numbers: all but those that part records. -/
def isPad (c : Char) : Bool := Text.isBlank c && !('\x1c' ≤ c && c ≤ '\x1f')

/-- A text without the blanks around it. -/
def unpadded (s : String) : List Char :=
  ((s.toList.dropWhile isPad).reverse.dropWhile isPad).reverse

/-- The most characters of an integer. -/
def mostCharacters : Nat := 4300

/-- The integer that a text writes in plain digits: with an optional minus sign, and with a zero in
front only if it is zero. Too many digits are too many whatever follows them. -/
def plainInteger (cs : List Char) : Checked Int :=
  let (negative, body) := match cs with
    | '-' :: ds => (true, ds)
    | ds => (false, ds)
  let digits := body.takeWhile Char.isDigit
  if digits.head? = some '0' then (if body.length = 1 then ok 0 else reject .intParsing)
  else if mostCharacters < digits.length + (if negative then 1 else 0) then reject .intParsingSize
  else if digits.isEmpty || digits ≠ body then reject .intParsing
  else
    let n : Int := Text.Number.ofDigits digits
    ok (if negative then -n else n)

/-- Leaves out zeros and underscores in front of other digits; a zero before a point or at the end
stays. -/
def afterZeros (last : Char) : List Char → Option (List Char)
  | [] => some [last]
  | c :: cs =>
    if c = '0' || c = '_' then afterZeros c cs
    else if '1' ≤ c && c ≤ '9' then some (c :: cs)
    else if c = '.' then some (last :: c :: cs)
    else none

/-- Without zeros in front. -/
def withoutZeros? : List Char → Option (List Char)
  | [] => none
  | c :: cs =>
    if c = '0' then afterZeros c cs
    else if c = '-' || ('1' ≤ c && c ≤ '9') then some (c :: cs)
    else none

/-- Without a point and zeros at the end. -/
def withoutFraction (cs : List Char) : List Char :=
  let back := cs.reverse
  let zeros := back.takeWhile (· = '0')
  match back.dropWhile (· = '0') with
  | '.' :: rest => if zeros.isEmpty then cs else rest.reverse
  | _ => cs

/-- A text without its underscores, which stand alone and within it. -/
def withoutUnderscores? : List Char → Option (List Char)
  | [] => some []
  | '_' :: _ => none
  | [c] => some [c]
  | c :: '_' :: cs => match cs with
    | [] => none
    | d :: ds => (withoutUnderscores? (d :: ds)).map (c :: ·)
  | c :: cs => (withoutUnderscores? cs).map (c :: ·)

/-- The plain digits of a text that writes an integer with blanks around it, a plus sign, zeros in
front, underscores within, or a fraction of zeros. -/
def plainDigits? (s : String) : Option (List Char) := do
  let cs := unpadded s
  let cs ← match cs with
    | '+' :: '-' :: _ => none
    | '+' :: ds => some ds
    | ds => some ds
  withoutUnderscores? (withoutFraction (← withoutZeros? cs))

/-- The integer that a text writes. -/
def integerText (s : String) : Checked Int :=
  match plainInteger s.toList with
  | .ok n => ok n
  | .bad issues => match plainDigits? s with
    | some cs => plainInteger cs
    | none => bad issues

/-- An integer. -/
def int : Check Int
  | .int n => ok n
  | .bool b => ok (if b then 1 else 0)
  | .float x =>
    if !Decimal.isFinite x then reject .finiteNumber
    else match Decimal.int? x with
      | some n => if n.natAbs < wordEnd.natAbs then ok n else reject .intParsingSize
      | none => reject .intFromFloat
  | v => match text? v with
    | some (some s) => integerText s
    | some none => reject .intParsing
    | none => reject .intType

/-- An integer of at least `low`. -/
def intAtLeast (low : Int) : Check Int := fun v =>
  (int v).andThen fun n => if low ≤ n then ok n else reject .greaterThanEqual

/-- An integer above `low`. -/
def intAbove (low : Int) : Check Int := fun v =>
  (int v).andThen fun n => if low < n then ok n else reject .greaterThan

/-- A natural number, from an integer that is not negative. -/
def natural (d : Check Int) : Check Nat := fun v => Int.toNat <$> d v

/-- The number that a text writes: between blanks, or with underscores and no blanks. -/
def numberText? (s : String) : Option Float :=
  (Text.Number.real? (unpadded s)).or
    ((withoutUnderscores? s.toList).bind Text.Number.real?)

/-- A number. -/
def float : Check Float
  | .float x => ok x
  | .int n => if Decimal.isFinite (Decimal.ofInt n) then ok (Decimal.ofInt n) else reject .floatType
  | .bool b => ok (if b then 1.0 else 0.0)
  | v => match text? v with
    | some s => match s.bind numberText? with
      | some x => ok x
      | none => reject .floatParsing
    | none => reject .floatType

/-- One of the named choices. -/
def oneOf {α : Type} (m : Mismatch) (named : List (String × α)) : Check α
  | .str s => match named.lookup s with
    | some a => ok a
    | none => reject m
  | _ => reject m

/-- A record: a map whose fields are then checked one by one. -/
def record {α : Type} (fields : List (Scalar × Value) → Checked α) : Check α
  | .map m => fields m
  | _ => reject .modelType

/-- A field that must be there. -/
def field {α : Type} (m : List (Scalar × Value)) (name : String) (d : Check α) : Checked α :=
  match Entries.get? m (.str name) with
  | some v => under (.field name) (d v)
  | none => bad [⟨[.field name], .missing⟩]

/-- A field with a default. -/
def fieldOr {α : Type} (m : List (Scalar × Value)) (name : String) (default : α) (d : Check α) :
    Checked α :=
  match Entries.get? m (.str name) with
  | some v => under (.field name) (d v)
  | none => ok default

/-- An optional field. -/
def field? {α : Type} (m : List (Scalar × Value)) (name : String) (d : Check α) :
    Checked (Option α) :=
  fieldOr m name none (optional d)

/-- Passes if every key is one of the declared fields. -/
def onlyFields (declared : List String) (m : List (Scalar × Value)) : Checked Unit :=
  match m.filterMap (fun p => match p.1 with
      | .str s => if s ∈ declared then none else some s
      | k => some k.kindName) with
  | [] => ok ()
  | extra => bad (extra.map fun k => ⟨[.field k], .extraForbidden⟩)

end Check
end ApiScribe
