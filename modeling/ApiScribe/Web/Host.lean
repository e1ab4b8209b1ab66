import ApiScribe.Text.LowerCase
import ApiScribe.Text.Number
import ApiScribe.Text.Utf8
import ApiScribe.Web.Domain.Name

/-! Parts of addresses. A character that a part cannot hold is written as percent and two digits for
each of its bytes; which characters a part can hold depends on the part. A percent sign always stays
as it is, so that writing a part again changes nothing. -/
namespace ApiScribe
namespace Escaped

/-- One of sixteen digits, in upper case. -/
def percentDigit (n : Nat) : Char := ("0123456789ABCDEF".toList[n]?).getD '0'

/-- A character as percent and two digits for each byte. -/
def percent (c : Char) : List Char :=
  (Text.utf8 (String.singleton c)).flatMap fun b =>
    ['%', percentDigit (b.toNat / 16), percentDigit (b.toNat % 16)]

/-- A part with the characters replaced that it cannot hold. -/
def encode (holds : Char → Bool) (cs : List Char) : List Char :=
  cs.flatMap fun c => if holds c then [c] else percent c

/-- Characters that can be seen, apart from some. -/
def isVisibleBut (banned : List Char) (c : Char) : Bool :=
  0x20 < c.toNat && c.toNat < 0x7f && !banned.contains c

/-- The characters that a fragment holds. -/
def inFragment : Char → Bool := isVisibleBut ['"', '<', '>', '\x60']

/-- The characters that a query holds. -/
def inQuery : Char → Bool := isVisibleBut ['"', '#', '<', '>']

/-- What a path cannot hold. -/
def pathBanned : List Char := ['"', '#', '<', '>', '?', '\x60', '{', '}']

/-- The characters that a path holds. -/
def inPath : Char → Bool := isVisibleBut pathBanned

/-- The characters that the name of a user holds. -/
def inUser : Char → Bool :=
  isVisibleBut (pathBanned ++ ['/', ';', '=', '@', '[', '\\', ']', '^', '|'])

/-- The characters that the name of a host holds. -/
def inHost : Char → Bool := isVisibleBut ['#', '/', ':', '<', '>', '?', '@', '[', ']', '^']

/-- Bytes with the ones that percent signs write; a percent sign that two digits do not follow is
itself. -/
def bytes : List Char → Bytes
  | '%' :: a :: b :: cs =>
    match Text.Number.digit? 16 a, Text.Number.digit? 16 b with
    | some m, some n => UInt8.ofNat (16 * m + n) :: bytes cs
    | _, _ => '%'.toUInt8 :: bytes (a :: b :: cs)
  | c :: cs => Text.utf8 (String.singleton c) ++ bytes cs
  | [] => []

/-- The text that a part writes. -/
def decode (cs : List Char) : List Char := (Text.patched (bytes cs)).toList

end Escaped
end ApiScribe

/-! Hosts. A host is a number of four parts, a number of eight groups between brackets, or a name;
what looks like a number must be one. -/
namespace ApiScribe
namespace Host

/-- What is wrong with a host. -/
inductive Flaw
  | parts
  | groups
  | name
  deriving Repr, DecidableEq

/-- What a host with a flaw is no example of. -/
def Flaw.kind : Flaw → String
  | parts => "IPv4 address"
  | groups => "IPv6 address"
  | name => "IDNA hostname"

/-- The runs of digits between the characters that are none. -/
def digitRuns : List Char → List (List Char)
  | [] => [[]]
  | c :: cs =>
    match digitRuns cs with
    | run :: runs => if c.isDigit then (c :: run) :: runs else [] :: run :: runs
    | [] => [[c]]

/-- Whether a host looks like a number of four parts: digits with three characters in between, which
may be digits as well. -/
def isLikeParts (cs : List Char) : Bool :=
  let runs := digitRuns cs
  runs.all (!·.isEmpty) && runs.length ≤ 4
    && 4 - runs.length ≤ runs.foldl (fun n run => n + (run.length - 1) / 2) 0

/-- Whether a text is a part of a number of four parts. -/
def isPart (cs : List Char) : Bool :=
  !cs.isEmpty && cs.all Char.isDigit && cs.length ≤ 3 && (cs = ['0'] || cs.head? ≠ some '0')
    && Text.Number.ofDigits cs ≤ 255

/-- Whether a text is a number of four parts. -/
def areParts (cs : List Char) : Bool :=
  let parts := Text.splitAt '.' cs
  parts.length = 4 && parts.all isPart

/-- Whether a text is a group of a number of eight groups. -/
def isGroup (cs : List Char) : Bool :=
  !cs.isEmpty && cs.length ≤ 4 && cs.all fun c => (Text.Number.digit? 16 c).isSome

/-- Groups with the last one taken for two if it is a number of four parts. -/
def widened (groups : List (List Char)) : Option (List (List Char)) :=
  let last := (groups.getLast?).getD []
  if !last.contains '.' then some groups
  else if areParts last then some (groups.dropLast ++ [['0'], ['0']])
  else none

/-- Whether texts are eight groups, of which an empty text in between leaves some out. Another empty
text may stand beside it at an end. -/
def areEight (groups : List (List Char)) : Bool :=
  let inner := (groups.drop 1).dropLast
  match inner.findIdx? (·.isEmpty) with
  | none => groups.length = 8 && groups.all isGroup
  | some i =>
    let high := groups.take (i + 1)
    let low := groups.drop (i + 2)
    let high := if high = [[]] then [] else high
    let low := if low = [[]] then [] else low
    high.length + low.length ≤ 7 && (high ++ low).all isGroup

/-- Whether a text is a number of eight groups, with the name of a zone after a percent sign. -/
def areGroups (cs : List Char) : Bool :=
  let zone := cs.dropWhile (· ≠ '%')
  let groups := Text.splitAt ':' (cs.takeWhile (· ≠ '%'))
  !cs.contains '/' && zone ≠ ['%'] && !(zone.drop 1).contains '%' && 3 ≤ groups.length
    && (widened groups).any areEight

/-- Whether a host stands between brackets. -/
def isBracketed (cs : List Char) : Bool := cs.head? = some '[' && (cs.drop 1).getLast? = some ']'

/-- The host that a text writes. Numbers stay as they are, without brackets. -/
def read (cs : List Char) : Except Flaw (List Char) :=
  if cs.isEmpty then .ok []
  else if isLikeParts cs then
    if areParts cs then .ok cs else .error .parts
  else if isBracketed cs then
    let groups := (cs.drop 1).dropLast
    if areGroups groups then .ok groups else .error .groups
  else
    let small := Text.lowerFrom false cs
    if cs.all Domain.Punycode.isPlain then .ok (Escaped.encode Escaped.inHost small)
    else (Domain.plain small).mapError fun _ => .name

/-- The text of a host. -/
def text (host : String) : String := if host.contains ':' then "[" ++ host ++ "]" else host

end Host
end ApiScribe
