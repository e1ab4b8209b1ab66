import ApiScribe.Text.Search
import ApiScribe.Text.Utf8

/-! Text tools that scripts are made of, on bytes: echo, print by a format, replace characters,
substitute in lines, and take lines from the front or the end. -/
namespace ApiScribe
namespace Shell

/-- An octal digit. -/
def isOctal (c : Char) : Bool := '0' ≤ c && c ≤ '7'

/-- The number of octal digits. -/
def octalNumber (cs : List Char) : Nat := cs.foldl (fun n c => 8 * n + (c.toNat - 48)) 0

/-- The characters that a letter behind a backslash stands for. -/
def escapeCodes : List (Char × Nat) :=
  [('a', 7), ('b', 8), ('f', 12), ('n', 10), ('r', 13), ('t', 9), ('v', 11), ('\\', 92)]

/-- The byte that the characters behind a backslash stand for, and what follows them. With
`leading` a zero stands in front of octal digits. -/
def escapeByte? (leading : Bool) (cs : List Char) : Option (UInt8 × List Char) :=
  match cs with
  | [] => none
  | c :: rest =>
    match escapeCodes.lookup c with
    | some n => some (UInt8.ofNat n, rest)
    | none =>
      let digits := if leading then (if c = '0' then (rest.take 3).takeWhile isOctal else [])
        else (cs.take 3).takeWhile isOctal
      if leading then
        if c = '0' then some (UInt8.ofNat (octalNumber digits), rest.drop digits.length) else none
      else if digits.isEmpty then none
      else some (UInt8.ofNat (octalNumber digits), cs.drop digits.length)

/-- The output of echo for a text: escapes are replaced, and an escaped `c` ends it. The second
part tells whether it was ended so. -/
def echoed : Nat → List Char → Bytes × Bool
  | 0, _ => ([], false)
  | fuel + 1, cs => match cs with
    | [] => ([], false)
    | '\\' :: 'c' :: _ => ([], true)
    | '\\' :: rest =>
      match escapeByte? true rest with
      | some (b, rest) =>
        let (out, ended) := echoed fuel rest
        (b :: out, ended)
      | none =>
        let (out, ended) := echoed fuel rest
        (92 :: out, ended)
    | c :: rest =>
      let (out, ended) := echoed fuel rest
      (Text.utf8 (String.singleton c) ++ out, ended)

/-- Echoes words with a blank between them and a line feed after them, unless the first word says
not to. -/
def echo (args : List String) : Bytes :=
  let (quiet, args) := match args with
    | "-n" :: rest => (true, rest)
    | _ => (false, args)
  let cs := (" ".intercalate args).toList
  let (out, ended) := echoed cs.length.succ cs
  if quiet || ended then out else out ++ [10]

/-- Prints by a format once; returns the arguments that are left. -/
def formatOnce : Nat → List Char → List String → Bytes × List String
  | 0, _, args => ([], args)
  | fuel + 1, cs, args => match cs with
    | [] => ([], args)
    | '\\' :: rest =>
      match escapeByte? false rest with
      | some (b, rest) =>
        let (out, args) := formatOnce fuel rest args
        (b :: out, args)
      | none =>
        let (out, args) := formatOnce fuel rest args
        (92 :: out, args)
    | '%' :: '%' :: rest =>
      let (out, args) := formatOnce fuel rest args
      (37 :: out, args)
    | '%' :: d :: rest =>
      if d ∈ ['s', 'd', 'c', 'b'] then
        let arg := args.headD ""
        let cs := arg.toList
        let here := match d with
          | 's' => Text.utf8 arg
          | 'c' => Text.utf8 (String.ofList (cs.take 1))
          | 'b' => (echoed cs.length.succ cs).1
          | _ => Text.utf8 (if arg = "" then "0" else arg)
        let (out, args) := formatOnce fuel rest args.tail
        (here ++ out, args)
      else
        let (out, args) := formatOnce fuel rest args
        (37 :: Text.utf8 (String.singleton d) ++ out, args)
    | c :: rest =>
      let (out, args) := formatOnce fuel rest args
      (Text.utf8 (String.singleton c) ++ out, args)

/-- Prints by a format, again and again while arguments are left. -/
def formatted : Nat → List Char → List String → Bytes
  | 0, _, _ => []
  | fuel + 1, cs, args =>
    let (out, rest) := formatOnce cs.length.succ cs args
    if rest.isEmpty || rest.length = args.length then out else out ++ formatted fuel cs rest

/-- Prints arguments by a format. -/
def printf (args : List String) : Bytes :=
  match args with
  | "--" :: format :: rest | format :: rest => formatted rest.length.succ format.toList rest
  | [] => []

/-- The sets of characters that have names. -/
def namedSets : List (String × List Nat) :=
  [("[:upper:]", List.range' 65 26), ("[:lower:]", List.range' 97 26),
   ("[:digit:]", List.range' 48 10), ("[:space:]", [9, 10, 11, 12, 13, 32]),
   ("[:blank:]", [9, 32]), ("[:alpha:]", List.range' 65 26 ++ List.range' 97 26),
   ("[:alnum:]", List.range' 48 10 ++ List.range' 65 26 ++ List.range' 97 26)]

/-- The set with a name at the front of a text. -/
def namedSet? (cs : List Char) : Option (List Nat × List Char) :=
  namedSets.findSome? fun p => (Text.after? p.1.toList cs).map fun rest => (p.2, rest)

/-- The bytes of a set, with escapes but without ranges; named sets come as they are. -/
def setParts : Nat → List Char → List (List UInt8)
  | 0, _ => []
  | fuel + 1, cs => match cs with
    | [] => []
    | '\\' :: rest => match escapeByte? false rest with
      | some (b, rest) => [b] :: setParts fuel rest
      | none => [92] :: setParts fuel rest
    | c :: rest => match namedSet? cs with
      | some (ns, rest) => ns.map UInt8.ofNat :: setParts fuel rest
      | none => (Text.utf8 (String.singleton c)).map (fun b => [b]) ++ setParts fuel rest

/-- The bytes of a set with its ranges written out. -/
def withRanges : List (List UInt8) → List UInt8
  | [a] :: [45] :: [b] :: rest =>
    (List.range' a.toNat (b.toNat + 1 - a.toNat)).map UInt8.ofNat ++ withRanges rest
  | part :: rest => part ++ withRanges rest
  | [] => []

/-- The bytes of a set. -/
def setBytes (s : String) : List UInt8 := withRanges (setParts s.length.succ s.toList)

/-- Leaves out repetitions of bytes of a set. -/
def squeeze (set : List UInt8) (last : Option UInt8) : Bytes → Bytes
  | [] => []
  | b :: bs =>
    if set.contains b && last == some b then squeeze set last bs
    else b :: squeeze set (some b) bs

/-- Replaces each byte of a set by the one at the same place of another set, whose last byte
stands for all that follow. -/
def replaceByte (source target : List UInt8) (b : UInt8) : UInt8 :=
  match source.findIdx? (· == b) with
  | some i => (target[i]?).getD (target.getLastD b)
  | none => b

/-- Replaces, deletes or squeezes bytes. -/
def tr (args : List String) (input : Bytes) : Option Bytes :=
  match args with
  | ["-d", set] => some (input.filter fun b => !(setBytes set).contains b)
  | ["-s", set] => some (squeeze (setBytes set) none input)
  | ["-cd", set] | ["-dc", set] => some (input.filter fun b => (setBytes set).contains b)
  | [source, target] =>
    if source.startsWith "-" then none
    else some (input.map (replaceByte (setBytes source) (setBytes target)))
  | _ => none

/-- Lines with their ends. -/
def byteLines (bs : Bytes) : List Bytes :=
  (bs.foldr (fun b (lines : List Bytes) =>
    if b == 10 then [b] :: lines
    else match lines with
      | line :: rest => if line.isEmpty then [b] :: rest else (b :: line) :: rest
      | [] => [[b]]) [])

/-- A part of a pattern. -/
inductive Atom
  | one (c : Char)
  | any
  | among (cs : List Char) (inverted : Bool)
  deriving Repr, DecidableEq

/-- Whether a character fits. -/
def Atom.fits (c : Char) : Atom → Bool
  | .one d => c = d
  | .any => true
  | .among cs inverted => cs.contains c != inverted

/-- A pattern: atoms, each once or as often as possible, perhaps bound to the ends of the line. -/
structure Pattern where
  atStart : Bool
  atEnd : Bool
  atoms : List (Atom × Bool)
  deriving Repr, DecidableEq

/-- Writes out the ranges of a bracket. -/
def bracketSet : List Char → List Char
  | a :: '-' :: b :: rest =>
    (List.range' a.toNat (b.toNat + 1 - a.toNat)).map Char.ofNat ++ bracketSet rest
  | c :: rest => c :: bracketSet rest
  | [] => []

/-- The atoms of a pattern. -/
def atomsOf : Nat → List Char → List (Atom × Bool)
  | 0, _ => []
  | fuel + 1, cs =>
    let (atom, rest) : Option Atom × List Char := match cs with
      | [] => (none, [])
      | '.' :: rest => (some .any, rest)
      | '\\' :: 'n' :: rest => (some (.one '\n'), rest)
      | '\\' :: 't' :: rest => (some (.one '\t'), rest)
      | '\\' :: c :: rest => (some (.one c), rest)
      | '[' :: '^' :: rest =>
        (some (.among (bracketSet (rest.takeWhile (· ≠ ']'))) true), (rest.dropWhile (· ≠ ']')).drop 1)
      | '[' :: rest =>
        (some (.among (bracketSet (rest.takeWhile (· ≠ ']'))) false), (rest.dropWhile (· ≠ ']')).drop 1)
      | c :: rest => (some (.one c), rest)
    match atom, rest with
    | none, _ => []
    | some a, '*' :: rest => (a, true) :: atomsOf fuel rest
    | some a, rest => (a, false) :: atomsOf fuel rest

/-- Reads a pattern. -/
def Pattern.ofText (cs : List Char) : Pattern :=
  let atStart := cs.head? = some '^'
  let cs := if atStart then cs.tail else cs
  let atEnd := cs.getLast? = some '$'
  let cs := if atEnd then cs.dropLast else cs
  ⟨atStart, atEnd, atomsOf cs.length.succ cs⟩

/-- The length of the longest run that atoms fit at the front of a text, trying long repetitions
first. -/
def fitLength (atEnd : Bool) : Nat → List (Atom × Bool) → List Char → Option Nat
  | 0, _, _ => none
  | _ + 1, [], cs => if atEnd && !cs.isEmpty then none else some 0
  | fuel + 1, (a, false) :: rest, cs => match cs with
    | c :: cs => if a.fits c then (fitLength atEnd fuel rest cs).map (· + 1) else none
    | [] => none
  | fuel + 1, (a, true) :: rest, cs =>
    let more := match cs with
      | c :: cs => if a.fits c then (fitLength atEnd fuel ((a, true) :: rest) cs).map (· + 1) else none
      | [] => none
    match more with
    | some n => some n
    | none => fitLength atEnd fuel rest cs

/-- The replacement of a match. -/
def replacement (matched : List Char) : List Char → List Char
  | '\\' :: 'n' :: rest => '\n' :: replacement matched rest
  | '\\' :: c :: rest => c :: replacement matched rest
  | '&' :: rest => matched ++ replacement matched rest
  | c :: rest => c :: replacement matched rest
  | [] => []

/-- Replaces matches in a line, all or only the first. -/
def substituteFrom (p : Pattern) (by_ : List Char) (everywhere : Bool) :
    Nat → Bool → List Char → List Char
  | 0, _, cs => cs
  | fuel + 1, first, cs =>
    let fit := if p.atStart && !first then none
      else fitLength p.atEnd (cs.length + p.atoms.length + 1) p.atoms cs
    match fit, cs with
    | some 0, [] => replacement [] by_
    | some 0, c :: rest =>
      replacement [] by_ ++ c :: (if everywhere then substituteFrom p by_ everywhere fuel false rest
        else rest)
    | some n, cs =>
      let rest := cs.drop n
      replacement (cs.take n) by_
        ++ (if everywhere && !rest.isEmpty then substituteFrom p by_ everywhere fuel false rest
            else rest)
    | none, c :: rest => c :: substituteFrom p by_ everywhere fuel false rest
    | none, [] => []

/-- The parts of a substitution between its delimiters. -/
def delimited (delimiter : Char) : List Char → List (List Char)
  | [] => [[]]
  | '\\' :: c :: rest =>
    match delimited delimiter rest with
    | part :: parts => (if c = delimiter then c :: part else '\\' :: c :: part) :: parts
    | [] => [['\\', c]]
  | c :: rest =>
    if c = delimiter then [] :: delimited delimiter rest
    else match delimited delimiter rest with
      | part :: parts => (c :: part) :: parts
      | [] => [[c]]

/-- Edits a line by a script of one substitution. -/
def sedLine? (script : String) (line : List Char) : Option (List Char) :=
  match script.toList with
  | 's' :: d :: rest => match delimited d rest with
    | [p, by_, flags] =>
      let everywhere := flags.contains 'g'
      some (substituteFrom (Pattern.ofText p) by_ everywhere line.length.succ true line)
    | _ => none
  | _ => none

/-- Edits every line by a script of one substitution. -/
def sed (args : List String) (input : Bytes) : Option Bytes := do
  let script ← match args with
    | [s] | ["-e", s] => some s
    | _ => none
  let lines ← (byteLines input).mapM fun line => do
    let ended := line.getLast? == some 10
    let body ← Text.ofUtf8? (if ended then line.dropLast else line)
    let edited ← sedLine? script body.toList
    some (Text.utf8 (String.ofList edited) ++ (if ended then [10] else []))
  some lines.flatten

/-- The number of lines or bytes that options of head and tail ask for. -/
def countOption? (args : List String) : Option (Bool × Nat) :=
  match args with
  | [] => some (true, 10)
  | ["-n", n] => n.toNat?.map fun k => (true, k)
  | ["-c", n] => n.toNat?.map fun k => (false, k)
  | [o] =>
    let body := String.ofList (o.toList.drop 1)
    if o.startsWith "-n" then ((String.ofList (o.toList.drop 2)).toNat?).map fun k => (true, k)
    else if o.startsWith "-c" then ((String.ofList (o.toList.drop 2)).toNat?).map fun k => (false, k)
    else if o.startsWith "-" then body.toNat?.map fun k => (true, k)
    else none
  | _ => none

/-- The first lines or bytes. -/
def headOf (args : List String) (input : Bytes) : Option Bytes :=
  (countOption? args).map fun (inLines, n) =>
    if inLines then ((byteLines input).take n).flatten else input.take n

/-- The last lines or bytes. -/
def tailOf (args : List String) (input : Bytes) : Option Bytes :=
  (countOption? args).map fun (inLines, n) =>
    let lines := byteLines input
    if inLines then (lines.drop (lines.length - n)).flatten else input.drop (input.length - n)

end Shell
end ApiScribe
