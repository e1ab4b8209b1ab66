/-! Scripts of a small shell language: simple commands with quoted words, parameters and
redirections, joined in sequence, by condition or by pipes, and choices by pattern. -/
namespace ApiScribe
namespace Shell

/-- Parts of a word: literal text, a parameter, or the output of a script. What is not quoted is
split at blanks after it is replaced. -/
inductive Piece
  | text (chars : List Char) (quoted : Bool)
  | param (name : String) (quoted : Bool)
  | output (script : List Char) (quoted : Bool)
  deriving Repr, DecidableEq

/-- Words. -/
abbrev Word := List Piece

/-- Redirections: of one stream to where another goes, or away from sight. -/
inductive Route
  | toStream (source target : Nat)
  | away (source : Nat)
  deriving Repr, DecidableEq

/-- What a script is made of. -/
inductive Lexeme
  | word (w : Word)
  | sign (s : String)
  | route (r : Route)
  | routeToWord (source : Nat)
  deriving Repr, DecidableEq

/-- How two commands are joined. -/
inductive Link
  | sequence
  | both
  | either
  | pipe
  deriving Repr, DecidableEq

/-- Commands. -/
inductive Command
  | empty
  | simple (words : List Word) (routes : List Route)
  | joined (link : Link) (first second : Command)
  | inverted (command : Command)
  | isolated (command : Command)
  | choice (subject : Word) (branches : List (List Word × Command))
  | condition (test success failure : Command)
  deriving Repr

/-- A character of a parameter's name. -/
def isParamChar (c : Char) : Bool := c.isAlphanum || c == '_'

/-- The text up to the bracket that closes the one just opened, and what follows it. -/
def bracketed (depth : Nat) : List Char → Option (List Char × List Char)
  | [] => none
  | c :: cs =>
    let depth' := if c = '(' then depth + 1 else if c = ')' then depth - 1 else depth
    if c = ')' && depth = 1 then some ([], cs)
    else (bracketed depth' cs).map fun r => (c :: r.1, r.2)

/-- The parameter behind a dollar sign and what follows it; a lone dollar sign stands for
itself. -/
def dollar (quoted : Bool) (cs : List Char) : Option (Piece × List Char) :=
  match cs with
  | '(' :: rest => do
    let (script, rest) ← bracketed 1 rest
    some (.output script quoted, rest)
  | '{' :: rest =>
    match rest.dropWhile (· ≠ '}') with
    | _ :: after => some (.param (String.ofList (rest.takeWhile (· ≠ '}'))) quoted, after)
    | [] => none
  | c :: rest =>
    if c.isDigit || c ∈ ['@', '*', '#', '?', '$'] then
      some (.param (String.singleton c) quoted, rest)
    else if isParamChar c then
      some (.param (String.ofList ((c :: rest).takeWhile isParamChar)) quoted,
        rest.dropWhile isParamChar)
    else some (.text ['$'] true, cs)
  | [] => some (.text ['$'] true, [])

/-- The inside of double quotes. -/
def doubleQuoted : Nat → List Char → Option (Word × List Char)
  | 0, _ => none
  | fuel + 1, cs => match cs with
    | [] => none
    | '"' :: rest => some ([], rest)
    | '\\' :: c :: rest => do
      let (w, after) ← doubleQuoted fuel rest
      let here := if c = '\n' then [] else if c ∈ ['"', '\\', '$', '\x60'] then [c] else ['\\', c]
      some (.text here true :: w, after)
    | '$' :: rest => do
      let (p, rest) ← dollar true rest
      let (w, after) ← doubleQuoted fuel rest
      some (p :: w, after)
    | c :: rest => do
      let (w, after) ← doubleQuoted fuel rest
      some (.text [c] true :: w, after)

/-- A character that ends a word. -/
def endsWord (c : Char) : Bool := " \t\n;&|<>()".toList.contains c

/-- A word and what follows it. -/
def readWord : Nat → List Char → Option (Word × List Char)
  | 0, _ => none
  | fuel + 1, cs => match cs with
    | [] => some ([], [])
    | '\'' :: rest => match rest.dropWhile (· ≠ '\'') with
      | _ :: after => do
        let (w, after) ← readWord fuel after
        some (.text (rest.takeWhile (· ≠ '\'')) true :: w, after)
      | [] => none
    | '"' :: rest => do
      let (inside, rest) ← doubleQuoted rest.length.succ rest
      let (w, after) ← readWord fuel rest
      some (.text [] true :: inside ++ w, after)
    | '\\' :: c :: rest => do
      let (w, after) ← readWord fuel rest
      some ((if c = '\n' then w else .text [c] true :: w), after)
    | '$' :: rest => do
      let (p, rest) ← dollar false rest
      let (w, after) ← readWord fuel rest
      some (p :: w, after)
    | c :: rest =>
      if endsWord c then some ([], c :: rest)
      else do
        let (w, after) ← readWord fuel rest
        some (.text [c] false :: w, after)

/-- A redirection behind its sign. -/
def readRoute (source : Nat) (cs : List Char) : Lexeme × List Char :=
  match cs with
  | '&' :: d :: rest =>
    if d.isDigit then (.route (.toStream source (d.toNat - 48)), rest)
    else (.routeToWord source, d :: rest)
  | '>' :: rest => (.routeToWord source, rest)
  | rest => (.routeToWord source, rest)

/-- The parts of a script. -/
def lexemes : Nat → List Char → Option (List Lexeme)
  | 0, _ => none
  | fuel + 1, cs => match cs with
    | [] => some []
    | ' ' :: rest | '\t' :: rest => lexemes fuel rest
    | '#' :: rest => lexemes fuel (rest.dropWhile (· ≠ '\n'))
    | '\n' :: rest => (lexemes fuel rest).map (.sign ";" :: ·)
    | ';' :: ';' :: rest => (lexemes fuel rest).map (.sign ";;" :: ·)
    | ';' :: rest => (lexemes fuel rest).map (.sign ";" :: ·)
    | '&' :: '&' :: rest => (lexemes fuel rest).map (.sign "&&" :: ·)
    | '|' :: '|' :: rest => (lexemes fuel rest).map (.sign "||" :: ·)
    | '|' :: rest => (lexemes fuel rest).map (.sign "|" :: ·)
    | '(' :: rest => (lexemes fuel rest).map (.sign "(" :: ·)
    | ')' :: rest => (lexemes fuel rest).map (.sign ")" :: ·)
    | '>' :: rest =>
      let (r, rest) := readRoute 1 rest
      (lexemes fuel rest).map (r :: ·)
    | '1' :: '>' :: rest =>
      let (r, rest) := readRoute 1 rest
      (lexemes fuel rest).map (r :: ·)
    | '2' :: '>' :: rest =>
      let (r, rest) := readRoute 2 rest
      (lexemes fuel rest).map (r :: ·)
    | '&' :: _ | '<' :: _ => none
    | cs => do
      let (w, rest) ← readWord cs.length.succ cs
      (lexemes fuel rest).map (.word w :: ·)

/-- The text of a word without quotes and parameters. -/
def bareText (w : Word) : Option String :=
  (w.mapM fun p => match p with
    | Piece.text cs false => some cs
    | _ => none).map fun (parts : List (List Char)) => String.ofList parts.flatten

/-- Whether a lexeme is an unquoted word with the given text. -/
def isKeyword (k : String) : Lexeme → Bool
  | .word w => bareText w == some k
  | _ => false

/-- The words that close a group of commands. -/
def closers : List String := ["then", "else", "elif", "fi", "esac", "\x7d"]

/-- Whether the commands of a group end here. -/
def closesGroup : List Lexeme → Bool
  | [] => true
  | .sign s :: _ => s = ";;" || s = ")"
  | l :: _ => closers.any fun k => isKeyword k l

/-- Words and redirections up to the next sign. -/
def simpleParts : List Lexeme → List Word × List Route × List Lexeme
  | .word w :: rest =>
    let (ws, rs, rest) := simpleParts rest
    (w :: ws, rs, rest)
  | .route r :: rest =>
    let (ws, rs, rest) := simpleParts rest
    (ws, r :: rs, rest)
  | .routeToWord n :: .word _ :: rest =>
    let (ws, rs, rest) := simpleParts rest
    (ws, .away n :: rs, rest)
  | rest => ([], [], rest)

/-- Leaves semicolons out. -/
def skipEnds (ls : List Lexeme) : List Lexeme := ls.dropWhile (· == .sign ";")

/-- Leaves one lexeme out that must be there. -/
def expectWord (k : String) : List Lexeme → Option (List Lexeme)
  | l :: rest => if isKeyword k l then some rest else none
  | [] => none

/-- The patterns of a branch, up to the bracket behind them. -/
def patterns : List Lexeme → Option (List Word × List Lexeme)
  | .sign "(" :: rest => patterns rest
  | .word w :: .sign ")" :: rest => some ([w], rest)
  | .word w :: .sign "|" :: rest => (patterns rest).map fun r => (w :: r.1, r.2)
  | _ => none

mutual

/-- Commands in sequence. -/
def sequence (fuel : Nat) (ls : List Lexeme) : Option (Command × List Lexeme) :=
  match fuel with
  | 0 => none
  | fuel + 1 =>
    let ls := skipEnds ls
    if closesGroup ls then some (.empty, ls)
    else do
      let (first, rest) ← conditional fuel ls
      match rest with
      | .sign ";" :: rest =>
        let (second, rest) ← sequence fuel rest
        some (.joined .sequence first second, rest)
      | rest => some (first, rest)

/-- Pipes joined by conditions. -/
def conditional (fuel : Nat) (ls : List Lexeme) : Option (Command × List Lexeme) :=
  match fuel with
  | 0 => none
  | fuel + 1 => do
    let (first, rest) ← piped fuel ls
    conditionalAfter fuel first rest

/-- More pipes joined by conditions to a command. -/
def conditionalAfter (fuel : Nat) (first : Command) (ls : List Lexeme) :
    Option (Command × List Lexeme) :=
  match fuel with
  | 0 => none
  | fuel + 1 =>
    match ls with
    | .sign "&&" :: rest => do
      let (second, rest) ← piped fuel (skipEnds rest)
      conditionalAfter fuel (.joined .both first second) rest
    | .sign "||" :: rest => do
      let (second, rest) ← piped fuel (skipEnds rest)
      conditionalAfter fuel (.joined .either first second) rest
    | _ => some (first, ls)

/-- Commands joined by pipes. -/
def piped (fuel : Nat) (ls : List Lexeme) : Option (Command × List Lexeme) :=
  match fuel with
  | 0 => none
  | fuel + 1 =>
    match ls with
    | [] => none
    | l :: rest =>
      if isKeyword "!" l then (piped fuel rest).map fun r => (.inverted r.1, r.2)
      else do
        let (first, rest) ← command fuel ls
        match rest with
        | .sign "|" :: rest =>
          let (second, rest) ← piped fuel (skipEnds rest)
          some (.joined .pipe first second, rest)
        | rest => some (first, rest)

/-- One command. -/
def command (fuel : Nat) (ls : List Lexeme) : Option (Command × List Lexeme) :=
  match fuel with
  | 0 => none
  | fuel + 1 =>
    match ls with
    | [] => none
    | .sign "(" :: rest => do
      let (inner, rest) ← sequence fuel rest
      match rest with
      | .sign ")" :: rest => some (.isolated inner, rest)
      | _ => none
    | l :: rest =>
      if isKeyword "\x7b" l then do
        let (inner, rest) ← sequence fuel rest
        some (inner, ← expectWord "\x7d" rest)
      else if isKeyword "if" l then conditionOf fuel rest
      else if isKeyword "case" l then
        match rest with
        | .word subject :: rest => do
          let (bs, rest) ← branches fuel (← expectWord "in" rest)
          some (.choice subject bs, rest)
        | _ => none
      else
        let (ws, rs, rest) := simpleParts ls
        if ws.isEmpty && rs.isEmpty then none else some (.simple ws rs, rest)

/-- A condition behind its first word. -/
def conditionOf (fuel : Nat) (ls : List Lexeme) : Option (Command × List Lexeme) :=
  match fuel with
  | 0 => none
  | fuel + 1 => do
    let (test, rest) ← sequence fuel ls
    let (success, rest) ← sequence fuel (← expectWord "then" rest)
    match rest with
    | l :: rest =>
      if isKeyword "elif" l then
        let (failure, rest) ← conditionOf fuel rest
        some (.condition test success failure, rest)
      else if isKeyword "else" l then
        let (failure, rest) ← sequence fuel rest
        some (.condition test success failure, ← expectWord "fi" rest)
      else if isKeyword "fi" l then some (.condition test success .empty, rest)
      else none
    | [] => none

/-- The branches of a choice. -/
def branches (fuel : Nat) (ls : List Lexeme) :
    Option (List (List Word × Command) × List Lexeme) :=
  match fuel with
  | 0 => none
  | fuel + 1 =>
    let ls := skipEnds ls
    match ls with
    | [] => none
    | l :: rest =>
      if isKeyword "esac" l then some ([], rest)
      else do
        let (ws, rest) ← patterns ls
        let (body, rest) ← sequence fuel rest
        let rest := match rest with
          | .sign ";;" :: rest => rest
          | rest => rest
        let (more, rest) ← branches fuel rest
        some ((ws, body) :: more, rest)

end

/-- The commands of a script. -/
def parse (script : List Char) : Option Command := do
  let ls ← lexemes (script.length + 1) script
  let (c, rest) ← sequence (6 * ls.length + 6) ls
  if rest.isEmpty then some c else none

end Shell
end ApiScribe
