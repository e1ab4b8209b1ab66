import ApiScribe.Yaml.Text

/-! Tokens of a text. Indentation shows as tokens that open and close blocks. A scalar or a
bracket may turn out to be a key only when the colon after it is read; its key token is then put
in front of it. -/
namespace ApiScribe
namespace Yaml

/-- Tokens. A tag is a handle, absent for a full tag, and a suffix. -/
inductive Token
  | versionDirective (major : Nat)
  | tagDirective (handle lead : String)
  | otherDirective
  | documentStart
  | documentEnd
  | blockSequence
  | blockMapping
  | blockEnd
  | flowSequence
  | flowMapping
  | flowSequenceEnd
  | flowMappingEnd
  | entry
  | flowEntry
  | key
  | value
  | anchor (name : String)
  | aliasOf (name : String)
  | tag (handle : Option String) (suffix : String)
  | scalar (text : String) (plain : Bool)
  deriving Repr, DecidableEq

/-- A token that may turn out to start a key: its number among the tokens, where it stands, and
whether it must be a key. -/
structure KeyMark where
  token : Nat
  required : Bool
  index : Nat
  line : Nat
  column : Nat
  deriving Repr

/-- The state of reading tokens. `keys` holds one mark per flow level; `indent` is the column of
the block under way, `-1` outside all blocks, and `outer` those of the blocks around it. -/
structure Lexer where
  cursor : Cursor
  tokens : Array Token := #[]
  flowLevel : Nat := 0
  indent : Int := -1
  outer : List Int := []
  keyAllowed : Bool := true
  keys : List (Nat × KeyMark) := []

end Yaml
end ApiScribe

/-! Reading tokens from a text, one after the other, up to its end. -/
namespace ApiScribe
namespace Yaml
namespace Lexer

/-- Adds a token. -/
def emit (l : Lexer) (t : Token) : Lexer := { l with tokens := l.tokens.push t }

/-- Adds a token and moves on behind its `n` characters. -/
def emitOver (l : Lexer) (n : Nat) (t : Token) : Lexer :=
  { l.emit t with cursor := l.cursor.forward n }

/-- Whether the lexer is inside brackets. -/
def inFlow (l : Lexer) : Bool := l.flowLevel != 0

/-- Forgets the mark of the current level; a required key must not be forgotten. -/
def dropKey (l : Lexer) : Except Trouble Lexer :=
  match l.keys.lookup l.flowLevel with
  | some k =>
    if k.required then .error .malformed
    else .ok { l with keys := l.keys.filter (·.1 != l.flowLevel) }
  | none => .ok l

/-- Forgets marks that can no longer be keys: a key stands on one line and is at most 1024
characters long. -/
def dropStaleKeys (l : Lexer) : Except Trouble Lexer :=
  let stale (k : KeyMark) : Bool := k.line != l.cursor.line || l.cursor.index - k.index > 1024
  if l.keys.any (fun k => stale k.2 && k.2.required) then .error .malformed
  else .ok { l with keys := l.keys.filter fun k => !stale k.2 }

/-- Marks the next token as a possible key. -/
def markKey (l : Lexer) : Except Trouble Lexer := do
  if l.keyAllowed then
    let required := !l.inFlow && l.indent == (l.cursor.column : Int)
    let l ← l.dropKey
    let mark : KeyMark :=
      ⟨l.tokens.size, required, l.cursor.index, l.cursor.line, l.cursor.column⟩
    return { l with keys := (l.flowLevel, mark) :: l.keys }
  else return l

/-- Closes the blocks deeper than a column. -/
def closeBlocks (column : Int) : List Int → Lexer → Lexer
  | [], l => l
  | outer :: rest, l =>
    if l.inFlow || l.indent ≤ column then l
    else closeBlocks column rest { l.emit .blockEnd with indent := outer, outer := rest }

/-- Closes the blocks deeper than a column. -/
def unwind (column : Int) (l : Lexer) : Lexer := closeBlocks column l.outer l

/-- Opens a block at a column deeper than the block under way; tells whether it did. -/
def openBlock (l : Lexer) (column : Int) : Bool × Lexer :=
  if l.indent < column then (true, { l with indent := column, outer := l.indent :: l.outer })
  else (false, l)

/-- The place of the next token: blanks, comments and line ends are left out, and a line end
outside brackets allows a key. -/
def toNext : Nat → Lexer → Lexer
  | 0, l => l
  | fuel + 1, l =>
    let c := l.cursor.skipBlanks
    let c := if c.peek == '#' then c.skip (fun ch => !isLineStop ch) else c
    match c.lineBreak? with
    | some (_, c) =>
      toNext fuel { l with cursor := c, keyAllowed := l.keyAllowed || !l.inFlow }
    | none => { l with cursor := c }

/-- A name of letters, digits, hyphens and underscores. -/
def name (c : Cursor) : Except Trouble (String × Cursor) :=
  let (run, c) := c.span isNameChar
  if run.isEmpty then .error .malformed else .ok (String.ofList run, c)

/-- A number of a version. -/
def versionNumber (c : Cursor) : Except Trouble (Nat × Cursor) :=
  let (run, c) := c.span Char.isDigit
  if run.isEmpty then .error .malformed
  else .ok (run.foldl (fun n d => 10 * n + (d.toNat - 48)) 0, c)

/-- The handle of a tag: `!`, or a name between two of them. -/
def tagHandle (c : Cursor) : Except Trouble (String × Cursor) :=
  if c.peek != '!' then .error .malformed
  else if c.peek 1 == ' ' then .ok ("!", c.advance)
  else
    let (run, after) := c.advance.span isNameChar
    if after.peek != '!' then .error .malformed
    else .ok (String.ofList ('!' :: run ++ ['!']), after.advance)

/-- A character that may stand raw in a tag. -/
def isTagChar (c : Char) : Bool :=
  c.isAlphanum || "-;/?:@&=+$,_.!~*'()[]".toList.contains c

/-- The bytes of percent escapes. -/
def percentBytes : Nat → Cursor → Except Trouble (List UInt8 × Cursor)
  | 0, c => .ok ([], c)
  | fuel + 1, c =>
    if c.peek != '%' then .ok ([], c)
    else
      let digits := c.advance.ahead 2
      if digits.length < 2 || !digits.all isHex then .error .malformed
      else do
        let (bytes, c) ← percentBytes fuel (c.forward 3)
        return (UInt8.ofNat (hexNumber digits) :: bytes, c)

/-- The characters of a tag after its handle. -/
def tagChars : Nat → Cursor → Except Trouble (List Char × Cursor)
  | 0, c => .ok ([], c)
  | fuel + 1, c => do
    let (run, c) := c.span isTagChar
    if c.peek == '%' then
      let (bytes, c) ← percentBytes c.left.succ c
      match String.fromUTF8? ⟨bytes.toArray⟩ with
      | none => throw .malformed
      | some s =>
        let (rest, c) ← tagChars fuel c
        return (run ++ s.toList ++ rest, c)
    else return (run, c)

/-- The part of a tag after its handle; it must not be empty. -/
def tagSuffix (c : Cursor) : Except Trouble (String × Cursor) := do
  let (cs, c) ← tagChars c.left.succ c
  if cs.isEmpty then throw .malformed
  return (String.ofList cs, c)

/-- Passes if a tag or the like ends here. -/
def endsHere (c : Cursor) : Except Trouble Unit :=
  if isGapOrStop c.peek then .ok () else .error .malformed

/-- A directive; the cursor stands on its percent sign. -/
def directive (c : Cursor) : Except Trouble (Token × Cursor) := do
  let (word, c) ← name c.advance
  endsHere c
  if word = "YAML" then
    let (major, c) ← versionNumber c.skipBlanks
    if c.peek != '.' then throw .malformed
    let (_, c) ← versionNumber c.advance
    endsHere c
    return (.versionDirective major, ← c.endLine)
  else if word = "TAG" then
    let (handle, c) ← tagHandle c.skipBlanks
    if c.peek != ' ' then throw .malformed
    let (lead, c) ← tagSuffix c.skipBlanks
    endsHere c
    return (.tagDirective handle lead, ← c.endLine)
  else
    return (.otherDirective, ← (c.skip fun ch => !isLineStop ch).endLine)

/-- A name after an anchor or alias sign. -/
def reference (c : Cursor) : Except Trouble (String × Cursor) := do
  let (word, c) ← name c.advance
  if isSpaceOrStop c.peek || "?:,]\x7d%@\x60".toList.contains c.peek then return (word, c)
  else throw .malformed

/-- A tag; the cursor stands on its exclamation mark. -/
def tag (c : Cursor) : Except Trouble (Token × Cursor) := do
  let next := c.peek 1
  if next == '<' then
    let (suffix, c) ← tagSuffix (c.forward 2)
    if c.peek != '>' then throw .malformed
    endsHere c.advance
    return (.tag none suffix, c.advance)
  else if isSpaceOrStop next then
    endsHere c.advance
    return (.tag none "!", c.advance)
  else
    let ahead := c.advance.rest.takeWhile fun ch => !isGapOrStop ch
    let (handle, c) ← if ahead.contains '!' then tagHandle c else pure ("!", c.advance)
    let (suffix, c) ← tagSuffix c
    endsHere c
    return (.tag (some handle) suffix, c)

/-- Whether a plain scalar can start here. -/
def plainStarts (l : Lexer) : Bool :=
  let ch := l.cursor.peek
  let next := l.cursor.peek 1
  (!isSpaceOrStop ch && !("-?:,[]\x7b\x7d#&*!|>'\"%@\x60".toList.contains ch))
    || (!isSpaceOrStop next && (ch == '-' || (!l.inFlow && (ch == '?' || ch == ':'))))

/-- A sign that separates documents. -/
def documentSign (l : Lexer) (t : Token) : Except Trouble Lexer := do
  let l ← (l.unwind (-1)).dropKey
  return { l.emitOver 3 t with keyAllowed := false }

/-- An opening bracket. -/
def openBracket (l : Lexer) (t : Token) : Except Trouble Lexer := do
  let l ← l.markKey
  return { l.emitOver 1 t with flowLevel := l.flowLevel + 1, keyAllowed := true }

/-- A closing bracket. -/
def closeBracket (l : Lexer) (t : Token) : Except Trouble Lexer := do
  let l ← l.dropKey
  return { l.emitOver 1 t with flowLevel := l.flowLevel - 1, keyAllowed := false }

/-- Opens a block here if this is deeper than the block under way. -/
def openBlockHere (l : Lexer) (t : Token) : Except Trouble Lexer :=
  if l.inFlow then .ok l
  else if !l.keyAllowed then .error .malformed
  else
    let (opened, l) := l.openBlock l.cursor.column
    .ok (if opened then l.emit t else l)

/-- The dash of a list entry. -/
def blockEntry (l : Lexer) : Except Trouble Lexer := do
  let l ← l.openBlockHere .blockSequence
  let l ← l.dropKey
  return { l.emitOver 1 .entry with keyAllowed := true }

/-- The question mark of a key. -/
def explicitKey (l : Lexer) : Except Trouble Lexer := do
  let l ← l.openBlockHere .blockMapping
  let l ← l.dropKey
  return { l.emitOver 1 .key with keyAllowed := !l.inFlow }

/-- The colon of a value. The mark of the current level, if there is one, becomes a key. -/
def colon (l : Lexer) : Except Trouble Lexer :=
  match l.keys.lookup l.flowLevel with
  | some k =>
    let l := { l with keys := l.keys.filter (·.1 != l.flowLevel) }
    let l := { l with tokens := l.tokens.insertIdxIfInBounds k.token .key }
    let (opened, l) := if l.inFlow then (false, l) else l.openBlock k.column
    let l := if opened then
        { l with tokens := l.tokens.insertIdxIfInBounds k.token .blockMapping } else l
    .ok { l.emitOver 1 .value with keyAllowed := false }
  | none => do
    let l ← l.openBlockHere .blockMapping
    let l ← l.dropKey
    return { l.emitOver 1 .value with keyAllowed := !l.inFlow }

/-- A token that may be a key, read by `read`. -/
def node (l : Lexer) (read : Cursor → Except Trouble (Token × Cursor)) : Except Trouble Lexer := do
  let l ← l.markKey
  let (t, c) ← read l.cursor
  return { l.emit t with cursor := c, keyAllowed := false }

/-- A block scalar. -/
def blockScalar (l : Lexer) (folded : Bool) : Except Trouble Lexer := do
  let l ← l.dropKey
  let (text, c) ← blockText folded l.indent l.cursor.advance
  return { l.emit (.scalar (String.ofList text) false) with cursor := c, keyAllowed := true }

/-- A plain scalar. -/
def plainScalar (l : Lexer) : Except Trouble Lexer := do
  let l ← l.markKey
  let (text, broken, c) :=
    plainText l.inFlow l.indent [] false l.cursor.left.succ l.cursor
  return { l.emit (.scalar (String.ofList text) true) with cursor := c, keyAllowed := broken }

/-- The next token, at the place where it stands. -/
def token (l : Lexer) : Except Trouble Lexer :=
  let c := l.cursor
  let ch := c.peek
  let next := c.peek 1
  if ch == '%' && c.column == 0 then do
    let l ← (l.unwind (-1)).dropKey
    let (t, c) ← directive l.cursor
    return { l.emit t with cursor := c, keyAllowed := false }
  else if c.column == 0 && c.atSeparator then
    l.documentSign (if ch == '-' then .documentStart else .documentEnd)
  else match ch with
  | '[' => l.openBracket .flowSequence
  | '{' => l.openBracket .flowMapping
  | ']' => l.closeBracket .flowSequenceEnd
  | '}' => l.closeBracket .flowMappingEnd
  | ',' => do
    let l ← l.dropKey
    return { l.emitOver 1 .flowEntry with keyAllowed := true }
  | '*' => l.node fun c => do
    let (word, c) ← reference c
    return (.aliasOf word, c)
  | '&' => l.node fun c => do
    let (word, c) ← reference c
    return (.anchor word, c)
  | '!' => l.node tag
  | '\'' => l.node fun c => do
    let (text, c) ← quotedText false c.advance
    return (.scalar (String.ofList text) false, c)
  | '"' => l.node fun c => do
    let (text, c) ← quotedText true c.advance
    return (.scalar (String.ofList text) false, c)
  | _ =>
    if ch == '-' && isSpaceOrStop next then l.blockEntry
    else if ch == '?' && (l.inFlow || isSpaceOrStop next) then l.explicitKey
    else if ch == ':' && (l.inFlow || isSpaceOrStop next) then l.colon
    else if ch == '|' && !l.inFlow then l.blockScalar false
    else if ch == '>' && !l.inFlow then l.blockScalar true
    else if l.plainStarts then l.plainScalar
    else .error .malformed

/-- Reads tokens to the end of the text. -/
def tokensFrom : Nat → Lexer → Except Trouble (Array Token)
  | 0, _ => .error .malformed
  | fuel + 1, l => do
    let l ← (l.toNext l.cursor.left.succ).dropStaleKeys
    let l := l.unwind l.cursor.column
    if l.cursor.atEnd then
      let l ← (l.unwind (-1)).dropKey
      return l.tokens
    else tokensFrom fuel (← l.token)

end Lexer

/-- A character that a text may hold. -/
def isTextChar (c : Char) : Bool :=
  let n := c.toNat
  n == 9 || n == 10 || n == 13 || n == 133 || (32 ≤ n && n ≤ 126) || (160 ≤ n && n ≤ 0xd7ff)
    || (0xe000 ≤ n && n ≤ 0xfffd) || 0x10000 ≤ n

/-- The tokens of a text. A byte order mark at its start counts as nothing. -/
def tokens (text : List Char) : Except Trouble (Array Token) :=
  if !text.all isTextChar then .error .malformed
  else
    let c := Cursor.start text
    let c := if c.peek == '\ufeff' then c.advance else c
    Lexer.tokensFrom (text.length + 2) { cursor := c }

end Yaml
end ApiScribe
