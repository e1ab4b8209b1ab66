import ApiScribe.Text.Character
import ApiScribe.Text.Search

/-! Type expressions as text. Before a type is written into code it is checked: text that cannot
be a type becomes `unknown`. The names that a type mentions tell what a file has to import. -/
namespace ApiScribe
namespace TypeText

/-- The types that every file knows by a keyword. -/
def primitives : List String := ["string", "number", "boolean", "void", "object", "unknown"]

/-- The other words that need no import: common types, and keywords that stand among types. -/
def builtins : List String :=
  ["Array", "ReadonlyArray", "Record", "Partial", "Required", "Readonly", "Pick", "Omit",
   "Exclude", "Extract", "NonNullable", "ReturnType", "Parameters", "Promise", "Date", "Map",
   "Set", "Blob", "File", "FormData", "ArrayBuffer", "Uint8Array", "String", "Number", "Boolean",
   "Object", "Function", "Symbol", "any", "never", "null", "undefined", "true", "false", "bigint",
   "symbol", "keyof", "typeof", "readonly", "unique", "infer", "extends", "import", "in", "is"]

/-- Whether a text is a primitive type. -/
def isPrimitive (t : String) : Bool := primitives.contains t

/-- A character that starts a plain name. -/
def isNameStart (c : Char) : Bool := c.isAlpha || c == '_'

/-- A character inside a plain name. -/
def isNameChar (c : Char) : Bool := c.isAlphanum || c == '_'

/-- A plain name, with no line feed behind it. -/
def isName : List Char → Bool
  | c :: cs => isNameStart c && cs.all isNameChar
  | [] => false

/-- Without a line feed at the end. -/
def chomp (cs : List Char) : List Char :=
  if cs.getLast? = some '\n' then cs.dropLast else cs

/-- Whether a text is a bare name; one line feed may follow it. -/
def isIdentifier (t : String) : Bool := isName (chomp t.toList)

/-- The characters besides letters, digits and blanks that types are made of. -/
def signs : List Char := "_$<>[]\x7b\x7d()|&,:;?.'\"-".toList

/-- A character that types are made of. -/
def isTypeChar (c : Char) : Bool := c.isAlphanum || Text.isBlank c || signs.contains c

/-- The opening bracket of a closing one. -/
def opener? (c : Char) : Option Char :=
  if c = ')' then some '(' else if c = ']' then some '['
  else if c = '}' then some '{' else if c = '>' then some '<' else none

/-- Whether every bracket outside quotes is closed, given the open brackets, innermost first, and
the quote under way. -/
def isBalancedFrom (stack : List Char) (quote : Option Char) : List Char → Bool
  | [] => stack.isEmpty && quote.isNone
  | c :: cs =>
    match quote with
    | some q => isBalancedFrom stack (if c = q then none else some q) cs
    | none =>
      if c = '\'' || c = '"' then isBalancedFrom stack (some c) cs
      else if c = '(' || c = '[' || c = '{' || c = '<' then isBalancedFrom (c :: stack) none cs
      else match opener? c with
        | none => isBalancedFrom stack none cs
        | some o => match stack with
          | [] => false
          | top :: stack => top == o && isBalancedFrom stack none cs

/-- Whether brackets and quotes are balanced. -/
def isBalanced (cs : List Char) : Bool := isBalancedFrom [] none cs

/-- Whether a trimmed text that is not empty can stand as a type. -/
def isUsable (t : String) : Bool :=
  isPrimitive t || isIdentifier t || (t.toList.all isTypeChar && isBalanced t.toList)

/-- The trimmed text of a type, or `unknown` if it cannot stand as one. -/
def normalize (t : String) : String :=
  let trimmed := Text.trimmed t
  if trimmed ≠ "" && isUsable trimmed then trimmed else "unknown"

/-- A character that starts a word of a type. -/
def isWordStart (c : Char) : Bool := c.isAlpha || c == '_' || c == '$'

/-- A character inside a word of a type. -/
def isWordChar (c : Char) : Bool := c.isAlphanum || c == '_' || c == '$'

/-- What is being read: nothing in particular, a literal up to its quote, or a word, its
characters last first, with whether a point stands before it. -/
inductive Mode
  | between
  | literal (quote : Char)
  | word (chars : List Char) (dotted : Bool)

/-- Whether a colon follows, perhaps after a question mark. -/
def isKeyBefore (rest : List Char) : Bool :=
  match Text.trimStart rest with
  | ':' :: _ => true
  | '?' :: ':' :: _ => true
  | _ => false

/-- A word as a type name, if it is one: not a key, not a member, not known without import. -/
def typeName? (chars : List Char) (dotted : Bool) (rest : List Char) : List String :=
  let word := String.ofList chars.reverse
  if isKeyBefore rest || dotted || chars.contains '$' || isPrimitive word
      || builtins.contains word then []
  else [word]

/-- The type names of a text in order, where `last` is the last character before it that is not
blank. -/
def namesFrom (last : Char) (mode : Mode) : List Char → List String
  | [] => match mode with
    | .word chars dotted => typeName? chars dotted []
    | _ => []
  | c :: cs =>
    match mode with
    | .literal q => namesFrom c (if c = q then .between else .literal q) cs
    | .between =>
      if c = '\'' || c = '"' then namesFrom c (.literal c) cs
      else if isWordStart c then namesFrom c (.word [c] (last = '.')) cs
      else namesFrom (if Text.isBlank c then last else c) .between cs
    | .word chars dotted =>
      if isWordChar c then namesFrom c (.word (c :: chars) dotted) cs
      else
        let last := chars.headD last
        typeName? chars dotted (c :: cs)
          ++ namesFrom (if Text.isBlank c then last else c)
              (if c = '\'' || c = '"' then .literal c else .between) cs

/-- The type names that a type mentions, each once, in order. -/
def names (t : String) : List String := (namesFrom ' ' .between t.toList).eraseDups

/-- The type names that types mention, each once, in order. -/
def allNames (types : List String) : List String := (types.flatMap names).eraseDups

/-- One import line. -/
def importLine (name source : String) : String :=
  "import type \x7b " ++ name ++ " \x7d from \"" ++ source ++ "\";"

/-- One import line for every name that types mention. Names come from a package as a whole, or
each from a file of its own below a directory. -/
def importLines (types : List String) (base : String) (package : Bool) : List String :=
  (allNames types).map fun n => importLine n (if package then base else base ++ "/" ++ n)

end TypeText
end ApiScribe
