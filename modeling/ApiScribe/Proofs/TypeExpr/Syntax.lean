/-! Type expressions as trees. A type is a name with arguments, an object type, or a union or an
intersection of other types. Unions of unions and intersections of intersections are flattened when
they are built, and a combination of one type is that type. -/
namespace ApiScribe

/-- A key of an object type. -/
structure TypeKey where
  name : String
  optional : Bool
  deriving Repr, DecidableEq

/-- Type expressions. An array is the application of `Array`, a bare name one without arguments. -/
inductive TypeExpr
  | apply (head : String) (args : List TypeExpr)
  | object (fields : List (TypeKey × TypeExpr))
  | union (alternatives : List TypeExpr)
  | inter (members : List TypeExpr)
  deriving Repr, Inhabited

namespace TypeExpr

def named (s : String) : TypeExpr := .apply s []

def array (item : TypeExpr) : TypeExpr := .apply "Array" [item]

def record (value : TypeExpr) : TypeExpr := .apply "Record" [named "string", value]

def unknown : TypeExpr := named "unknown"

mutual

/-- Whether two types are the same expression. -/
def same : TypeExpr → TypeExpr → Bool
  | .apply h ts, .apply h' ts' => h == h' && sameAll ts ts'
  | .object fs, .object fs' => sameFields fs fs'
  | .union ts, .union ts' => sameAll ts ts'
  | .inter ts, .inter ts' => sameAll ts ts'
  | _, _ => false

def sameAll : List TypeExpr → List TypeExpr → Bool
  | [], [] => true
  | t :: ts, t' :: ts' => same t t' && sameAll ts ts'
  | _, _ => false

def sameFields : List (TypeKey × TypeExpr) → List (TypeKey × TypeExpr) → Bool
  | [], [] => true
  | (k, t) :: fs, (k', t') :: fs' => k == k' && same t t' && sameFields fs fs'
  | _, _ => false

end

mutual

theorem same_iff : ∀ t u : TypeExpr, same t u = true ↔ t = u
  | .apply h ts, u => by cases u <;> simp [same, sameAll_iff ts]
  | .object fs, u => by cases u <;> simp [same, sameFields_iff fs]
  | .union ts, u => by cases u <;> simp [same, sameAll_iff ts]
  | .inter ts, u => by cases u <;> simp [same, sameAll_iff ts]

theorem sameAll_iff : ∀ ts us : List TypeExpr, sameAll ts us = true ↔ ts = us
  | [], us => by cases us <;> simp [sameAll]
  | t :: ts, us => by cases us <;> simp [sameAll, same_iff t, sameAll_iff ts]

theorem sameFields_iff : ∀ fs gs : List (TypeKey × TypeExpr), sameFields fs gs = true ↔ fs = gs
  | [], gs => by cases gs <;> simp [sameFields]
  | (k, t) :: fs, gs => by
    cases gs with
    | nil => simp [sameFields]
    | cons g gs =>
      obtain ⟨k', t'⟩ := g
      simp [sameFields, same_iff t, sameFields_iff fs, and_assoc]

end

instance : DecidableEq TypeExpr := fun t u => decidable_of_iff (same t u = true) (same_iff t u)

def isUnion : TypeExpr → Bool
  | .union _ => true
  | _ => false

def isInter : TypeExpr → Bool
  | .inter _ => true
  | _ => false

/-- The alternatives that a type offers. -/
def alternatives : TypeExpr → List TypeExpr
  | .union ts => ts
  | t => [t]

/-- The members that a type joins. -/
def members : TypeExpr → List TypeExpr
  | .inter ts => ts
  | t => [t]

/-- The union of types, flattened. -/
def unionOf (ts : List TypeExpr) : TypeExpr :=
  match ts.flatMap alternatives with
  | [t] => t
  | ts => .union ts

/-- The intersection of types, flattened. -/
def interOf (ts : List TypeExpr) : TypeExpr :=
  match ts.flatMap members with
  | [t] => t
  | ts => .inter ts

theorem alternatives_of_not_isUnion {t : TypeExpr} (h : t.isUnion = false) :
    t.alternatives = [t] := by
  cases t <;> first | rfl | cases h

theorem members_of_not_isInter {t : TypeExpr} (h : t.isInter = false) : t.members = [t] := by
  cases t <;> first | rfl | cases h

theorem flatMap_alternatives_of_not_isUnion {ts : List TypeExpr}
    (h : ∀ t ∈ ts, t.isUnion = false) : ts.flatMap alternatives = ts := by
  induction ts with
  | nil => rfl
  | cons t ts ih =>
    rw [List.flatMap_cons, alternatives_of_not_isUnion (h t List.mem_cons_self),
      ih fun u hu => h u (List.mem_cons_of_mem t hu)]
    rfl

theorem flatMap_members_of_not_isInter {ts : List TypeExpr}
    (h : ∀ t ∈ ts, t.isInter = false) : ts.flatMap members = ts := by
  induction ts with
  | nil => rfl
  | cons t ts ih =>
    rw [List.flatMap_cons, members_of_not_isInter (h t List.mem_cons_self),
      ih fun u hu => h u (List.mem_cons_of_mem t hu)]
    rfl

@[simp] theorem unionOf_singleton (t : TypeExpr) (h : t.isUnion = false) : unionOf [t] = t := by
  simp [unionOf, alternatives_of_not_isUnion h]

@[simp] theorem interOf_singleton (t : TypeExpr) (h : t.isInter = false) : interOf [t] = t := by
  simp [interOf, members_of_not_isInter h]

/-- No intersection in the type has a union for a member, so the type can be written without
parentheses. -/
inductive IsFlat : TypeExpr → Prop
  | apply {head : String} {args : List TypeExpr} (h : ∀ t ∈ args, IsFlat t) :
      IsFlat (.apply head args)
  | object {fields : List (TypeKey × TypeExpr)} (h : ∀ f ∈ fields, IsFlat f.2) :
      IsFlat (.object fields)
  | union {ts : List TypeExpr} (h : ∀ t ∈ ts, IsFlat t) : IsFlat (.union ts)
  | inter {ts : List TypeExpr} (h : ∀ t ∈ ts, IsFlat t) (hu : ∀ t ∈ ts, t.isUnion = false) :
      IsFlat (.inter ts)

end TypeExpr
end ApiScribe

/-! Reading type expressions. A text is cut into tokens, and the tokens are taken one by one. Empty
brackets take the type right before them, an ampersand ends a member of an intersection, and a bar
ends an alternative of a union with all its members; so brackets bind tightest, then ampersands,
then bars. -/
namespace ApiScribe
namespace TypeExpr

/-- The tokens of type expressions. What is no part of one is stray. -/
inductive Token
  | word (s : String)
  | brackets
  | amp
  | bar
  | less
  | greater
  | comma
  | openBrace
  | closeBrace
  | question
  | colon
  | semi
  | openParen
  | closeParen
  | stray (c : Char)
  deriving Repr, DecidableEq

/-- A character that starts a name. -/
def isNameStart (c : Char) : Bool := c.isAlpha || c == '_' || c == '$'

/-- A character inside a name. -/
def isNameChar (c : Char) : Bool := c.isAlphanum || c == '_' || c == '$'

/-- Whether a text is a name. -/
def isIdentifier (s : String) : Bool :=
  match s.toList with
  | c :: cs => isNameStart c && cs.all isNameChar
  | [] => false

namespace Token

/-- The tokens that a word under way makes when it ends; `word` holds its characters, last
first. -/
def ofWord (word : List Char) : List Token :=
  if word.isEmpty then [] else [.word (String.ofList word.reverse)]

/-- The tokens of a character that is no part of a name. -/
def ofChar : Char → List Token
  | ' ' => []
  | '&' => [amp]
  | '|' => [bar]
  | '<' => [less]
  | '>' => [greater]
  | ',' => [comma]
  | '\x7b' => [openBrace]
  | '\x7d' => [closeBrace]
  | '?' => [question]
  | ':' => [colon]
  | ';' => [semi]
  | '(' => [openParen]
  | ')' => [closeParen]
  | c => [stray c]

/-- The tokens of a text behind a word under way. -/
def ofCharsFrom (word : List Char) : List Char → List Token
  | [] => ofWord word
  | '[' :: ']' :: cs => ofWord word ++ brackets :: ofCharsFrom [] cs
  | c :: cs =>
    if isNameChar c then ofCharsFrom (c :: word) cs
    else ofWord word ++ ofChar c ++ ofCharsFrom [] cs

/-- The tokens of a text. -/
def ofChars (cs : List Char) : List Token := ofCharsFrom [] cs

end Token

/-- What was read of a type: the alternatives before the last bar, the members after it, and the
type after the last ampersand. -/
structure Level where
  alternatives : List TypeExpr := []
  members : List TypeExpr := []
  operand : Option TypeExpr := none
  deriving Repr

namespace Level

/-- The members since the last bar as one alternative. -/
def alternative (l : Level) (t : TypeExpr) : TypeExpr := interOf (l.members ++ [t])

/-- All that was read as one type. -/
def close (l : Level) : Option TypeExpr :=
  l.operand.map fun t => unionOf (l.alternatives ++ [l.alternative t])

end Level

/-- A bracket that is open, with what was read before it. -/
inductive Frame
  | group (outer : Level)
  | arguments (head : String) (args : List TypeExpr) (outer : Level)
  | field (fields : List (TypeKey × TypeExpr)) (key : TypeKey) (outer : Level)
  deriving Repr

/-- How far reading is, with the open brackets, innermost first: inside a type, or at the key of an
object type, or behind it. -/
inductive State
  | type (level : Level) (stack : List Frame)
  | key (fields : List (TypeKey × TypeExpr)) (outer : Level) (stack : List Frame)
  | mark (fields : List (TypeKey × TypeExpr)) (key : TypeKey) (outer : Level)
      (stack : List Frame)
  deriving Repr

namespace State

/-- The end of the innermost bracket, inside which a type was read. -/
def closeFrame (t : TypeExpr) (stack : List Frame) : Token → Option State
  | .closeParen => match stack with
    | .group outer :: stack => some (.type { outer with operand := some t } stack)
    | _ => none
  | .comma => match stack with
    | .arguments head args outer :: stack =>
      some (.type {} (.arguments head (args ++ [t]) outer :: stack))
    | _ => none
  | .greater => match stack with
    | .arguments head args outer :: stack =>
      some (.type { outer with operand := some (.apply head (args ++ [t])) } stack)
    | _ => none
  | .semi => match stack with
    | .field fields k outer :: stack => some (.key (fields ++ [(k, t)]) outer stack)
    | _ => none
  | .closeBrace => match stack with
    | .field fields k outer :: stack =>
      some (.type { outer with operand := some (.object (fields ++ [(k, t)])) } stack)
    | _ => none
  | _ => none

/-- One token, read inside a type. -/
def stepType (level : Level) (stack : List Frame) (token : Token) : Option State :=
  match level.operand with
  | none => match token with
    | .word s => some (.type { level with operand := some (.named s) } stack)
    | .openParen => some (.type {} (.group level :: stack))
    | .openBrace => some (.key [] level stack)
    | _ => none
  | some t => match token with
    | .brackets => some (.type { level with operand := some (.array t) } stack)
    | .amp => some (.type { level with members := level.members ++ [t], operand := none } stack)
    | .bar =>
      some (.type ⟨level.alternatives ++ [level.alternative t], [], none⟩ stack)
    | .less => match t with
      | .apply head [] =>
        some (.type {} (.arguments head [] { level with operand := none } :: stack))
      | _ => none
    | token => level.close.bind fun t => closeFrame t stack token

/-- One token. -/
def step : State → Token → Option State
  | .type level stack, token => stepType level stack token
  | .key fields outer stack, token => match token with
    | .word s => some (.mark fields ⟨s, false⟩ outer stack)
    | .closeBrace => some (.type { outer with operand := some (.object fields) } stack)
    | _ => none
  | .mark fields k outer stack, token => match token with
    | .question => some (.mark fields { k with optional := true } outer stack)
    | .colon => some (.type {} (.field fields k outer :: stack))
    | _ => none

/-- One token after the other. -/
def run (s : State) (tokens : List Token) : Option State := tokens.foldlM step s

theorem run_append (s : State) (ts us : List Token) :
    run s (ts ++ us) = (run s ts).bind fun s => run s us := List.foldlM_append

theorem run_cons (s : State) (t : Token) (ts : List Token) :
    run s (t :: ts) = (step s t).bind fun s => run s ts := List.foldlM_cons

@[simp] theorem run_nil (s : State) : run s [] = some s := rfl

/-- The type that was read when nothing is open any more. -/
def result : State → Option TypeExpr
  | .type level [] => level.close
  | _ => none

end State

/-- The type that tokens make. -/
def ofTokens (tokens : List Token) : Option TypeExpr :=
  (State.run (.type {} []) tokens).bind State.result

/-- The type that a text is. -/
def read (s : String) : Option TypeExpr := ofTokens (Token.ofChars s.toList)

example : read "(A | B) & C[]" =
    some (.inter [.union [.named "A", .named "B"], .array (.named "C")]) := by decide +kernel

example : read "A | B & C[]" =
    some (.union [.named "A", .inter [.named "B", .array (.named "C")]]) := by decide +kernel

end TypeExpr
end ApiScribe
