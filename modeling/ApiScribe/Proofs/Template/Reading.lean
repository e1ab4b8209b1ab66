import Mathlib.Data.List.Basic
import ApiScribe.Proofs.Json.Quoted

/-! Template literals and what they stand for. A literal between backquotes is read as 16-bit units
and expressions; its value is the units and the values of the expressions in one row. -/
namespace ApiScribe
namespace Template

/-- The 16-bit units of a code point. -/
def units (n : Nat) : List UInt16 :=
  if n < 65536 then [n.toUInt16]
  else [(55296 + (n - 65536) / 1024).toUInt16, (56320 + (n - 65536) % 1024).toUInt16]

/-- The units of a character. -/
def charUnits (c : Char) : List UInt16 := units c.toNat

/-- A part of a literal. -/
inductive Part
  | unit (u : UInt16)
  | expression (text : List Char)
  deriving Repr, DecidableEq

/-- What is being read: plain text, perhaps behind a dollar sign or a line end that may have a
second character, some part of an escape, or an expression with its text so far, the open braces
in it, and the quote under way. -/
inductive Mode
  | text
  | dollar
  | lineEnd
  | escape
  | zero
  | digits (left value : Nat)
  | codeUnit
  | codePoint (value : Option Nat)
  | expression (text : List Char) (depth : Nat) (quote : Option Char) (escaped : Bool)
  | closed
  deriving Repr, DecidableEq

/-- A character that stands for itself. -/
def raw (c : Char) : List Part := (charUnits c).map .unit

/-- A character of plain text. Line ends of every kind are line feeds. -/
def textStep : Char → List Part × Mode
  | '\x60' => ([], .closed)
  | '\\' => ([], .escape)
  | '$' => ([], .dollar)
  | '\r' => ([.unit 10], .lineEnd)
  | c => (raw c, .text)

/-- The character behind a backslash. A line end stands for nothing there. -/
def escapeStep : Char → Option (List Part × Mode)
  | '\n' => some ([], .text)
  | '\u2028' => some ([], .text)
  | '\u2029' => some ([], .text)
  | '\r' => some ([], .lineEnd)
  | 'b' => some ([.unit 8], .text)
  | 't' => some ([.unit 9], .text)
  | 'n' => some ([.unit 10], .text)
  | 'v' => some ([.unit 11], .text)
  | 'f' => some ([.unit 12], .text)
  | 'r' => some ([.unit 13], .text)
  | '0' => some ([.unit 0], .zero)
  | 'x' => some ([], .digits 2 0)
  | 'u' => some ([], .codeUnit)
  | c => if c.isDigit then none else some (raw c, .text)

/-- A digit of an escape with a known number of them. -/
def digitStep (left value digit : Nat) : List Part × Mode :=
  let value := 16 * value + digit
  if left = 1 then ([.unit value.toUInt16], .text) else ([], .digits (left - 1) value)

/-- A digit of a code point. -/
def pointStep (value : Option Nat) (digit : Nat) : Option (List Part × Mode) :=
  let value := 16 * value.getD 0 + digit
  if value ≤ 0x10ffff then some ([], .codePoint (some value)) else none

/-- A character of an expression, which ends at the brace that closes it. -/
def expressionStep (text : List Char) (depth : Nat) (quote : Option Char) (escaped : Bool)
    (c : Char) : List Part × Mode :=
  let longer := text ++ [c]
  match quote with
  | some q =>
    if escaped then ([], .expression longer depth quote false)
    else if c = '\\' then ([], .expression longer depth quote true)
    else ([], .expression longer depth (if c = q then none else quote) false)
  | none =>
    if c = '}' then
      match depth with
      | 0 => ([.expression text], .text)
      | depth + 1 => ([], .expression longer depth none false)
    else if c = '{' then ([], .expression longer (depth + 1) none false)
    else ([], .expression longer depth (if c = '"' ∨ c = '\'' then some c else none) false)

/-- Reads one character: the parts that are read with it, and what is read next. -/
def step : Mode → Char → Option (List Part × Mode)
  | .text, c => some (textStep c)
  | .dollar, c =>
    if c = '{' then some ([], .expression [] 0 none false)
    else some (.unit 36 :: (textStep c).1, (textStep c).2)
  | .lineEnd, c => if c = '\n' then some ([], .text) else some (textStep c)
  | .escape, c => escapeStep c
  | .zero, c => if c.isDigit then none else some (textStep c)
  | .digits left value, c => (Json.hexValue? c).map (digitStep left value)
  | .codeUnit, c =>
    if c = '{' then some ([], .codePoint none) else (Json.hexValue? c).map (digitStep 4 0)
  | .codePoint value, c =>
    if c = '}' then value.map fun n => ((units n).map .unit, .text)
    else (Json.hexValue? c).bind (pointStep value)
  | .expression text depth quote escaped, c => some (expressionStep text depth quote escaped c)
  | .closed, _ => none

/-- Reads the parts of a literal up to its end. -/
def read : Mode → List Char → Option (List Part)
  | mode, [] => if mode = .closed then some [] else none
  | mode, c :: cs => (step mode c).bind fun s => (read s.2 cs).map (s.1 ++ ·)

/-- The parts of a text that is one literal. -/
def parts? (literal : String) : Option (List Part) :=
  match literal.toList with
  | '\x60' :: cs => read .text cs
  | _ => none

/-- The value of parts, given the values of expressions. -/
def evaluateParts (value : List Char → Option (List UInt16)) : List Part → Option (List UInt16)
  | [] => some []
  | .unit u :: ps => (evaluateParts value ps).map (u :: ·)
  | .expression text :: ps =>
    (value text).bind fun us => (evaluateParts value ps).map (us ++ ·)

/-- The value of a literal, given the values of expressions. -/
def evaluate (value : List Char → Option (List UInt16)) (literal : String) :
    Option (List UInt16) :=
  (parts? literal).bind (evaluateParts value)

theorem read_cons_eq_some {m : Mode} {c : Char} {cs : List Char} {out : List Part}
    (h : read m (c :: cs) = some out) :
    ∃ s rest, step m c = some s ∧ read s.2 cs = some rest ∧ out = s.1 ++ rest := by
  rw [read] at h
  · obtain ⟨s, hs, h⟩ := Option.bind_eq_some_iff.1 h
    obtain ⟨rest, hrest, rfl⟩ := Option.map_eq_some_iff.1 h
    exact ⟨s, rest, hs, hrest, rfl⟩

/-- A character that is not special in a literal is read as itself. -/
theorem read_text_cons {c : Char} (h : c ∉ ['\x60', '\\', '$', '\r']) (cs : List Char) :
    read .text (c :: cs) = (read .text cs).map (raw c ++ ·) := by
  have hstep : textStep c = (raw c, .text) := by
    unfold textStep
    split <;> simp_all
  rw [read, step, hstep, Option.bind_some]

theorem read_backquote (cs : List Char) :
    read .text ('\\' :: '\x60' :: cs) = (read .text cs).map (raw '\x60' ++ ·) := by
  show ((read .text cs).map (raw '\x60' ++ ·)).map id = _
  exact congrFun Option.map_id _

theorem read_backslash (cs : List Char) : read .text ('\\' :: cs) = read .escape cs := by
  show (read .escape cs).map id = _
  rw [Option.map_id, id]

theorem read_dollar (cs : List Char) : read .text ('$' :: cs) = read .dollar cs := by
  show (read .dollar cs).map id = _
  rw [Option.map_id, id]

/-- A dollar sign in front of anything but a brace is read as itself. -/
theorem read_dollar_cons {c : Char} (h : c ≠ '{') (cs : List Char) :
    read .dollar (c :: cs) = (read .text (c :: cs)).map (raw '$' ++ ·) := by
  have hraw : raw '$' = [.unit 36] := by decide
  simp only [read, step, if_neg h, Option.bind_some, Option.map_map, hraw]
  rfl

theorem read_dollar_brace (cs : List Char) :
    read .text ('$' :: '{' :: cs) = read (.expression [] 0 none false) cs := by
  show ((read (.expression [] 0 none false) cs).map id).map id = _
  rw [Option.map_id, id, id]

/-- One character of an expression makes it longer, or is the brace that ends it. -/
theorem expressionStep_cases (text : List Char) (depth : Nat) (quote : Option Char)
    (escaped : Bool) (c : Char) :
    c = '}' ∧ expressionStep text depth quote escaped c = ([.expression text], .text) ∨
      ∃ depth' quote' escaped', expressionStep text depth quote escaped c =
        ([], .expression (text ++ [c]) depth' quote' escaped') := by
  unfold expressionStep
  dsimp only
  repeat' split
  all_goals first
  | exact .inr ⟨_, _, _, rfl⟩
  | exact .inl ⟨by assumption, rfl⟩

/-- An expression under way is the first part that is read. -/
theorem head_read_expression {text : List Char} {depth : Nat} {quote : Option Char}
    {escaped : Bool} {cs : List Char} {out : List Part}
    (h : read (.expression text depth quote escaped) cs = some out) :
    ∃ more rest, out = .expression (text ++ more) :: rest := by
  induction cs generalizing text depth quote escaped out with
  | nil => cases h
  | cons c cs ih =>
    obtain ⟨s, tail, hs, htail, rfl⟩ := read_cons_eq_some h
    cases hs
    rcases expressionStep_cases text depth quote escaped c with ⟨-, hend⟩ | ⟨_, _, _, hlonger⟩
    · exact ⟨[], tail, by rw [hend, List.append_nil]; rfl⟩
    · rw [hlonger] at htail
      obtain ⟨more, rest, rfl⟩ := ih htail
      exact ⟨c :: more, rest, by rw [hlonger]; simp⟩

/-- A character that is read as a part of an expression stands in the expression. -/
theorem mem_expression_of_read {text : List Char} {depth : Nat} {quote : Option Char}
    {escaped : Bool} {c : Char} {cs : List Char} {out : List Part} (hc : c ≠ '}')
    (h : read (.expression text depth quote escaped) (c :: cs) = some out) :
    ∃ t, .expression t ∈ out ∧ c ∈ t := by
  obtain ⟨s, tail, hs, htail, rfl⟩ := read_cons_eq_some h
  cases hs
  rcases expressionStep_cases text depth quote escaped c with ⟨hend, -⟩ | ⟨_, _, _, hlonger⟩
  · exact absurd hend hc
  · rw [hlonger] at htail ⊢
    obtain ⟨more, rest, rfl⟩ := head_read_expression htail
    exact ⟨_, List.mem_cons_self, by simp⟩

theorem read_expression_cons {text : List Char} {depth depth' : Nat}
    {quote quote' : Option Char} {escaped escaped' : Bool} {c : Char}
    (h : expressionStep text depth quote escaped c =
      ([], .expression (text ++ [c]) depth' quote' escaped')) (cs : List Char) :
    read (.expression text depth quote escaped) (c :: cs) =
      read (.expression (text ++ [c]) depth' quote' escaped') cs := by
  show ((read (expressionStep text depth quote escaped c).2 cs).map _) = _
  rw [h]
  exact congrFun Option.map_id _

/-- A text that makes an expression under way longer, and leaves it inside or outside the quote
where it stands. -/
def Stays (quote : Option Char) (cs : List Char) : Prop :=
  ∀ text rest, read (.expression text 0 quote false) (cs ++ rest) =
    read (.expression (text ++ cs) 0 quote false) rest

theorem stays_nil (quote : Option Char) : Stays quote [] := by
  intro text rest
  rw [List.append_nil, List.nil_append]

theorem Stays.append {quote : Option Char} {cs ds : List Char} (hc : Stays quote cs)
    (hd : Stays quote ds) : Stays quote (cs ++ ds) := by
  intro text rest
  rw [List.append_assoc, hc, hd, List.append_assoc]

theorem Stays.flatMap {quote : Option Char} {cs : List Char} {f : Char → List Char}
    (h : ∀ c ∈ cs, Stays quote (f c)) : Stays quote (cs.flatMap f) := by
  induction cs with
  | nil => exact stays_nil quote
  | cons c cs ih =>
    obtain ⟨hc, hcs⟩ := List.forall_mem_cons.1 h
    exact hc.append (ih hcs)

/-- Outside quotes all characters but quotes and braces stay. -/
theorem stays_none {cs : List Char} (h : cs.all (· ∉ ['{', '}', '"', '\'']) = true) :
    Stays none cs := by
  have hchar : ∀ c ∈ cs, Stays none [c] := by
    intro c hc text rest
    have hplain := of_decide_eq_true (List.all_eq_true.1 h c hc)
    refine read_expression_cons ?_ rest
    unfold expressionStep
    simp_all
  have hstays := Stays.flatMap hchar
  rwa [List.flatMap_singleton'] at hstays

/-- Inside a quote all characters but the quote and the backslash stay. -/
theorem stays_quote {c : Char} (h : c ∉ ['"', '\\']) : Stays (some '"') [c] := by
  intro text rest
  refine read_expression_cons ?_ rest
  unfold expressionStep
  simp_all

/-- Inside a quote a backslash and a character behind it stay. -/
theorem stays_escape (c : Char) : Stays (some '"') ['\\', c] := by
  intro text rest
  have hbackslash : expressionStep text 0 (some '"') false '\\' =
      ([], .expression (text ++ ['\\']) 0 (some '"') true) := rfl
  have hc : expressionStep (text ++ ['\\']) 0 (some '"') true c =
      ([], .expression (text ++ ['\\'] ++ [c]) 0 (some '"') false) := rfl
  show read _ ('\\' :: c :: rest) = _
  rw [read_expression_cons hbackslash, read_expression_cons hc, List.append_assoc]
  rfl

theorem stays_inside {cs : List Char} (h : Json.Inside cs) : Stays (some '"') cs := by
  induction h with
  | nil => exact stays_nil _
  | char hc _ ih => exact (stays_quote hc).append ih
  | escape c _ ih => exact (stays_escape c).append ih

/-- A quoted text leaves an expression outside quotes. -/
theorem stays_quoted (s : String) : Stays none (Json.quoted s).toList := by
  intro text rest
  have hopen : expressionStep text 0 none false '"' =
      ([], .expression (text ++ ['"']) 0 (some '"') false) := by simp [expressionStep]
  have hclose (t : List Char) : expressionStep t 0 (some '"') false '"' =
      ([], .expression (t ++ ['"']) 0 none false) := by simp [expressionStep]
  obtain ⟨cs, hcs, hquoted⟩ := Json.exists_inside_quoted s
  rw [hquoted, List.cons_append, List.append_assoc, read_expression_cons hopen,
    stays_inside hcs, List.singleton_append, read_expression_cons (hclose _)]
  simp

/-- A substitution is read as its expression. -/
theorem read_substitution {cs : List Char} (h : Stays none cs) (rest : List Char) :
    read .text ('$' :: '{' :: (cs ++ '}' :: rest)) =
      (read .text rest).map (.expression cs :: ·) := by
  rw [read_dollar_brace, h]
  rfl

end Template
end ApiScribe
