import ApiScribe.Proofs.Json.Quoted
import ApiScribe.Proofs.TypeText.Nesting

/-! Generated code, read for where it uses the argument of a function. The reader goes through a text
once, with the places that it is in on a stack, and tells expressions from types, comments, literals
and the heads of functions, classes and imports. It fails where the argument stands in an expression
and the function around declares no parameter of that name.

Code is read in the form in which it is generated: blanks stand behind the words for functions,
classes and imports, a brace in the type of a result stands in angle brackets, and no expression
compares with the sign that opens a list of types. -/
namespace ApiScribe
namespace Code

open TypeText (isWordChar)

/-- What is being read: an expression in brackets, in the body of a function or in a substitution;
a word, its characters last first, or what stands before and between words; a comment; a literal; a
type; the head of a function up to its body, a class, or an import. -/
inductive Place
  | bracket (close : Char)
  | body (declares : Bool)
  | substitution
  | word (chars : List Char) (isMember : Bool)
  | dot (spread : Bool)
  | slash
  | remark
  | comment (star : Bool)
  | literal (quote : Char) (escaped : Bool)
  | template
  | escape
  | dollar
  | type (close : Char)
  | head
  | parameters (name : Option (List Char)) (declares : Bool)
  | result (declares : Bool)
  | classHead
  | members
  | imports
  deriving Repr, DecidableEq

/-- The name of the argument. -/
def argument : List Char := "input".toList

/-- The words that other text than expressions follows, and what it is. -/
def keyword? (word : List Char) : Option Place :=
  if word = "function".toList then some .head
  else if word = "class".toList then some .classHead
  else if word = "import".toList then some .imports
  else none

/-- Whether the function around a place declares the argument. -/
def declared : List Place → Bool
  | [] => false
  | .body declares :: _ => declares
  | _ :: outer => declared outer

/-- The bracket that closes an opening one. -/
def closing? (c : Char) : Option Char := (TypeText.pairs.find? (·.1 == c)).map (·.2)

/-- Whether a character closes a place. -/
def Place.closes (c : Char) : Place → Bool
  | .bracket close => c == close
  | .body _ => c == '}'
  | .substitution => c == '}'
  | _ => false

/-- One character of a statement or an expression, or of the members of a class. -/
def start (places : List Place) (c : Char) : List Place :=
  if c = '/' then .slash :: places
  else if places.head? = some .members then
    if c = '(' then .parameters (some []) false :: places
    else if c = '}' then places.tail else places
  else if isWordChar c then .word [c] false :: places
  else if places.head?.any (·.closes c) then places.tail
  else if c = '.' then .dot false :: places
  else if c = '"' || c = '\'' then .literal c false :: places
  else if c = '\x60' then .template :: places
  else if c = '<' then .type '>' :: places
  else match closing? c with
    | some close => .bracket close :: places
    | none => places

/-- The character behind a word. -/
def endWord (word : List Char) (isMember : Bool) (outer : List Place) (c : Char) :
    Option (List Place) :=
  if isMember then some (start outer c)
  else if word = argument then if declared outer then some (start outer c) else none
  else match keyword? word with
    | some place => if c = ' ' then some (place :: outer) else some (start outer c)
    | none => some (start outer c)

/-- One character of a type that opens no bracket of its own or closes it. -/
def inType (places : List Place) (c : Char) : List Place :=
  if c = '"' || c = '\'' then .literal c false :: places
  else match closing? c with
    | some close => .type close :: places
    | none => places

/-- One character of the text of a template. -/
def inTemplate (outer : List Place) (c : Char) : List Place :=
  if c = '\x60' then outer
  else if c = '\\' then .escape :: outer
  else if c = '$' then .dollar :: outer
  else .template :: outer

/-- One character of the parameters of a function behind a name, or before one. -/
def inParameters (name : Option (List Char)) (declares : Bool) (outer : List Place) (c : Char) :
    List Place :=
  if c = ')' then .result declares :: outer
  else if c = ',' then .parameters (some []) declares :: outer
  else inType (.parameters name declares :: outer) c

/-- Reads one character. -/
def step (places : List Place) (c : Char) : Option (List Place) :=
  match places with
  | .word chars isMember :: outer =>
    if isWordChar c then some (.word (c :: chars) isMember :: outer)
    else endWord chars.reverse isMember outer c
  | .dot spread :: outer =>
    if c = '.' then some (.dot true :: outer)
    else if isWordChar c then some (.word [c] (!spread) :: outer)
    else some (start outer c)
  | .slash :: outer =>
    if c = '/' then some (.remark :: outer)
    else if c = '*' then some (.comment false :: outer)
    else some (start outer c)
  | .remark :: outer => some (if c = '\n' then outer else places)
  | .comment star :: outer =>
    some (if star && c = '/' then outer else .comment (c = '*') :: outer)
  | .literal quote escaped :: outer =>
    some (if escaped then .literal quote false :: outer
      else if c = '\\' then .literal quote true :: outer
      else if c = quote then outer else places)
  | .template :: outer => some (inTemplate outer c)
  | .escape :: outer => some (.template :: outer)
  | .dollar :: outer =>
    some (if c = '{' then .substitution :: .template :: outer else inTemplate outer c)
  | .type close :: outer => some (if c = close then outer else inType places c)
  | .head :: outer => some (if c = '(' then .parameters (some []) false :: outer else places)
  | .parameters (some chars) declares :: outer =>
    some (if isWordChar c then .parameters (some (c :: chars)) declares :: outer
      else if chars = [] then inParameters (some []) declares outer c
      else inParameters none (declares || chars.reverse = argument) outer c)
  | .parameters none declares :: outer => some (inParameters none declares outer c)
  | .result declares :: outer =>
    some (if c = '{' then .body declares :: outer else inType places c)
  | .classHead :: outer => some (if c = '{' then .members :: outer else places)
  | .imports :: outer =>
    some (if c = ';' then outer
      else if c = '"' || c = '\'' then .literal c false :: places else places)
  | _ => some (start places c)

/-- Reads a text up to its end, or up to a use of an argument that nothing declares. -/
def read (places : List Place) : List Char → Option (List Place)
  | [] => some places
  | c :: cs => (step places c).bind fun next => read next cs

/-- The text is code that is closed, and uses its arguments where they are declared. -/
def IsClosed (text : String) : Prop := read [] text.toList = some []

/-- The text leads from places to places. -/
def Leads (text : List Char) (from_ to_ : List Place) : Prop := read from_ text = some to_

instance (text : List Char) (from_ to_ : List Place) : Decidable (Leads text from_ to_) :=
  inferInstanceAs (Decidable (read from_ text = some to_))

variable {places next outer : List Place} {text : List Char}

section steps
variable (outer : List Place) (c : Char)

theorem step_word (chars : List Char) (isMember : Bool) : step (.word chars isMember :: outer) c =
    if isWordChar c then some (.word (c :: chars) isMember :: outer)
    else endWord chars.reverse isMember outer c := rfl

theorem step_dot (spread : Bool) : step (.dot spread :: outer) c =
    if c = '.' then some (.dot true :: outer)
    else if isWordChar c then some (.word [c] (!spread) :: outer)
    else some (start outer c) := rfl

theorem step_comment (star : Bool) : step (.comment star :: outer) c =
    some (if star && c = '/' then outer else .comment (c = '*') :: outer) := rfl

theorem step_literal (quote : Char) : step (.literal quote false :: outer) c =
    some (if c = '\\' then .literal quote true :: outer
      else if c = quote then outer else .literal quote false :: outer) := rfl

theorem step_dollar : step (.dollar :: outer) c =
    some (if c = '{' then .substitution :: .template :: outer else inTemplate outer c) := rfl

theorem step_type (close : Char) : step (.type close :: outer) c =
    some (if c = close then outer else inType (.type close :: outer) c) := rfl

theorem step_head : step (.head :: outer) c =
    some (if c = '(' then .parameters (some []) false :: outer else .head :: outer) := rfl

theorem step_parameters_some (chars : List Char) (declares : Bool) :
    step (.parameters (some chars) declares :: outer) c =
      some (if isWordChar c then .parameters (some (c :: chars)) declares :: outer
        else if chars = [] then inParameters (some []) declares outer c
        else inParameters none (declares || chars.reverse = argument) outer c) := rfl

theorem step_classHead : step (.classHead :: outer) c =
    some (if c = '{' then .members :: outer else .classHead :: outer) := rfl

theorem step_members : step (.members :: outer) c = some (start (.members :: outer) c) := rfl

theorem step_imports : step (.imports :: outer) c =
    some (if c = ';' then outer
      else if c = '"' || c = '\'' then .literal c false :: .imports :: outer
      else .imports :: outer) := rfl

end steps

theorem read_append (places : List Place) (cs ds : List Char) :
    read places (cs ++ ds) = (read places cs).bind fun next => read next ds := by
  induction cs generalizing places with
  | nil => rfl
  | cons c cs ih =>
    rw [List.cons_append, read, read]
    cases step places c with
    | none => rfl
    | some next => exact ih next

theorem isClosed_iff_leads {text : String} : IsClosed text ↔ Leads text.toList [] [] := Iff.rfl

example : IsClosed "function f(input) \x7b return \x60/input/$\x7binput\x7d\x60; // \"input\n\x7d" :=
  isClosed_iff_leads.2 (by decide +kernel)

example : read [] "function f(inputs) \x7b return a.input(input); \x7d".toList = none := by
  decide +kernel

theorem Leads.nil (places : List Place) : Leads [] places places := rfl

/-- Texts lead one behind the other. -/
theorem Leads.append {more : List Char} {last : List Place} (h : Leads text places next)
    (hmore : Leads more next last) : Leads (text ++ more) places last := by
  rw [Leads, read_append, h]
  exact hmore

theorem Leads.cons {c : Char} {last : List Place} (h : step places c = some next)
    (hmore : Leads text next last) : Leads (c :: text) places last := by
  rw [Leads, read, h]
  exact hmore

/-- Characters that lead nowhere. -/
theorem leads_of_forall (h : ∀ c ∈ text, step places c = some places) :
    Leads text places places := by
  induction text with
  | nil => exact .nil places
  | cons c cs ih =>
    obtain ⟨hc, hcs⟩ := List.forall_mem_cons.1 h
    exact .cons hc (ih hcs)

/-- Where expressions and statements stand. -/
def isCode : List Place → Bool
  | [] => true
  | .bracket close :: _ => [')', ']', '}'].contains close
  | .body _ :: _ => true
  | .substitution :: _ => true
  | _ => false

theorem isCode_cases (h : isCode places = true) : places = [] ∨ ∃ outer, places = .bracket ')' :: outer ∨
    places = .bracket ']' :: outer ∨ places = .bracket '}' :: outer ∨
    (∃ declares, places = .body declares :: outer) ∨ places = .substitution :: outer := by
  unfold isCode at h
  split at h
  · exact .inl rfl
  · simp only [List.contains_cons, List.contains_nil, Bool.or_false, Bool.or_eq_true,
      beq_iff_eq] at h
    obtain rfl | rfl | rfl := h <;> simp
  · simp
  · simp
  · cases h

theorem step_of_isCode (h : isCode places = true) (c : Char) :
    step places c = some (start places c) := by
  obtain rfl | ⟨outer, rfl | rfl | rfl | ⟨declares, rfl⟩ | rfl⟩ := isCode_cases h <;> rfl

/-- A text behind which reading goes on as it stood, if no word goes on. -/
def Passes (text : List Char) (places : List Place) : Prop :=
  ∀ c cs, isWordChar c = false → read places (text ++ c :: cs) = read places (c :: cs)

theorem Leads.passes (h : Leads text places places) : Passes text places := by
  intro c cs _
  rw [read_append, h]
  rfl

/-- What passes is over with the next character, and leads where that leads. -/
theorem Passes.leads {c : Char} (h : Passes text places) (hc : isWordChar c = false)
    {more : List Char} (hmore : Leads (c :: more) places next) :
    Leads (text ++ c :: more) places next := (h c more hc).trans hmore

theorem Passes.append {more : List Char} (h : Passes text places) (hmore : Passes more places)
    (hhead : ∀ c ∈ more.head?, isWordChar c = false) : Passes (text ++ more) places := by
  intro d ds hd
  cases more with
  | nil => rw [List.append_nil, h d ds hd]
  | cons c more =>
    rw [List.append_assoc, List.cons_append, h c _ (hhead c rfl)]
    exact hmore d ds hd

theorem Leads.append_passes {more : List Char} (h : Leads text places places)
    (hmore : Passes more places) : Passes (text ++ more) places := by
  intro d ds hd
  rw [List.append_assoc, read_append, h]
  exact hmore d ds hd

section words
variable {w : List Char}

/-- A word goes on up to a character that is no part of it. -/
theorem read_word (hw : ∀ c ∈ w, isWordChar c = true) (chars : List Char) (isMember : Bool) {c : Char}
    (cs : List Char) (hc : isWordChar c = false) :
    read (.word chars isMember :: places) (w ++ c :: cs) =
      (endWord (chars.reverse ++ w) isMember places c).bind fun next => read next cs := by
  induction w generalizing chars with
  | nil => simp [read, step_word, hc]
  | cons d w ih =>
    obtain ⟨hd, hw⟩ := List.forall_mem_cons.1 hw
    rw [List.cons_append, read, step_word, if_pos hd, Option.bind_some, ih hw, List.reverse_cons,
      List.append_assoc]
    rfl

theorem start_of_isWordChar {c : Char} (hcode : isCode places = true) (hc : isWordChar c = true) :
    start places c = .word [c] false :: places := by
  have hslash : c ≠ '/' := by
    rintro rfl
    cases hc
  have hmembers : places.head? ≠ some .members := by
    rintro hhead
    obtain ⟨outer, rfl⟩ := List.head?_eq_some_iff.1 hhead
    cases hcode
  rw [start, if_neg hslash, if_neg hmembers, if_pos hc]

/-- A word of code is over with the next character, unless it is the argument where nothing declares
it, or a keyword that other text than code follows. -/
theorem read_code_word (hcode : isCode places = true) (hw : ∀ c ∈ w, isWordChar c = true)
    (hargument : w = argument → declared places = true) {c : Char} (cs : List Char)
    (hc : isWordChar c = false) (hkey : keyword? w = none ∨ c ≠ ' ') :
    read places (w ++ c :: cs) = read places (c :: cs) := by
  cases w with
  | nil => rfl
  | cons d w =>
    obtain ⟨hd, hrest⟩ := List.forall_mem_cons.1 hw
    have hend : endWord (d :: w) false places c = some (start places c) := by
      unfold endWord
      by_cases harg : d :: w = argument
      · simp [harg, hargument harg]
      · rcases hkey with hkey | hkey
        · simp [harg, hkey]
        · simp only [harg, hkey, if_false, Bool.false_eq_true]
          split <;> rfl
    rw [List.cons_append, read, step_of_isCode hcode, start_of_isWordChar hcode hd, Option.bind_some,
      read_word hrest _ _ _ hc, List.reverse_singleton, List.singleton_append, hend, read,
      step_of_isCode hcode]

theorem passes_word (hcode : isCode places = true) (hw : ∀ c ∈ w, isWordChar c = true)
    (hargument : w = argument → declared places = true) (hkey : keyword? w = none) :
    Passes w places :=
  fun _ cs hc => read_code_word hcode hw hargument cs hc (.inl hkey)

/-- Behind a point every word passes. -/
theorem read_member (hcode : isCode places = true) (hw : ∀ c ∈ w, isWordChar c = true)
    (hne : w ≠ []) {c : Char} (cs : List Char) (hc : isWordChar c = false) :
    read (.dot false :: places) (w ++ c :: cs) = read places (c :: cs) := by
  obtain ⟨d, w, rfl⟩ := List.exists_cons_of_ne_nil hne
  obtain ⟨hd, hrest⟩ := List.forall_mem_cons.1 hw
  have hdot : d ≠ '.' := by
    rintro rfl
    cases hd
  rw [List.cons_append, read, step_dot, if_neg hdot, if_pos hd, Option.bind_some,
    read_word hrest _ _ _ hc, read, step_of_isCode hcode]
  rfl

end words

/-- What stands between quotes leads nowhere. -/
theorem leads_inside {cs : List Char} (h : Json.Inside cs) :
    Leads cs (.literal '"' false :: outer) (.literal '"' false :: outer) := by
  induction h with
  | nil => exact .nil _
  | char hc _ ih =>
    refine .cons ?_ ih
    simp_all [step_literal]
  | escape c _ ih => exact .cons rfl (.cons rfl ih)

/-- A quoted text is an expression. -/
theorem leads_quoted (hcode : isCode places = true) (s : String) :
    Leads (Json.quoted s).toList places places := by
  obtain ⟨cs, hcs, hquoted⟩ := Json.exists_inside_quoted s
  have hopen : step places '"' = some (.literal '"' false :: places) := by
    obtain rfl | ⟨outer, rfl | rfl | rfl | ⟨declares, rfl⟩ | rfl⟩ := isCode_cases hcode <;> rfl
  rw [hquoted]
  exact .cons hopen ((leads_inside hcs).append rfl)

/-- The text of a comment leads on in the comment, if nothing in it ends one. -/
theorem exists_leads_comment {cs : List Char} (h : ¬ ['*', '/'] <:+: cs) :
    ∃ star, Leads cs (.comment false :: outer) (.comment star :: outer) := by
  have hall : ∀ star, (star = true → cs.head? ≠ some '/') →
      ∃ star', Leads cs (.comment star :: outer) (.comment star' :: outer) := by
    induction cs with
    | nil => exact fun star _ => ⟨star, .nil _⟩
    | cons c cs ih =>
      intro star hstar
      have hopen : ¬ (star && c = '/') = true := by
        simpa using hstar
      obtain ⟨star', hleads⟩ := ih (fun hin => h (hin.trans (List.suffix_cons c cs).isInfix))
        (decide (c = '*')) (by
          intro hc hhead
          rw [decide_eq_true_iff] at hc
          obtain ⟨rest, rfl⟩ := List.head?_eq_some_iff.1 hhead
          exact h ⟨[], rest, by simp [hc]⟩)
      exact ⟨star', .cons (by rw [step_comment, if_neg hopen]) hleads⟩
  exact hall false (by simp)

/-- A plain text leads nowhere between quotes. -/
theorem leads_literal {quote : Char} (h : ∀ c ∈ text, c ≠ quote ∧ c ≠ '\\') :
    Leads text (.literal quote false :: outer) (.literal quote false :: outer) := by
  refine leads_of_forall fun c hc => ?_
  simp [step_literal, h c hc]

/-- The names in an import lead nowhere. -/
theorem leads_imports (h : ∀ c ∈ text, c ∉ ['"', '\'', ';']) :
    Leads text (.imports :: outer) (.imports :: outer) := by
  refine leads_of_forall fun c hc => ?_
  have hne := h c hc
  simp_all [step_imports]

/-- The name of a function leads nowhere. -/
theorem leads_head (h : '(' ∉ text) : Leads text (.head :: outer) (.head :: outer) := by
  refine leads_of_forall fun c hc => ?_
  have hne : c ≠ '(' := fun heq => h (heq ▸ hc)
  simp [step_head, hne]

/-- The name of a class leads nowhere. -/
theorem leads_classHead (h : '{' ∉ text) :
    Leads text (.classHead :: outer) (.classHead :: outer) := by
  refine leads_of_forall fun c hc => ?_
  have hne : c ≠ '{' := fun heq => h (heq ▸ hc)
  simp [step_classHead, hne]

/-- The name of a method leads nowhere. -/
theorem leads_members (h : ∀ c ∈ text, isWordChar c = true) :
    Leads text (.members :: outer) (.members :: outer) := by
  refine leads_of_forall fun c hc => ?_
  have hne : c ≠ '/' ∧ c ≠ '(' ∧ c ≠ '}' := by
    refine ⟨?_, ?_, ?_⟩ <;> rintro rfl <;> cases h _ hc
  simp [step_members, start, hne]

section types
open TypeText

/-- The places inside brackets and literals of a type, the innermost first. -/
def nested (stack : List Char) (quote : Option Char) : List Place :=
  (quote.map (.literal · false)).toList ++ (stack.filterMap closing?).map .type

theorem closing?_of_mem {p : Char × Char} (hp : p ∈ pairs) : closing? p.1 = some p.2 := by
  have hall : ∀ p ∈ pairs, closing? p.1 = some p.2 := by decide
  exact hall p hp

theorem inType_quote {c : Char} (hc : c = '\'' ∨ c = '"') :
    inType places c = .literal c false :: places := by
  rcases hc with rfl | rfl <;> rfl

theorem inType_open {p : Char × Char} (hp : p ∈ pairs) :
    inType places p.1 = .type p.2 :: places := by
  have hquote : ¬ (p.1 = '"' || p.1 = '\'') = true := by
    have hne := (not_mem_quotes hp).1
    simp_all
  rw [inType, if_neg hquote, closing?_of_mem hp]

theorem inType_sign {c : Char} (hquote : c ≠ '\'' ∧ c ≠ '"') (hc : ∀ p ∈ pairs, c ≠ p.1 ∧ c ≠ p.2) :
    inType places c = places := by
  have hnone : closing? c = none := by
    rw [closing?, Option.map_eq_none_iff, List.find?_eq_none]
    exact fun p hp => by simpa using (hc p hp).1.symm
  simp [inType, hquote, hnone]

/-- Places where types go on: a character that closes no bracket leads to such places, or into what
it opens there. -/
def IsTyped (B : List Place → Prop) : Prop :=
  ∀ places, B places → ∀ c, (∀ p ∈ pairs, c ≠ p.2) →
    ∃ next, B next ∧ step places c = some (inType next c)

/-- Inside brackets of a type the places below stay as they are. -/
theorem IsTyped.nested {B : List Place → Prop} (h : IsTyped B) (stack : List Char) :
    IsTyped fun places => ∃ base, B base ∧ places = Code.nested stack none ++ base := by
  rintro _ ⟨base, hbase, rfl⟩ c hc
  cases hstack : stack.filterMap closing? with
  | nil =>
    obtain ⟨next, hnext, hstep⟩ := h base hbase c hc
    refine ⟨next, ⟨next, hnext, ?_⟩, ?_⟩ <;> simp [Code.nested, hstack, hstep]
  | cons close closings =>
    have hmem : close ∈ stack.filterMap closing? := hstack ▸ List.mem_cons_self
    obtain ⟨o, -, hclosing⟩ := List.mem_filterMap.1 hmem
    obtain ⟨p, hp, rfl⟩ := Option.map_eq_some_iff.1 hclosing
    have hne := hc p (List.mem_of_find?_eq_some hp)
    refine ⟨_, ⟨base, hbase, rfl⟩, ?_⟩
    simp [Code.nested, hstack, step_type, hne]

/-- A text with nested brackets and closed literals leads on where types go on. The induction is on
the text, inside brackets and literals too. -/
theorem IsTyped.exists_leads {B : List Place → Prop} (h : IsTyped B) {stack : List Char}
    {quote : Option Char} {cs : List Char} (hchars : ∀ c ∈ cs, c ≠ '\\')
    (hcs : isBalancedFrom stack quote cs = true) (hplaces : B places) :
    ∃ next, B next ∧ Leads cs (Code.nested stack quote ++ places) next := by
  induction cs generalizing stack quote places with
  | nil =>
    simp only [isBalancedFrom, Bool.and_eq_true, List.isEmpty_iff, Option.isNone_iff_eq_none] at hcs
    rw [hcs.1, hcs.2]
    exact ⟨places, hplaces, .nil places⟩
  | cons c cs ih =>
    obtain ⟨hc, hchars⟩ := List.forall_mem_cons.1 hchars
    have hmove : ∀ {next : List Place} {quote' : Option Char} {stack' : List Char}, B next →
        isBalancedFrom stack' quote' cs = true →
        step (Code.nested stack quote ++ places) c = some (Code.nested stack' quote' ++ next) →
        ∃ last, B last ∧ Leads (c :: cs) (Code.nested stack quote ++ places) last := by
      intro next quote' stack' hnext hcs hstep
      obtain ⟨last, hlast, hleads⟩ := ih hchars hcs hnext
      exact ⟨last, hlast, .cons hstep hleads⟩
    cases quote with
    | some q =>
      refine hmove hplaces hcs ?_
      by_cases hq : c = q
      · simp [Code.nested, step_literal, hq ▸ hc, hq]
      · simp [Code.nested, step_literal, hc, hq]
    | none =>
      have htop : (∀ p ∈ pairs, c ≠ p.2) → ∃ next, B next ∧ step (Code.nested stack none ++ places) c
          = some (inType (Code.nested stack none ++ next) c) := by
        intro hclose
        obtain ⟨_, ⟨next, hnext, rfl⟩, hstep⟩ := h.nested stack _ ⟨places, hplaces, rfl⟩ c hclose
        exact ⟨next, hnext, hstep⟩
      rcases char_cases c with hquote | ⟨p, hp, rfl⟩ | ⟨p, hp, rfl⟩ | ⟨hquote, hsign⟩
      · have hclose : ∀ p ∈ pairs, c ≠ p.2 := by
          rcases hquote with rfl | rfl <;> decide
        obtain ⟨next, hnext, hstep⟩ := htop hclose
        rw [isBalancedFrom_quote hquote] at hcs
        exact hmove hnext hcs (by rw [hstep, inType_quote hquote]; rfl)
      · obtain ⟨next, hnext, hstep⟩ := htop fun q hq => ne_of_mem_pairs hp hq
        rw [isBalancedFrom_open hp] at hcs
        exact hmove hnext hcs (by rw [hstep, inType_open hp]; simp [Code.nested, closing?_of_mem hp])
      · obtain ⟨below, rfl, hbelow⟩ := (isBalancedFrom_close hp).1 hcs
        exact hmove hplaces hbelow (by simp [Code.nested, closing?_of_mem hp, step_type])
      · obtain ⟨next, hnext, hstep⟩ := htop fun q hq => (hsign q hq).2
        rw [isBalancedFrom_sign hquote hsign] at hcs
        exact hmove hnext hcs (by rw [hstep, inType_sign hquote hsign])

/-- A checked type leads on where types go on. -/
theorem IsTyped.exists_leads_normalize {B : List Place → Prop} (h : IsTyped B) (hplaces : B places)
    (t : String) : ∃ next, B next ∧ Leads (normalize t).toList places next := by
  have husable : isUsable (normalize t) = true := by
    unfold TypeText.normalize
    dsimp only
    split
    · next hkept => exact (Bool.and_eq_true_iff.1 hkept).2
    · decide
  obtain ⟨hchars, hbalanced⟩ := isUsable_iff.1 husable
  have hescape : ∀ c ∈ (normalize t).toList, c ≠ '\\' := by
    rintro c hc rfl
    cases hchars _ hc
  exact @IsTyped.exists_leads places B h [] none _ hescape hbalanced hplaces

/-- Between angle brackets a checked type leads nowhere. -/
theorem leads_normalize (t : String) :
    Leads (normalize t).toList (.type '>' :: outer) (.type '>' :: outer) := by
  have htyped : IsTyped (· = .type '>' :: outer) := by
    rintro _ rfl c hc
    have hne : c ≠ '>' := hc ('<', '>') (by decide)
    exact ⟨_, rfl, by simp [step_type, hne]⟩
  obtain ⟨_, rfl, hleads⟩ := htyped.exists_leads_normalize rfl t
  exact hleads

theorem inType_of_isWordChar {c : Char} (h : isWordChar c = true) : inType places c = places := by
  refine inType_sign ⟨?_, ?_⟩ fun p hp => ?_
  · rintro rfl
    cases h
  · rintro rfl
    cases h
  · have hall : ∀ p ∈ pairs, isWordChar p.1 = false ∧ isWordChar p.2 = false := by decide
    constructor
    · rintro rfl
      simp [hall p hp] at h
    · rintro rfl
      simp [hall p hp] at h

theorem exists_inParameters (name : Option (List Char)) (declares : Bool) {c : Char} (hc : c ≠ ')') :
    ∃ name', inParameters name declares outer c = inType (.parameters name' declares :: outer) c := by
  rw [inParameters, if_neg hc]
  by_cases hcomma : c = ','
  · rw [if_pos hcomma, hcomma]
    exact ⟨some [], rfl⟩
  · rw [if_neg hcomma]
    exact ⟨name, rfl⟩

/-- Among parameters that declare the argument, a checked type leads to such parameters. -/
theorem exists_leads_parameters (name : Option (List Char)) (t : String) :
    ∃ name', Leads (normalize t).toList (.parameters name true :: outer)
      (.parameters name' true :: outer) := by
  have htyped : IsTyped fun places => ∃ name, places = .parameters name true :: outer := by
    rintro _ ⟨name, rfl⟩ c hc
    have hclose : c ≠ ')' := hc ('(', ')') (by decide)
    have hbehind : ∀ name, ∃ next, (∃ name, next = .parameters name true :: outer) ∧
        some (inParameters name true outer c) = some (inType next c) := by
      intro name
      obtain ⟨name', hname⟩ := @exists_inParameters outer name true c hclose
      exact ⟨_, ⟨name', rfl⟩, congrArg some hname⟩
    cases name with
    | none => exact hbehind none
    | some chars =>
      by_cases hword : isWordChar c = true
      · exact ⟨_, ⟨some (c :: chars), rfl⟩, by
          rw [step_parameters_some, if_pos hword, inType_of_isWordChar hword]⟩
      · by_cases hempty : chars = []
        · simpa [step_parameters_some, hword, hempty] using hbehind (some [])
        · simpa [step_parameters_some, hword, hempty] using hbehind none
  obtain ⟨_, ⟨name', rfl⟩, hleads⟩ := htyped.exists_leads_normalize ⟨name, rfl⟩ t
  exact ⟨name', hleads⟩

end types
end Code
end ApiScribe
