import ApiScribe.Proofs.Endpoint.InputType

/-! Brackets and literals in types. The check of types reads a text once, with the open brackets on
a stack; what it lets pass are the texts of certain characters whose literals are closed and whose
brackets outside literals form a word of the grammar of nested brackets. -/
namespace ApiScribe
namespace TypeText

/-- The brackets of types, each with the one that closes it. -/
def pairs : List (Char × Char) := [('(', ')'), ('[', ']'), ('{', '}'), ('<', '>')]

/-- A text, and its brackets outside literals in order. A literal goes from a quote to the next
quote of its kind, whatever else stands between the two. -/
inductive Outside : List Char → List Char → Prop
  | nil : Outside [] []
  | literal {quote : Char} {inside cs brackets : List Char} (hquote : quote = '\'' ∨ quote = '"')
      (hinside : quote ∉ inside) (h : Outside cs brackets) :
      Outside (quote :: (inside ++ quote :: cs)) brackets
  | bracket {c : Char} {cs brackets : List Char} (hc : ∃ p ∈ pairs, c = p.1 ∨ c = p.2)
      (h : Outside cs brackets) : Outside (c :: cs) (c :: brackets)
  | sign {c : Char} {cs brackets : List Char} (hquote : c ≠ '\'' ∧ c ≠ '"')
      (hc : ∀ p ∈ pairs, c ≠ p.1 ∧ c ≠ p.2) (h : Outside cs brackets) : Outside (c :: cs) brackets

/-- The words of nested brackets: nothing, or a pair with a word inside and a word behind it. -/
inductive Nested : List Char → Prop
  | nil : Nested []
  | pair {p : Char × Char} {inside rest : List Char} (hp : p ∈ pairs) (hinside : Nested inside)
      (hrest : Nested rest) : Nested (p.1 :: (inside ++ p.2 :: rest))

/-- The texts that are types as far as their characters, literals and brackets tell. -/
structure IsClosed (cs : List Char) : Prop where
  ne_nil : cs ≠ []
  chars : ∀ c ∈ cs, isTypeChar c = true
  nested : ∃ brackets, Outside cs brackets ∧ Nested brackets

/-- A word that closes the open brackets of a stack, the innermost first, with nested words before,
between and behind what closes them. -/
inductive Completes : List Char → List Char → Prop
  | nil {word : List Char} (h : Nested word) : Completes [] word
  | cons {p : Char × Char} {stack word rest : List Char} (hp : p ∈ pairs) (hword : Nested word)
      (h : Completes stack rest) : Completes (p.1 :: stack) (word ++ p.2 :: rest)

variable {c o : Char} {stack word : List Char}

/-- No bracket both opens and closes. -/
theorem ne_of_mem_pairs {p q : Char × Char} (hp : p ∈ pairs) (hq : q ∈ pairs) : p.1 ≠ q.2 := by
  have hall : ∀ p ∈ pairs, ∀ q ∈ pairs, p.1 ≠ q.2 := by decide
  exact hall p hp q hq

/-- A pair is known by what closes it. -/
theorem eq_of_mem_pairs {p q : Char × Char} (hp : p ∈ pairs) (hq : q ∈ pairs) (h : p.2 = q.2) :
    p = q := by
  have hall : ∀ p ∈ pairs, ∀ q ∈ pairs, p.2 = q.2 → p = q := by decide
  exact hall p hp q hq h

/-- A character is a quote, opens, closes, or is none of all these. -/
theorem char_cases (c : Char) : (c = '\'' ∨ c = '"') ∨ (∃ p ∈ pairs, c = p.1) ∨
    (∃ p ∈ pairs, c = p.2) ∨ ((c ≠ '\'' ∧ c ≠ '"') ∧ ∀ p ∈ pairs, c ≠ p.1 ∧ c ≠ p.2) := by
  by_cases hquote : c = '\'' ∨ c = '"'
  · exact .inl hquote
  by_cases hopen : ∃ p ∈ pairs, c = p.1
  · exact .inr (.inl hopen)
  by_cases hclose : ∃ p ∈ pairs, c = p.2
  · exact .inr (.inr (.inl hclose))
  refine .inr (.inr (.inr ⟨not_or.1 hquote, fun p hp => ⟨?_, ?_⟩⟩))
  · exact fun hc => hopen ⟨p, hp, hc⟩
  · exact fun hc => hclose ⟨p, hp, hc⟩

theorem Completes.nil_iff : Completes stack [] ↔ stack = [] := by
  constructor
  · intro h
    generalize hword : ([] : List Char) = word at h
    cases h with
    | nil => exact hword
    | cons => simp at hword
  · rintro rfl
    exact .nil .nil

/-- An opening bracket goes on the stack. -/
theorem Completes.open_iff {p : Char × Char} (hp : p ∈ pairs) :
    Completes stack (p.1 :: word) ↔ Completes (p.1 :: stack) word := by
  constructor
  · intro h
    generalize hall : p.1 :: word = all at h
    cases h with
    | nil hnested =>
      cases hnested with
      | nil => cases hall
      | pair hq hinside hrest =>
        obtain ⟨hfirst, rfl⟩ := List.cons.inj hall
        rw [hfirst]
        exact .cons hq hinside (.nil hrest)
    | cons hq hword h =>
      cases hword with
      | nil => exact absurd (List.cons.inj hall).1 (ne_of_mem_pairs hp hq)
      | pair hr hinside hrest =>
        obtain ⟨hfirst, rfl⟩ := List.cons.inj hall
        rw [hfirst]
        simpa using Completes.cons hr hinside (.cons hq hrest h)
  · intro h
    generalize hopen : p.1 :: stack = opened at h
    cases h with
    | nil => cases hopen
    | cons hq hword h =>
      obtain ⟨hfirst, rfl⟩ := List.cons.inj hopen
      rw [hfirst]
      cases h with
      | nil hnested => exact .nil (.pair hq hword hnested)
      | cons hr hnested h =>
        simpa using Completes.cons hr (.pair hq hword hnested) h

/-- A closing bracket takes the bracket that it belongs to from the stack. -/
theorem Completes.close_iff {p : Char × Char} (hp : p ∈ pairs) :
    Completes stack (p.2 :: word) ↔ ∃ outer, stack = p.1 :: outer ∧ Completes outer word := by
  constructor
  · intro h
    generalize hall : p.2 :: word = all at h
    cases h with
    | nil hnested =>
      cases hnested with
      | nil => cases hall
      | pair hq => exact absurd (List.cons.inj hall).1.symm (ne_of_mem_pairs hq hp)
    | cons hq hword h =>
      cases hword with
      | nil =>
        obtain ⟨hfirst, rfl⟩ := List.cons.inj hall
        rw [eq_of_mem_pairs hp hq hfirst]
        exact ⟨_, rfl, h⟩
      | pair hr => exact absurd (List.cons.inj hall).1.symm (ne_of_mem_pairs hr hp)
  · rintro ⟨outer, rfl, h⟩
    exact .cons hp .nil h

/-- The brackets of a text that may start inside a literal. -/
def OutsideFrom (quote : Option Char) (cs brackets : List Char) : Prop :=
  match quote with
  | none => Outside cs brackets
  | some q => ∃ inside rest, cs = inside ++ q :: rest ∧ q ∉ inside ∧ Outside rest brackets

/-- A literal goes on up to its quote. -/
theorem outsideFrom_some_cons {q : Char} {cs brackets : List Char} :
    OutsideFrom (some q) (c :: cs) brackets ↔
      OutsideFrom (if c = q then none else some q) cs brackets := by
  simp only [OutsideFrom, List.cons_eq_append_iff]
  by_cases hc : c = q
  · subst hc
    rw [if_pos rfl]
    constructor
    · rintro ⟨inside, rest, ⟨rfl, heq⟩ | ⟨front, rfl, -⟩, hinside, h⟩
      · rwa [(List.cons.inj heq).2] at h
      · simp at hinside
    · exact fun h => ⟨[], cs, .inl ⟨rfl, rfl⟩, by simp, h⟩
  · rw [if_neg hc]
    constructor
    · rintro ⟨inside, rest, ⟨rfl, heq⟩ | ⟨front, rfl, rfl⟩, hinside, h⟩
      · exact absurd (List.cons.inj heq).1.symm hc
      · exact ⟨front, rest, rfl, by simp_all, h⟩
    · rintro ⟨inside, rest, rfl, hinside, h⟩
      exact ⟨c :: inside, rest, .inr ⟨inside, rfl, rfl⟩, by simp [Ne.symm hc, hinside], h⟩

theorem not_mem_quotes {p : Char × Char} (hp : p ∈ pairs) :
    p.1 ∉ ['\'', '"'] ∧ p.2 ∉ ['\'', '"'] := by
  have hall : ∀ p ∈ pairs, p.1 ∉ ['\'', '"'] ∧ p.2 ∉ ['\'', '"'] := by decide
  exact hall p hp

/-- A quote starts a literal. -/
theorem outside_quote_cons {cs brackets : List Char} (hc : c = '\'' ∨ c = '"') :
    Outside (c :: cs) brackets ↔ OutsideFrom (some c) cs brackets := by
  constructor
  · intro h
    cases h with
    | literal _ hinside h => exact ⟨_, _, rfl, hinside, h⟩
    | bracket hbracket =>
      obtain ⟨p, hp, hbracket⟩ := hbracket
      have hquote : c ∈ ['\'', '"'] := by simpa using hc
      rcases hbracket with rfl | rfl
      · exact absurd hquote (not_mem_quotes hp).1
      · exact absurd hquote (not_mem_quotes hp).2
    | sign hquote => simp [hquote] at hc
  · rintro ⟨inside, rest, rfl, hinside, h⟩
    exact .literal hc hinside h

/-- A bracket is the first of the brackets. -/
theorem outside_bracket_cons {cs brackets : List Char} (hc : ∃ p ∈ pairs, c = p.1 ∨ c = p.2) :
    Outside (c :: cs) brackets ↔ ∃ rest, brackets = c :: rest ∧ Outside cs rest := by
  constructor
  · intro h
    obtain ⟨p, hp, hbracket⟩ := hc
    cases h with
    | literal hquote =>
      have hne := not_mem_quotes hp
      rcases hbracket with rfl | rfl <;> simp_all
    | bracket _ h => exact ⟨_, rfl, h⟩
    | sign _ hsign => simp [hsign p hp] at hbracket
  · rintro ⟨rest, rfl, h⟩
    exact .bracket hc h

/-- Any other character makes no difference. -/
theorem outside_sign_cons {cs brackets : List Char} (hquote : c ≠ '\'' ∧ c ≠ '"')
    (hc : ∀ p ∈ pairs, c ≠ p.1 ∧ c ≠ p.2) :
    Outside (c :: cs) brackets ↔ Outside cs brackets := by
  constructor
  · intro h
    cases h with
    | literal hq => simp [hquote] at hq
    | bracket hbracket =>
      obtain ⟨p, hp, hbracket⟩ := hbracket
      simp [hc p hp] at hbracket
    | sign _ _ h => exact h
  · exact .sign hquote hc

section scan
variable {cs : List Char}

theorem isBalancedFrom_quote (hc : c = '\'' ∨ c = '"') :
    isBalancedFrom stack none (c :: cs) = isBalancedFrom stack (some c) cs := by
  rcases hc with rfl | rfl <;> simp [isBalancedFrom]

theorem isBalancedFrom_open {p : Char × Char} (hp : p ∈ pairs) :
    isBalancedFrom stack none (p.1 :: cs) = isBalancedFrom (p.1 :: stack) none cs := by
  simp only [pairs, List.mem_cons, List.not_mem_nil, or_false] at hp
  rcases hp with rfl | rfl | rfl | rfl <;> simp [isBalancedFrom]

theorem isBalancedFrom_close {p : Char × Char} (hp : p ∈ pairs) :
    isBalancedFrom stack none (p.2 :: cs) = true ↔
      ∃ outer, stack = p.1 :: outer ∧ isBalancedFrom outer none cs = true := by
  simp only [pairs, List.mem_cons, List.not_mem_nil, or_false] at hp
  cases stack <;> rcases hp with rfl | rfl | rfl | rfl <;> simp [isBalancedFrom, opener?]

theorem isBalancedFrom_sign (hquote : c ≠ '\'' ∧ c ≠ '"')
    (hc : ∀ p ∈ pairs, c ≠ p.1 ∧ c ≠ p.2) :
    isBalancedFrom stack none (c :: cs) = isBalancedFrom stack none cs := by
  simp only [pairs, List.forall_mem_cons, List.not_mem_nil, false_imp_iff, implies_true,
    and_true] at hc
  rw [isBalancedFrom]
  simp [hquote, hc, opener?]

end scan

/-- The scan succeeds on the texts whose literals are closed and whose brackets complete its stack.
The induction is on the text, for all stacks and inside literals too. -/
theorem isBalancedFrom_iff (quote : Option Char) (cs : List Char) :
    isBalancedFrom stack quote cs = true ↔
      ∃ brackets, OutsideFrom quote cs brackets ∧ Completes stack brackets := by
  induction cs generalizing stack quote with
  | nil =>
    cases quote with
    | some q => simp [isBalancedFrom, OutsideFrom]
    | none =>
      have hnil : ∀ brackets, Outside [] brackets ↔ brackets = [] := by
        intro brackets
        exact ⟨fun h => by cases h; rfl, by rintro rfl; exact .nil⟩
      simp [isBalancedFrom, OutsideFrom, hnil, Completes.nil_iff]
  | cons c cs ih =>
    cases quote with
    | some q => simp only [isBalancedFrom, ih, outsideFrom_some_cons]
    | none =>
      rcases char_cases c with hquote | ⟨p, hp, rfl⟩ | ⟨p, hp, rfl⟩ | ⟨hquote, hsign⟩
      · simp only [isBalancedFrom_quote hquote, ih, OutsideFrom, outside_quote_cons hquote]
      · have hbracket : ∃ q ∈ pairs, p.1 = q.1 ∨ p.1 = q.2 := ⟨p, hp, .inl rfl⟩
        simp only [isBalancedFrom_open hp, ih, OutsideFrom, outside_bracket_cons hbracket]
        constructor
        · rintro ⟨brackets, h, hcompletes⟩
          exact ⟨_, ⟨brackets, rfl, h⟩, (Completes.open_iff hp).2 hcompletes⟩
        · rintro ⟨_, ⟨brackets, rfl, h⟩, hcompletes⟩
          exact ⟨brackets, h, (Completes.open_iff hp).1 hcompletes⟩
      · have hbracket : ∃ q ∈ pairs, p.2 = q.1 ∨ p.2 = q.2 := ⟨p, hp, .inr rfl⟩
        simp only [isBalancedFrom_close hp, ih, OutsideFrom, outside_bracket_cons hbracket]
        constructor
        · rintro ⟨outer, rfl, brackets, h, hcompletes⟩
          exact ⟨_, ⟨brackets, rfl, h⟩, (Completes.close_iff hp).2 ⟨outer, rfl, hcompletes⟩⟩
        · rintro ⟨_, ⟨brackets, rfl, h⟩, hcompletes⟩
          obtain ⟨outer, rfl, hrest⟩ := (Completes.close_iff hp).1 hcompletes
          exact ⟨outer, rfl, brackets, h, hrest⟩
      · simp only [isBalancedFrom_sign hquote hsign, ih, OutsideFrom,
          outside_sign_cons hquote hsign]

/-- The check of brackets lets pass what the grammar of nested brackets derives. -/
theorem isBalanced_iff {cs : List Char} :
    isBalanced cs = true ↔ ∃ brackets, Outside cs brackets ∧ Nested brackets := by
  have hnested : ∀ {brackets}, Completes [] brackets ↔ Nested brackets := by
    intro brackets
    constructor
    · rintro ⟨h⟩
      exact h
    · exact .nil
  simp only [isBalanced, isBalancedFrom_iff, OutsideFrom, hnested]

theorem isUsable_iff {t : String} :
    isUsable t = true ↔ (∀ c ∈ t.toList, isTypeChar c = true) ∧ isBalanced t.toList = true := by
  constructor
  · intro h
    have hbalanced := (isPart_of_isUsable h).balanced [] []
    exact ⟨isTypeChar_of_isUsable h, by simpa [isBalanced, isBalancedFrom] using hbalanced⟩
  · rintro ⟨hchars, hbalanced⟩
    simp [isUsable, List.all_eq_true.2 hchars, hbalanced]

/-- **What passes the check of types.** A type is its text without the blanks around it exactly if
that text is not empty, has characters of types only and closes its literals, and its brackets
outside literals are nested; any other text becomes `unknown`. What was checked once stays as it
is. -/
theorem normalize_eq_trimmed_iff (s : String) :
    (normalize s = Text.trimmed s ↔ IsClosed (Text.trimmed s).toList) ∧
      (¬ IsClosed (Text.trimmed s).toList → normalize s = "unknown") ∧
      normalize (normalize s) = normalize s := by
  have hclosed : ∀ t : String, IsClosed t.toList ↔ t ≠ "" ∧ isUsable t = true := by
    intro t
    rw [isUsable_iff, isBalanced_iff, Ne, ← String.toList_eq_nil_iff]
    exact ⟨fun h => ⟨h.ne_nil, h.chars, h.nested⟩, fun h => ⟨h.1, h.2.1, h.2.2⟩⟩
  have hunknown : IsClosed "unknown".toList := (hclosed "unknown").2 (by decide)
  have hchecked : ∀ t : String, IsClosed (Text.trimmed t).toList →
      normalize t = Text.trimmed t := by
    intro t h
    rw [hclosed] at h
    simp [normalize, h]
  have hother : ∀ t : String, ¬ IsClosed (Text.trimmed t).toList → normalize t = "unknown" := by
    intro t h
    rw [hclosed] at h
    simp only [normalize]
    rw [if_neg]
    simpa using h
  refine ⟨⟨fun h => ?_, hchecked s⟩, hother s, ?_⟩
  · by_contra hnot
    rw [hother s hnot] at h
    exact hnot (h ▸ hunknown)
  · by_cases h : IsClosed (Text.trimmed s).toList
    · have htwice : Text.trimmed (Text.trimmed s) = Text.trimmed s := by
        simp [Text.trimmed, Text.trim_eq_self (Text.isTrimmed_trim _)]
      rw [hchecked s h, hchecked, htwice]
      rwa [htwice]
    · rw [hother s h]
      decide

example : normalize " Map<\"a>b\", '\"'> " = "Map<\"a>b\", '\"'>" ∧ normalize "A<(B>)" = "unknown" := by
  decide

end TypeText
end ApiScribe
