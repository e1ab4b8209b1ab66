import ApiScribe.Schema
import ApiScribe.Proofs.TypeExpr.Syntax

/-! Writing type expressions without parentheses. A type that is well formed, and in which no
intersection has a union for a member, is read back from its text. -/
namespace ApiScribe
namespace TypeExpr

/-- The characters of a token, with the blanks that stand around it. -/
def Token.chars : Token → List Char
  | .word s => s.toList
  | .brackets => ['[', ']']
  | .amp => [' ', '&', ' ']
  | .bar => [' ', '|', ' ']
  | .less => ['<']
  | .greater => ['>']
  | .comma => [',', ' ']
  | .openBrace => ['\x7b', ' ']
  | .closeBrace => [' ', '\x7d']
  | .question => ['?']
  | .colon => [':', ' ']
  | .semi => [';', ' ']
  | .openParen => ['(']
  | .closeParen => [')']
  | .stray c => [c]

/-- Tokens with a separator between them. -/
def joined (sep : Token) (tss : List (List Token)) : List Token := List.intercalate [sep] tss

/-- The item of an array that is written with brackets behind it: a bare word. -/
def bareItem? (head : String) : List TypeExpr → Option String
  | [.apply s []] => if head = "Array" && Schema.isWord s then some s else none
  | _ => none

/-- The tokens of the key of a field. -/
def TypeKey.tokens (k : TypeKey) : List Token :=
  .word k.name :: if k.optional then [.question, .colon] else [.colon]

/-- The tokens of arguments. -/
def argumentTokens (tss : List (List Token)) : List Token :=
  if tss.isEmpty then [] else .less :: joined .comma tss ++ [.greater]

mutual

/-- The tokens of a type. -/
def tokens : TypeExpr → List Token
  | .apply head args =>
    match bareItem? head args with
    | some s => [.word s, .brackets]
    | none => .word head :: argumentTokens (tokensOfAll args)
  | .object fields => .openBrace :: joined .semi (tokensOfFields fields) ++ [.closeBrace]
  | .union ts => joined .bar (tokensOfAll ts)
  | .inter ts => joined .amp (tokensOfAll ts)

def tokensOfAll : List TypeExpr → List (List Token)
  | [] => []
  | t :: ts => tokens t :: tokensOfAll ts

def tokensOfFields : List (TypeKey × TypeExpr) → List (List Token)
  | [] => []
  | (k, t) :: fields => (TypeKey.tokens k ++ tokens t) :: tokensOfFields fields

end

theorem tokensOfAll_eq_map (ts : List TypeExpr) : tokensOfAll ts = ts.map tokens := by
  induction ts with
  | nil => rfl
  | cons t ts ih => rw [tokensOfAll, ih, List.map_cons]

theorem tokensOfFields_eq_map (fields : List (TypeKey × TypeExpr)) :
    tokensOfFields fields = fields.map fun f => TypeKey.tokens f.1 ++ tokens f.2 := by
  induction fields with
  | nil => rfl
  | cons f fields ih => rw [tokensOfFields, ih, List.map_cons]

/-- A type whose names are names and whose combinations are flattened, with two types at least. -/
inductive IsWellFormed : TypeExpr → Prop
  | apply {head : String} {args : List TypeExpr} (hhead : isIdentifier head = true)
      (h : ∀ t ∈ args, IsWellFormed t) : IsWellFormed (.apply head args)
  | object {fields : List (TypeKey × TypeExpr)} (hne : fields ≠ [])
      (hkeys : ∀ f ∈ fields, isIdentifier f.1.name = true) (h : ∀ f ∈ fields, IsWellFormed f.2) :
      IsWellFormed (.object fields)
  | union {ts : List TypeExpr} (hlen : 2 ≤ ts.length) (h : ∀ t ∈ ts, IsWellFormed t)
      (hu : ∀ t ∈ ts, t.isUnion = false) : IsWellFormed (.union ts)
  | inter {ts : List TypeExpr} (hlen : 2 ≤ ts.length) (h : ∀ t ∈ ts, IsWellFormed t)
      (hi : ∀ t ∈ ts, t.isInter = false) : IsWellFormed (.inter ts)

open State

/-- The type is read where a member is due. -/
def ReadsAsMember (t : TypeExpr) : Prop :=
  ∀ level stack, level.operand = none →
    run (.type level stack) (tokens t) = some (.type { level with operand := some t } stack)

/-- The type is read where an alternative is due. -/
def ReadsAsAlternative (t : TypeExpr) : Prop :=
  ∀ level stack, level.members = [] → level.operand = none → ∃ pre last,
    run (.type level stack) (tokens t) =
      some (.type { level with members := pre, operand := some last } stack) ∧
    interOf (pre ++ [last]) = t

/-- The type is read where a type is due. -/
def ReadsAsType (t : TypeExpr) : Prop :=
  ∀ stack, ∃ level, run (.type {} stack) (tokens t) = some (.type level stack) ∧
    level.close = some t

theorem ReadsAsMember.alternative {t : TypeExpr} (h : ReadsAsMember t)
    (hi : t.isInter = false) : ReadsAsAlternative t := by
  intro level stack hmembers hoperand
  refine ⟨[], t, ?_, ?_⟩
  · rw [h level stack hoperand, ← hmembers]
  · rw [List.nil_append, interOf_singleton t hi]

theorem ReadsAsAlternative.type {t : TypeExpr} (h : ReadsAsAlternative t)
    (hu : t.isUnion = false) : ReadsAsType t := by
  intro stack
  obtain ⟨pre, last, hrun, hinter⟩ := h {} stack rfl rfl
  refine ⟨_, hrun, ?_⟩
  show some (unionOf [interOf (pre ++ [last])]) = some t
  rw [hinter, unionOf_singleton t hu]

theorem joined_cons_cons (sep : Token) (ts us : List Token) (tss : List (List Token)) :
    joined sep (ts :: us :: tss) = ts ++ sep :: joined sep (us :: tss) := by
  simp [joined, List.intercalate_cons_cons]

@[simp] theorem joined_singleton (sep : Token) (ts : List Token) : joined sep [ts] = ts := by
  simp [joined]

/-- Members are read one after the other. -/
theorem run_members {ts : List TypeExpr} (hne : ts ≠ []) (h : ∀ t ∈ ts, ReadsAsMember t)
    (level : Level) (hoperand : level.operand = none) (stack : List Frame) :
    ∃ pre last, ts = pre ++ [last] ∧
      run (.type level stack) (joined .amp (ts.map tokens)) =
        some (.type { level with
          members := level.members ++ pre, operand := some last } stack) := by
  induction ts generalizing level with
  | nil => exact absurd rfl hne
  | cons t ts ih =>
    have ht := h t List.mem_cons_self level stack hoperand
    cases ts with
    | nil => exact ⟨[], t, rfl, by simpa using ht⟩
    | cons u us =>
      obtain ⟨pre, last, hts, hrun⟩ := ih (by simp) (fun v hv => h v (List.mem_cons_of_mem t hv))
        ⟨level.alternatives, level.members ++ [t], none⟩ rfl
      refine ⟨t :: pre, last, by rw [hts]; rfl, ?_⟩
      rw [List.map_cons, List.map_cons, joined_cons_cons, run_append, ht, Option.bind_some,
        run_cons]
      show run (.type ⟨level.alternatives, level.members ++ [t], none⟩ stack) _ = _
      rw [← List.map_cons, hrun]
      simp

/-- Alternatives are read one after the other. -/
theorem run_alternatives {ts : List TypeExpr} (hne : ts ≠ [])
    (h : ∀ t ∈ ts, ReadsAsAlternative t) (level : Level) (hmembers : level.members = [])
    (hoperand : level.operand = none) (stack : List Frame) :
    ∃ level', run (.type level stack) (joined .bar (ts.map tokens)) =
        some (.type level' stack) ∧
      level'.close = some (unionOf (level.alternatives ++ ts)) := by
  induction ts generalizing level with
  | nil => exact absurd rfl hne
  | cons t ts ih =>
    obtain ⟨pre, last, hrun, hinter⟩ := h t List.mem_cons_self level stack hmembers hoperand
    cases ts with
    | nil =>
      refine ⟨_, by simpa using hrun, ?_⟩
      show some (unionOf (level.alternatives ++ [interOf (pre ++ [last])])) = _
      rw [hinter]
    | cons u us =>
      obtain ⟨level', hrun', hclose⟩ := ih (by simp)
        (fun v hv => h v (List.mem_cons_of_mem t hv))
        ⟨level.alternatives ++ [t], [], none⟩ rfl rfl
      refine ⟨level', ?_, ?_⟩
      · rw [List.map_cons, List.map_cons, joined_cons_cons, run_append, hrun, Option.bind_some,
          run_cons]
        show run (.type ⟨level.alternatives ++ [interOf (pre ++ [last])], [], none⟩ stack) _ = _
        rw [hinter, ← List.map_cons, hrun']
      · rw [hclose]
        simp

/-- A token that ends the innermost bracket takes what was read inside it. -/
theorem step_of_close {level : Level} {t : TypeExpr} (h : level.close = some t)
    (stack : List Frame) {token : Token}
    (htoken : token ∈ [Token.comma, .greater, .semi, .closeBrace]) :
    step (.type level stack) token = closeFrame t stack token := by
  obtain ⟨u, hu, -⟩ := Option.map_eq_some_iff.1 h
  simp only [List.mem_cons, List.not_mem_nil, or_false] at htoken
  rcases htoken with rfl | rfl | rfl | rfl <;> simp [step, stepType, hu, h]

/-- Arguments are read one after the other. -/
theorem run_arguments {ts : List TypeExpr} (hne : ts ≠ []) (h : ∀ t ∈ ts, ReadsAsType t)
    (head : String) (done : List TypeExpr) (outer : Level) (stack : List Frame) :
    run (.type {} (.arguments head done outer :: stack))
        (joined .comma (ts.map tokens) ++ [.greater]) =
      some (.type { outer with operand := some (.apply head (done ++ ts)) } stack) := by
  induction ts generalizing done with
  | nil => exact absurd rfl hne
  | cons t ts ih =>
    obtain ⟨level, hrun, hclose⟩ :=
      h t List.mem_cons_self (.arguments head done outer :: stack)
    cases ts with
    | nil =>
      rw [List.map_singleton, joined_singleton, run_append, hrun, Option.bind_some, run_cons,
        step_of_close hclose _ (by decide)]
      rfl
    | cons u us =>
      have hrest := ih (by simp) (fun v hv => h v (List.mem_cons_of_mem t hv)) (done ++ [t])
      rw [List.map_cons, List.map_cons, joined_cons_cons, List.append_assoc, run_append, hrun,
        Option.bind_some, List.cons_append, run_cons, step_of_close hclose _ (by decide)]
      show run (.type {} (.arguments head (done ++ [t]) outer :: stack)) _ = _
      rw [← List.map_cons, hrest]
      simp

/-- A key is read before the type of its field. -/
theorem run_key (k : TypeKey) (fields : List (TypeKey × TypeExpr)) (outer : Level)
    (stack : List Frame) :
    run (.key fields outer stack) (TypeKey.tokens k) =
      some (.type {} (.field fields k outer :: stack)) := by
  obtain ⟨name, optional⟩ := k
  cases optional <;> rfl

/-- Fields are read one after the other. -/
theorem run_fields {fields : List (TypeKey × TypeExpr)} (hne : fields ≠ [])
    (h : ∀ f ∈ fields, ReadsAsType f.2) (done : List (TypeKey × TypeExpr)) (outer : Level)
    (stack : List Frame) :
    run (.key done outer stack)
        (joined .semi (fields.map fun f => TypeKey.tokens f.1 ++ tokens f.2) ++ [.closeBrace]) =
      some (.type { outer with operand := some (.object (done ++ fields)) } stack) := by
  induction fields generalizing done with
  | nil => exact absurd rfl hne
  | cons f fields ih =>
    obtain ⟨level, hrun, hclose⟩ := h f List.mem_cons_self (.field done f.1 outer :: stack)
    cases fields with
    | nil =>
      rw [List.map_singleton, joined_singleton, List.append_assoc, run_append, run_key,
        Option.bind_some, run_append, hrun, Option.bind_some, run_cons,
        step_of_close hclose _ (by decide)]
      rfl
    | cons g gs =>
      have hrest := ih (by simp) (fun e he => h e (List.mem_cons_of_mem f he)) (done ++ [f])
      rw [List.map_cons, List.map_cons, joined_cons_cons, List.append_assoc, List.append_assoc,
        run_append, run_key, Option.bind_some, run_append, hrun, Option.bind_some,
        List.cons_append, run_cons, step_of_close hclose _ (by decide)]
      show run (.key (done ++ [f]) outer stack) _ = _
      rw [List.map_cons] at hrest
      rw [hrest, List.append_assoc, List.singleton_append]

/-- A type is read back from its tokens in each of the places where it can stand. -/
structure Reads (t : TypeExpr) : Prop where
  member (hu : t.isUnion = false) (hi : t.isInter = false) : ReadsAsMember t
  alternative (hu : t.isUnion = false) : ReadsAsAlternative t
  type : ReadsAsType t

theorem ReadsAsMember.reads {t : TypeExpr} (h : ReadsAsMember t) (hu : t.isUnion = false)
    (hi : t.isInter = false) : Reads t :=
  ⟨fun _ _ => h, fun _ => h.alternative hi, (h.alternative hi).type hu⟩

theorem unionOf_eq_union {ts : List TypeExpr} (hlen : 2 ≤ ts.length)
    (hu : ∀ t ∈ ts, t.isUnion = false) : unionOf ts = .union ts := by
  rw [unionOf, flatMap_alternatives_of_not_isUnion hu]
  rcases ts with _ | ⟨t, _ | ⟨u, ts⟩⟩
  · cases hlen
  · exact absurd hlen (by simp)
  · rfl

theorem interOf_eq_inter {ts : List TypeExpr} (hlen : 2 ≤ ts.length)
    (hi : ∀ t ∈ ts, t.isInter = false) : interOf ts = .inter ts := by
  rw [interOf, flatMap_members_of_not_isInter hi]
  rcases ts with _ | ⟨t, _ | ⟨u, ts⟩⟩
  · cases hlen
  · exact absurd hlen (by simp)
  · rfl

theorem ne_nil_of_two_le {α : Type} {xs : List α} (h : 2 ≤ xs.length) : xs ≠ [] :=
  List.ne_nil_of_length_pos (by omega)

theorem bareItem?_eq_some {head : String} {args : List TypeExpr} {s : String}
    (h : bareItem? head args = some s) : head = "Array" ∧ args = [named s] := by
  unfold bareItem? at h
  split at h
  · split at h
    · rename_i hhead
      cases h
      exact ⟨by simp_all, rfl⟩
    · cases h
  · cases h

theorem readsAsMember_apply {head : String} {args : List TypeExpr}
    (h : ∀ t ∈ args, ReadsAsType t) : ReadsAsMember (.apply head args) := by
  intro level stack hoperand
  rw [tokens]
  cases hbare : bareItem? head args with
  | some s =>
    obtain ⟨rfl, rfl⟩ := bareItem?_eq_some hbare
    simp [run_cons, step, stepType, hoperand, array]
  | none =>
    rw [tokensOfAll_eq_map]
    cases args with
    | nil => simp [argumentTokens, run_cons, step, stepType, hoperand, named]
    | cons t ts =>
      have hargs := run_arguments (List.cons_ne_nil t ts) h head [] { level with operand := none }
        stack
      simpa [argumentTokens, run_cons, step, stepType, hoperand, named] using hargs

theorem readsAsMember_object {fields : List (TypeKey × TypeExpr)} (hne : fields ≠ [])
    (h : ∀ f ∈ fields, ReadsAsType f.2) : ReadsAsMember (.object fields) := by
  intro level stack hoperand
  have hfields := run_fields hne h [] level stack
  rw [tokens, tokensOfFields_eq_map]
  simpa [run_cons, step, stepType, hoperand] using hfields

theorem readsAsType_union {ts : List TypeExpr} (hlen : 2 ≤ ts.length)
    (hu : ∀ t ∈ ts, t.isUnion = false) (h : ∀ t ∈ ts, ReadsAsAlternative t) :
    ReadsAsType (.union ts) := by
  intro stack
  obtain ⟨level, hrun, hclose⟩ := run_alternatives (ne_nil_of_two_le hlen) h {} rfl rfl stack
  refine ⟨level, ?_, ?_⟩
  · rw [tokens, tokensOfAll_eq_map, hrun]
  · rw [hclose, List.nil_append, unionOf_eq_union hlen hu]

theorem readsAsAlternative_inter {ts : List TypeExpr} (hlen : 2 ≤ ts.length)
    (hi : ∀ t ∈ ts, t.isInter = false) (h : ∀ t ∈ ts, ReadsAsMember t) :
    ReadsAsAlternative (.inter ts) := by
  intro level stack hmembers hoperand
  obtain ⟨pre, last, hts, hrun⟩ := run_members (ne_nil_of_two_le hlen) h level hoperand stack
  refine ⟨pre, last, ?_, ?_⟩
  · rw [tokens, tokensOfAll_eq_map, hrun, hmembers, List.nil_append]
  · rw [← hts, interOf_eq_inter hlen hi]

/-- A well-formed type that needs no parentheses is read back wherever it can stand. -/
theorem IsWellFormed.reads {t : TypeExpr} (h : IsWellFormed t) (hflat : IsFlat t) : Reads t := by
  induction h with
  | apply hhead h ih =>
    cases hflat with
    | apply hargs =>
      exact (readsAsMember_apply fun t ht => (ih t ht (hargs t ht)).type).reads rfl rfl
  | object hne hkeys h ih =>
    cases hflat with
    | object hfields =>
      exact (readsAsMember_object hne fun f hf => (ih f hf (hfields f hf)).type).reads rfl rfl
  | union hlen h hu ih =>
    cases hflat with
    | union hts =>
      have halternatives := fun t ht => (ih t ht (hts t ht)).alternative (hu t ht)
      exact ⟨fun hu => (by cases hu), fun hu => (by cases hu),
        readsAsType_union hlen hu halternatives⟩
  | inter hlen h hi ih =>
    cases hflat with
    | inter hts hu =>
      have hmembers := fun t ht => (ih t ht (hts t ht)).member (hu t ht) (hi t ht)
      have halternative := readsAsAlternative_inter hlen hi hmembers
      exact ⟨fun _ hi => (by cases hi), fun _ => halternative, halternative.type rfl⟩

/-- A well-formed type that needs no parentheses is read back from its tokens. -/
theorem ofTokens_tokens {t : TypeExpr} (h : IsWellFormed t) (hflat : IsFlat t) :
    ofTokens (tokens t) = some t := by
  obtain ⟨level, hrun, hclose⟩ := (h.reads hflat).type []
  rw [ofTokens, hrun, Option.bind_some]
  exact hclose

end TypeExpr

/-! The text of a type. Signs stand between the names of a type, so the tokens of its text are its
own tokens; and types that are read back have texts of their own. -/

namespace TypeExpr

/-- The characters of tokens. -/
def charsOf (ts : List Token) : List Char := ts.flatMap Token.chars

@[simp] theorem charsOf_nil : charsOf [] = [] := rfl

@[simp] theorem charsOf_cons (t : Token) (ts : List Token) :
    charsOf (t :: ts) = t.chars ++ charsOf ts := rfl

@[simp] theorem charsOf_append (ts us : List Token) :
    charsOf (ts ++ us) = charsOf ts ++ charsOf us := List.flatMap_append

/-- The text of a type. -/
def text (t : TypeExpr) : String := String.ofList (charsOf (tokens t))

/-- No name goes on at the start of these characters. -/
def EndsName (cs : List Char) : Prop := ∀ c ∈ cs.head?, isNameChar c = false

/-- Tokens that are read back from their characters, if no name goes on behind them. -/
def Lexes (ts : List Token) : Prop :=
  ∀ rest, EndsName rest → Token.ofChars (charsOf ts ++ rest) = ts ++ Token.ofChars rest

/-- A token between names: a sign with its blanks. -/
def Token.isSign : Token → Bool
  | .word _ | .stray _ => false
  | _ => true

theorem endsName_sign {t : Token} (h : t.isSign = true) (cs : List Char) :
    EndsName (t.chars ++ cs) := by
  cases t with
  | word _ | stray _ => cases h
  | _ =>
    intro c hc
    cases hc
    decide

theorem ofChars_sign {t : Token} (h : t.isSign = true) (cs : List Char) :
    Token.ofChars (t.chars ++ cs) = t :: Token.ofChars cs := by
  cases t with
  | word _ | stray _ => cases h
  | _ => rfl

theorem isNameChar_of_isNameStart {c : Char} (h : isNameStart c = true) :
    isNameChar c = true := by
  simp only [isNameStart, isNameChar, Char.isAlphanum, Bool.or_eq_true] at h ⊢
  rcases h with (h | h) | h <;> simp [h]

theorem isNameChar_of_isIdentifier {s : String} (h : isIdentifier s = true) :
    ∀ c ∈ s.toList, isNameChar c = true := by
  unfold isIdentifier at h
  split at h
  · rename_i c cs hs
    rw [Bool.and_eq_true, List.all_eq_true] at h
    rw [hs]
    exact List.forall_mem_cons.2 ⟨isNameChar_of_isNameStart h.1, h.2⟩
  · cases h

theorem ne_empty_of_isIdentifier {s : String} (h : isIdentifier s = true) : s.toList ≠ [] := by
  intro hs
  simp [isIdentifier, hs] at h

/-- Inside a name a character is kept for it. -/
theorem ofCharsFrom_cons_of_isNameChar {c : Char} (h : isNameChar c = true)
    (word cs : List Char) :
    Token.ofCharsFrom word (c :: cs) = Token.ofCharsFrom (c :: word) cs := by
  have hc : c ≠ '[' := by
    rintro rfl
    exact absurd h (by decide)
  rw [Token.ofCharsFrom]
  · rw [if_pos h]
  · rintro ds rfl -
    exact hc rfl

/-- Where no name goes on, the one under way ends. -/
theorem ofCharsFrom_of_endsName (word : List Char) {cs : List Char} (h : EndsName cs) :
    Token.ofCharsFrom word cs = Token.ofWord word ++ Token.ofChars cs := by
  unfold Token.ofChars
  fun_cases Token.ofCharsFrom word cs with
  | case1 => simp [Token.ofCharsFrom, Token.ofWord]
  | case2 cs => simp [Token.ofCharsFrom, Token.ofWord]
  | case3 c cs hbrackets hname => exact absurd (h c rfl) (by simp [hname])
  | case4 c cs hbrackets hname =>
    rw [Token.ofCharsFrom, if_neg hname]
    · simp [Token.ofWord]
    · exact hbrackets

/-- A name is read to its end. -/
theorem ofCharsFrom_name {name : List Char} (h : ∀ c ∈ name, isNameChar c = true)
    (word : List Char) {rest : List Char} (hrest : EndsName rest) :
    Token.ofCharsFrom word (name ++ rest) =
      Token.ofWord (name.reverse ++ word) ++ Token.ofChars rest := by
  induction name generalizing word with
  | nil => exact ofCharsFrom_of_endsName word hrest
  | cons c cs ih =>
    rw [List.cons_append, ofCharsFrom_cons_of_isNameChar (h c List.mem_cons_self),
      ih fun d hd => h d (List.mem_cons_of_mem c hd)]
    simp

theorem Lexes.nil : Lexes [] := fun _ _ => rfl

theorem Lexes.word {s : String} (h : isIdentifier s = true) : Lexes [.word s] := by
  intro rest hrest
  have hne := ne_empty_of_isIdentifier h
  rw [charsOf_cons, charsOf_nil, List.append_nil]
  show Token.ofCharsFrom [] (s.toList ++ rest) = _
  rw [ofCharsFrom_name (isNameChar_of_isIdentifier h) [] hrest]
  simp [Token.ofWord, hne]

/-- A sign keeps apart what stands before and behind it. -/
theorem Lexes.append_sign {ts us : List Token} (ht : Lexes ts) (hu : Lexes us) {sign : Token}
    (h : sign.isSign = true) : Lexes (ts ++ sign :: us) := by
  intro rest hrest
  rw [charsOf_append, charsOf_cons, List.append_assoc, List.append_assoc,
    ht _ (endsName_sign h _), ofChars_sign h, hu rest hrest]
  simp

theorem Lexes.sign_cons {us : List Token} (hu : Lexes us) {sign : Token}
    (h : sign.isSign = true) : Lexes (sign :: us) :=
  Lexes.nil.append_sign hu h

theorem Lexes.append_last {ts : List Token} (ht : Lexes ts) {sign : Token}
    (h : sign.isSign = true) : Lexes (ts ++ [sign]) :=
  ht.append_sign Lexes.nil h

theorem lexes_joined {sign : Token} (h : sign.isSign = true) {tss : List (List Token)}
    (hall : ∀ ts ∈ tss, Lexes ts) : Lexes (joined sign tss) := by
  induction tss with
  | nil => exact Lexes.nil
  | cons ts tss ih =>
    have ht := hall ts List.mem_cons_self
    have hrest := ih fun us hu => hall us (List.mem_cons_of_mem ts hu)
    cases tss with
    | nil => simpa using ht
    | cons us tss =>
      rw [joined_cons_cons]
      exact ht.append_sign hrest h

theorem lexes_key {k : TypeKey} (h : isIdentifier k.name = true) {ts : List Token}
    (ht : Lexes ts) : Lexes (TypeKey.tokens k ++ ts) := by
  obtain ⟨name, optional⟩ := k
  cases optional with
  | false => exact (Lexes.word h).append_sign ht rfl
  | true => exact (Lexes.word h).append_sign (ht.sign_cons rfl) rfl

/-- The tokens of a well-formed type are read back from its characters. -/
theorem IsWellFormed.lexes {t : TypeExpr} (h : IsWellFormed t) : Lexes (tokens t) := by
  induction h with
  | @apply head args hhead h ih =>
    rw [tokens]
    cases hbare : bareItem? head args with
    | some s =>
      obtain ⟨rfl, rfl⟩ := bareItem?_eq_some hbare
      have hs := h _ List.mem_cons_self
      cases hs with
      | apply hs _ => exact (Lexes.word hs).append_last rfl
    | none =>
      rw [tokensOfAll_eq_map]
      cases args with
      | nil => exact Lexes.word hhead
      | cons t ts =>
        have hargs : Lexes (joined .comma ((t :: ts).map tokens)) :=
          lexes_joined rfl (by simpa using ih)
        exact (Lexes.word hhead).append_sign (hargs.append_last rfl) rfl
  | object hne hkeys h ih =>
    rw [tokens, tokensOfFields_eq_map]
    refine Lexes.sign_cons (Lexes.append_last (lexes_joined rfl fun ts hts => ?_) rfl) rfl
    obtain ⟨f, hf, rfl⟩ := List.mem_map.1 hts
    exact lexes_key (hkeys f hf) (ih f hf)
  | union hlen h hu ih =>
    rw [tokens, tokensOfAll_eq_map]
    exact lexes_joined rfl (by simpa using ih)
  | inter hlen h hi ih =>
    rw [tokens, tokensOfAll_eq_map]
    exact lexes_joined rfl (by simpa using ih)

theorem ofChars_tokens {t : TypeExpr} (h : IsWellFormed t) :
    Token.ofChars (charsOf (tokens t)) = tokens t := by
  have hlexes := h.lexes [] (by simp [EndsName])
  simpa [Token.ofChars, Token.ofCharsFrom, Token.ofWord] using hlexes

/-- A well-formed type that needs no parentheses is read back from its text. -/
theorem read_text {t : TypeExpr} (h : IsWellFormed t) (hflat : IsFlat t) :
    read (text t) = some t := by
  rw [read, text, String.toList_ofList, ofChars_tokens h, ofTokens_tokens h hflat]

/-- Different types that need no parentheses have different texts. -/
theorem text_injective {t u : TypeExpr} (ht : IsWellFormed t) (hu : IsWellFormed u)
    (htflat : IsFlat t) (huflat : IsFlat u) (h : text t = text u) : t = u := by
  have hread := read_text ht htflat
  rw [h, read_text hu huflat] at hread
  exact (Option.some.inj hread).symm

end TypeExpr
end ApiScribe
