import ApiScribe.Proofs.Schema.Shape
import ApiScribe.Proofs.Text.Standing
import ApiScribe.Proofs.TypeExpr.Combining
import ApiScribe.Proofs.TypeExpr.Parentheses

/-! The type that a schema describes. It is put together from the types of the schemas inside: the
union of the alternatives, the intersection of the members, the array of the items and so on. If no
intersection in it has a union for a member, its text is the one that is written for the schema. -/
namespace ApiScribe
namespace Schema
open TypeExpr

/-- The type of combined types, each taken once. Nothing combined is anything. -/
def Combination.type (c : Combination) (ts : List TypeExpr) : TypeExpr :=
  if ts.isEmpty then unknown
  else match c with
    | .union => unionOf ts.eraseDups
    | .inter => interOf ts.eraseDups

/-- The type that a schema with this top describes. -/
def Shape.type (f : Value → TypeExpr) : Shape → TypeExpr
  | .name type => .named type
  | .combination c parts => c.type (parts.map f)
  | .array item => .array (f item)
  | .object fields => .object (fields.map fun p => (p.1, f p.2))
  | .record value => .record (f value)

/-- The type that a schema describes. -/
def described (schema : Value) : TypeExpr :=
  match h : shape schema with
  | .ok (.name type) => .named type
  | .ok (.combination c parts) => c.type (parts.attach.map fun ⟨x, hx⟩ =>
      have := size_shape h hx
      described x)
  | .ok (.array item) =>
    have := size_shape h List.mem_cons_self
    .array (described item)
  | .ok (.object fields) => .object (fields.attach.map fun ⟨p, hp⟩ =>
      have := size_shape h (List.mem_map.2 ⟨p, hp, rfl⟩)
      (p.1, described p.2))
  | .ok (.record value) =>
    have := size_shape h List.mem_cons_self
    .record (described value)
  | .error _ => unknown
termination_by sizeOf schema
decreasing_by all_goals exact this

theorem described_eq {v : Value} {s : Shape} (h : shape v = .ok s) :
    described v = s.type described := by
  rw [described]
  split <;> rename_i h' <;> rw [h] at h' <;> cases h'
  · rfl
  · simp [Shape.type]
  · rfl
  · rw [Shape.type, List.map_subtype (g := fun p => (p.1, described p.2)) fun _ _ => rfl,
      List.unattach_attach]
  · rfl

/-- The type of alternatives holds what one of them holds, though each is taken once. -/
theorem denote_type_union {α : Type} (I : Interpretation α) {ts : List TypeExpr} (hne : ts ≠ [])
    (x : α) : denote I (Combination.union.type ts) x ↔ ∃ t ∈ ts, denote I t x := by
  have hempty : ¬ts.isEmpty = true := by simpa using hne
  unfold Combination.type
  rw [if_neg hempty, denote_unionOf]
  simp only [List.mem_eraseDups]

/-- The type of members holds what all of them hold, though each is taken once. -/
theorem denote_type_inter {α : Type} (I : Interpretation α) {ts : List TypeExpr} (hne : ts ≠ [])
    (x : α) : denote I (Combination.inter.type ts) x ↔ ∀ t ∈ ts, denote I t x := by
  have hempty : ¬ts.isEmpty = true := by simpa using hne
  unfold Combination.type
  rw [if_neg hempty, denote_interOf]
  simp only [List.mem_eraseDups]

/-- A schema that has a type, and whose references and properties all have identifiers for
names. -/
inductive IsPlain : Value → Prop
  | intro {v : Value} {s : Shape} (h : shape v = .ok s)
      (hnames : ∀ name ∈ s.names, isIdentifier name = true) (hparts : ∀ x ∈ s.parts, IsPlain x) :
      IsPlain v

theorem isWellFormed_unknown : IsWellFormed unknown := .apply (by decide) (by simp)

theorem eraseDups_ne_nil {α : Type} [BEq α] {xs : List α} (h : xs ≠ []) : xs.eraseDups ≠ [] := by
  cases xs with
  | nil => exact absurd rfl h
  | cons x xs => simp [List.eraseDups_cons]

theorem isWellFormed_type (c : Combination) {ts : List TypeExpr}
    (h : ∀ t ∈ ts, IsWellFormed t) : IsWellFormed (c.type ts) := by
  unfold Combination.type
  split
  · exact isWellFormed_unknown
  · rename_i hne
    have hne' : ts.eraseDups ≠ [] := eraseDups_ne_nil (by simpa using hne)
    have hall : ∀ t ∈ ts.eraseDups, IsWellFormed t := fun t ht => h t (List.mem_eraseDups.1 ht)
    cases c with
    | union => exact isWellFormed_unionOf hne' hall
    | inter => exact isWellFormed_interOf hne' hall

/-- The type that a plain schema describes is well formed. -/
theorem IsPlain.isWellFormed {v : Value} (h : IsPlain v) : IsWellFormed (described v) := by
  induction h with
  | @intro v s h hnames hparts ih =>
    rw [described_eq h]
    cases s with
    | name type => exact .apply (hnames type List.mem_cons_self) (by simp)
    | combination c parts =>
      refine isWellFormed_type c fun t ht => ?_
      obtain ⟨x, hx, rfl⟩ := List.mem_map.1 ht
      exact ih x hx
    | array item =>
      have hitem := ih item List.mem_cons_self
      exact .apply (by decide) (by simpa using hitem)
    | object fields =>
      have hne : fields ≠ [] := fields_ne_nil h
      refine .object (by simpa using hne) (fun f hf => ?_) fun f hf => ?_
      · obtain ⟨p, hp, rfl⟩ := List.mem_map.1 hf
        exact hnames p.1.name (List.mem_map.2 ⟨p, hp, rfl⟩)
      · obtain ⟨p, hp, rfl⟩ := List.mem_map.1 hf
        exact ih p.2 (List.mem_map.2 ⟨p, hp, rfl⟩)
    | record value =>
      have hstring : IsWellFormed (.named "string") := .apply (by decide) (by simp)
      have hvalue := ih value List.mem_cons_self
      exact .apply (by decide) (by simp [hstring, hvalue])

end Schema
end ApiScribe

/-! Reading the type text of a schema. No parentheses are ever written, so the text is read as the
type that the schema describes just if that type needs none. -/
namespace ApiScribe
namespace Schema
open TypeExpr

theorem text_named (s : String) : text (.named s) = s := by
  simp [text, TypeExpr.named, tokens, bareItem?, tokensOfAll, argumentTokens, Token.chars]

theorem mem_joined (sep : Token) {tss : List (List Token)} (h : 2 ≤ tss.length) :
    sep ∈ joined sep tss := by
  match tss, h with
  | ts :: us :: tss, _ => simp [joined_cons_cons]

/-- A type that is no name has a sign among its tokens. -/
theorem exists_sign {t : TypeExpr} (h : IsWellFormed t) (hnamed : ∀ s, t ≠ .named s) :
    ∃ sign ∈ tokens t, sign.isSign = true := by
  cases h with
  | @apply head args hhead hargs =>
    rw [tokens]
    cases hbare : bareItem? head args with
    | some s => exact ⟨.brackets, by simp, rfl⟩
    | none =>
      cases args with
      | nil => exact absurd rfl (hnamed head)
      | cons t ts => exact ⟨.less, by simp [argumentTokens, tokensOfAll], rfl⟩
  | object => exact ⟨.openBrace, by simp [tokens], rfl⟩
  | union hlen =>
    rw [tokens, tokensOfAll_eq_map]
    exact ⟨.bar, mem_joined .bar (by simpa using hlen), rfl⟩
  | inter hlen =>
    rw [tokens, tokensOfAll_eq_map]
    exact ⟨.amp, mem_joined .amp (by simpa using hlen), rfl⟩

/-- A sign has a character that is in no word. -/
theorem exists_char_of_isSign {t : Token} (h : t.isSign = true) :
    ∃ c ∈ t.chars, c ≠ '_' ∧ Text.isAlphanumeric c = false := by
  cases t with
  | word _ | stray _ => cases h
  | brackets => exact ⟨'[', by decide, by decide, by decide⟩
  | amp => exact ⟨'&', by decide, by decide, by decide⟩
  | bar => exact ⟨'|', by decide, by decide, by decide⟩
  | less => exact ⟨'<', by decide, by decide, by decide⟩
  | greater => exact ⟨'>', by decide, by decide, by decide⟩
  | comma => exact ⟨',', by decide, by decide, by decide⟩
  | openBrace => exact ⟨'\x7b', by decide, by decide, by decide⟩
  | closeBrace => exact ⟨'\x7d', by decide, by decide, by decide⟩
  | question => exact ⟨'?', by decide, by decide, by decide⟩
  | colon => exact ⟨':', by decide, by decide, by decide⟩
  | semi => exact ⟨';', by decide, by decide, by decide⟩
  | openParen => exact ⟨'(', by decide, by decide, by decide⟩
  | closeParen => exact ⟨')', by decide, by decide, by decide⟩

/-- Only the text of a name is a word. -/
theorem named_of_isWord_text {t : TypeExpr} (h : IsWellFormed t)
    (hword : isWord (text t) = true) : ∃ s, t = .named s := by
  by_contra hnamed
  obtain ⟨sign, hsign, his⟩ := exists_sign h fun s hs => hnamed ⟨s, hs⟩
  obtain ⟨c, hc, hne, hnot⟩ := exists_char_of_isSign his
  have hmem : c ∈ (text t).toList := by
    rw [text, String.toList_ofList]
    exact List.mem_flatMap.2 ⟨sign, hsign, hc⟩
  simp only [isWord, Bool.and_eq_true, List.all_eq_true] at hword
  have halpha := hword.2 c (List.mem_filter.2 ⟨hmem, by simpa using hne⟩)
  rw [hnot] at halpha
  cases halpha

theorem text_array {t : TypeExpr} (h : IsWellFormed t) :
    text (.array t) = arrayText (text t) := by
  unfold arrayText
  split
  · rename_i hword
    obtain ⟨s, rfl⟩ := named_of_isWord_text h hword
    rw [text_named] at hword ⊢
    simp [text, TypeExpr.array, TypeExpr.named, tokens, bareItem?, hword, Token.chars]
  · rename_i hword
    have hbare : bareItem? "Array" [t] = none := by
      unfold bareItem?
      split
      · rename_i s heq
        cases heq
        have htext := text_named s
        unfold TypeExpr.named at htext
        rw [htext] at hword
        simp [hword]
      · rfl
    simp [text, TypeExpr.array, tokens, hbare, tokensOfAll, argumentTokens, Token.chars,
      ← String.toList_inj]

theorem text_record (t : TypeExpr) :
    text (.record t) = "Record<string, " ++ text t ++ ">" := by
  simp [text, TypeExpr.record, TypeExpr.named, tokens, bareItem?, tokensOfAll, argumentTokens,
    joined_cons_cons, Token.chars, ← String.toList_inj]

theorem text_field (k : TypeKey) (t : TypeExpr) :
    String.ofList (charsOf (TypeKey.tokens k ++ tokens t)) = Shape.fieldText k (text t) := by
  obtain ⟨name, optional⟩ := k
  cases optional <;>
    simp [TypeKey.tokens, Token.chars, text, Shape.fieldText, ← String.toList_inj]

theorem text_object (fields : List (TypeKey × TypeExpr)) :
    text (.object fields) = objectText (fields.map fun f => Shape.fieldText f.1 (text f.2)) := by
  have hjoined := ofList_charsOf_joined .semi "; " (by decide)
    (fields.map fun f => TypeKey.tokens f.1 ++ tokens f.2)
  rw [List.map_map] at hjoined
  simp only [Function.comp_def, text_field] at hjoined
  rw [objectText, ← hjoined, text, tokens, tokensOfFields_eq_map]
  simp [Token.chars, ← String.toList_inj]

/-- Taking each thing once commutes with a function that keeps the things apart. -/
theorem eraseDups_map {α β : Type} [DecidableEq α] [DecidableEq β] {f : α → β} {xs : List α}
    (hf : ∀ x ∈ xs, ∀ y ∈ xs, f x = f y → x = y) :
    (xs.map f).eraseDups = xs.eraseDups.map f := by
  induction hn : xs.length using Nat.strongRecOn generalizing xs with
  | ind n ih =>
    cases xs with
    | nil => rfl
    | cons x xs =>
      have hrest : (xs.map f).filter (fun y => !y == f x) =
          (xs.filter fun y => !y == x).map f := by
        rw [List.filter_map]
        refine congrArg (List.map f) (List.filter_congr fun y hy => ?_)
        have hxy : f y = f x ↔ y = x :=
          ⟨hf y (List.mem_cons_of_mem x hy) x List.mem_cons_self, congrArg f⟩
        simp [hxy]
      have hlen := List.length_filter_le (fun y => !y == x) xs
      rw [List.map_cons, List.eraseDups_cons, hrest, List.eraseDups_cons, List.map_cons,
        ih _ (by rw [← hn, List.length_cons]; omega) ?_ rfl]
      intro y hy z hz
      exact hf y (List.mem_cons_of_mem x (List.mem_of_mem_filter hy)) z
        (List.mem_cons_of_mem x (List.mem_of_mem_filter hz))

/-- The parts of a flat combination are flat. -/
theorem isFlat_of_type {c : Combination} {ts : List TypeExpr} (hts : ∀ t ∈ ts, IsWellFormed t)
    (h : IsFlat (c.type ts)) : ∀ t ∈ ts, IsFlat t := by
  intro t ht
  have hne : ¬ts.isEmpty = true := by simpa using List.ne_nil_of_mem ht
  have hmem : t ∈ ts.eraseDups := List.mem_eraseDups.2 ht
  unfold Combination.type at h
  rw [if_neg hne] at h
  cases c with
  | union => exact isFlat_of_unionOf h t hmem
  | inter =>
    exact isFlat_of_interOf (fun u hu => hts u (List.mem_eraseDups.1 hu)) h t hmem

/-- The text of a combination, if none of its parts needs parentheses. -/
theorem text_type (c : Combination) {ts : List TypeExpr} (h : ∀ t ∈ ts, IsWellFormed t)
    (hflat : ∀ t ∈ ts, IsFlat t) : text (c.type ts) = c.text (ts.map text) := by
  have hdups := eraseDups_map fun t ht u hu =>
    text_injective (h t ht) (h u hu) (hflat t ht) (hflat u hu)
  have hall : ∀ t ∈ ts.eraseDups, IsWellFormed t := fun t ht => h t (List.mem_eraseDups.1 ht)
  unfold Combination.type
  split
  · rename_i hempty
    obtain rfl := List.isEmpty_iff.1 hempty
    cases c <;> exact text_named "unknown"
  · rename_i hempty
    have hmap : (ts.map text).isEmpty = false := by simpa using hempty
    cases c with
    | union => simp only [text_unionOf hall, Combination.text, unionText, hmap, dedupe, hdups]; rfl
    | inter =>
      simp only [text_interOf hall, Combination.text, intersectionText, hmap, dedupe, hdups]
      rfl

/-- If the type that a plain schema describes needs no parentheses, its text is written. -/
theorem IsPlain.typeText_eq_text {v : Value} (h : IsPlain v) (hflat : IsFlat (described v)) :
    typeText v = .ok (text (described v)) := by
  induction h with
  | @intro v s h hnames hparts ih =>
    rw [typeText_eq, h]
    rw [described_eq h] at hflat ⊢
    show s.text typeText = _
    cases s with
    | name type => rw [Shape.type, text_named]; rfl
    | combination c parts =>
      have hwf : ∀ t ∈ parts.map described, IsWellFormed t := by
        intro t ht
        obtain ⟨x, hx, rfl⟩ := List.mem_map.1 ht
        exact (hparts x hx).isWellFormed
      have hall := isFlat_of_type hwf hflat
      have hmap : parts.mapM typeText = .ok (parts.map fun x => text (described x)) :=
        Outcome.mapM_eq_ok_map fun x hx => ih x hx (hall _ (List.mem_map_of_mem hx))
      rw [Shape.type, text_type c hwf hall, Shape.text, hmap, List.map_map]
      rfl
    | array item =>
      have hwf := (hparts item List.mem_cons_self).isWellFormed
      cases hflat with
      | apply hargs =>
        have hitem := ih item List.mem_cons_self (hargs _ List.mem_cons_self)
        rw [Shape.type, text_array hwf, Shape.text, hitem]
        rfl
    | object fields =>
      cases hflat with
      | object hfields =>
        have hmap : (fields.mapM fun p => Shape.fieldText p.1 <$> typeText p.2) =
            .ok (fields.map fun p => Shape.fieldText p.1 (text (described p.2))) := by
          refine Outcome.mapM_eq_ok_map fun p hp => ?_
          have hfield := hfields _ (List.mem_map_of_mem hp)
          rw [ih p.2 (List.mem_map_of_mem hp) hfield]
          rfl
        rw [Shape.type, text_object, Shape.text, hmap, List.map_map]
        rfl
    | record value =>
      cases hflat with
      | apply hargs =>
        have hvalue := ih value List.mem_cons_self
          (hargs _ (List.mem_cons_of_mem _ List.mem_cons_self))
        rw [Shape.type, text_record, Shape.text, hvalue]
        rfl

theorem openParen_not_mem_combination (c : Combination) {xs : List String}
    (h : ∀ x ∈ xs, '(' ∉ x.toList) : '(' ∉ (c.text xs).toList := by
  have hdups : ∀ x ∈ dedupe xs, '(' ∉ x.toList := fun x hx => h x (List.mem_eraseDups.1 hx)
  cases c with
  | union =>
    show '(' ∉ (unionText xs).toList
    unfold unionText
    split
    · decide
    · exact Text.not_mem_intercalate _ (by decide) hdups
  | inter =>
    show '(' ∉ (intersectionText xs).toList
    unfold intersectionText
    split
    · decide
    · exact Text.not_mem_intercalate _ (by decide) hdups

theorem openParen_not_mem_of_isIdentifier {s : String} (h : isIdentifier s = true) :
    '(' ∉ s.toList := by
  intro hmem
  exact absurd (isNameChar_of_isIdentifier h '(' hmem) (by decide)

theorem openParen_not_mem_arrayText {s : String} (h : '(' ∉ s.toList) :
    '(' ∉ (arrayText s).toList := by
  unfold arrayText
  split <;> simp [h]

theorem openParen_not_mem_fieldText {k : TypeKey} (hk : isIdentifier k.name = true) {s : String}
    (h : '(' ∉ s.toList) : '(' ∉ (Shape.fieldText k s).toList := by
  have hname := openParen_not_mem_of_isIdentifier hk
  unfold Shape.fieldText
  split <;> simp [h, hname]

/-- A plain schema has a type text, and no parenthesis opens in it. -/
theorem IsPlain.exists_typeText {v : Value} (h : IsPlain v) :
    ∃ t, typeText v = .ok t ∧ '(' ∉ t.toList := by
  induction h with
  | @intro v s h hnames hparts ih =>
    rw [typeText_eq, h]
    show ∃ t, s.text typeText = .ok t ∧ _
    cases s with
    | name type =>
      exact ⟨type, rfl, openParen_not_mem_of_isIdentifier (hnames type List.mem_cons_self)⟩
    | combination c parts =>
      obtain ⟨ts, hts, hall⟩ := Outcome.exists_mapM_eq_ok ih
      exact ⟨c.text ts, Outcome.map_eq_ok.2 ⟨ts, hts, rfl⟩, openParen_not_mem_combination c hall⟩
    | array item =>
      obtain ⟨t, ht, hnot⟩ := ih item List.mem_cons_self
      exact ⟨arrayText t, Outcome.map_eq_ok.2 ⟨t, ht, rfl⟩, openParen_not_mem_arrayText hnot⟩
    | object fields =>
      have hfields : ∀ p ∈ fields, ∃ t, Shape.fieldText p.1 <$> typeText p.2 = .ok t ∧
          '(' ∉ t.toList := by
        intro p hp
        obtain ⟨t, ht, hnot⟩ := ih p.2 (List.mem_map_of_mem hp)
        exact ⟨_, Outcome.map_eq_ok.2 ⟨t, ht, rfl⟩,
          openParen_not_mem_fieldText (hnames p.1.name (List.mem_map_of_mem hp)) hnot⟩
      obtain ⟨ts, hts, hall⟩ := Outcome.exists_mapM_eq_ok hfields
      have hmembers := Text.not_mem_intercalate "; " (by decide) hall
      refine ⟨objectText ts, Outcome.map_eq_ok.2 ⟨ts, hts, rfl⟩, ?_⟩
      rw [objectText, String.toList_append, String.toList_append]
      simp only [List.mem_append, not_or]
      exact ⟨⟨by decide, hmembers⟩, by decide⟩
    | record value =>
      obtain ⟨t, ht, hnot⟩ := ih value List.mem_cons_self
      refine ⟨_, Outcome.map_eq_ok.2 ⟨t, ht, rfl⟩, ?_⟩
      simp [hnot]

/-- The text of a plain schema's type is read as the type that the schema describes if and only if
no intersection in that type has a union for a member. -/
theorem exists_typeText_read_iff_isFlat {v : Value} (h : IsPlain v) :
    ∃ t, typeText v = .ok t ∧ (read t = some (described v) ↔ IsFlat (described v)) := by
  obtain ⟨t, ht, hnot⟩ := h.exists_typeText
  refine ⟨t, ht, isFlat_of_read hnot, fun hflat => ?_⟩
  have htext := h.typeText_eq_text hflat
  rw [ht] at htext
  cases htext
  exact read_text h.isWellFormed hflat

/-- A reference to a definition. -/
def refTo (name : String) : Value := .record [("$ref", .str ("#/definitions/" ++ name))]

/-- Either of two types. -/
def eitherType : Value := .record [("oneOf", .list [refTo "A", refTo "B"])]

/-- Either of two types, and a third one as well. -/
def eitherAndMore : Value := .record [("allOf", .list [eitherType, refTo "C"])]

theorem isPlain_refTo (name : String) (h : shape (refTo name) = .ok (.name name))
    (hname : isIdentifier name = true) : IsPlain (refTo name) :=
  .intro h (by simpa [Shape.names] using hname) (by simp [Shape.parts])

theorem isPlain_eitherAndMore : IsPlain eitherAndMore := by
  have hA := isPlain_refTo "A" rfl (by decide)
  have hB := isPlain_refTo "B" rfl (by decide)
  have hC := isPlain_refTo "C" rfl (by decide)
  have heither : IsPlain eitherType :=
    .intro (s := .combination .union [refTo "A", refTo "B"]) rfl (by simp [Shape.names])
      (by simp [Shape.parts, hA, hB])
  exact .intro (s := .combination .inter [eitherType, refTo "C"]) rfl (by simp [Shape.names])
    (by simp [Shape.parts, heither, hC])

theorem exists_typeText_eitherAndMore : IsPlain eitherAndMore ∧
    ∃ t, typeText eitherAndMore = .ok t ∧
      (read t = some (described eitherAndMore) ↔ IsFlat (described eitherAndMore)) :=
  ⟨isPlain_eitherAndMore, exists_typeText_read_iff_isFlat isPlain_eitherAndMore⟩

/-- What is written for a choice and more is read as a choice of the first type, or the second one
and more. -/
theorem read_typeText_eitherAndMore :
    typeText eitherAndMore = .ok "A | B & C" ∧
    read "A | B & C" = some (.union [.named "A", .inter [.named "B", .named "C"]]) ∧
    described eitherAndMore = .inter [.union [.named "A", .named "B"], .named "C"] :=
  ⟨by decide +kernel, by decide +kernel, by decide +kernel⟩

end Schema
end ApiScribe
