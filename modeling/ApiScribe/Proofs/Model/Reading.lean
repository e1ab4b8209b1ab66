import ApiScribe.Model.Extract
import ApiScribe.Model.Text
import ApiScribe.Proofs.Json.Number
import ApiScribe.Proofs.Json.Quoted
import ApiScribe.Proofs.Reference
import ApiScribe.Proofs.TypeExpr.Printing
import ApiScribe.Proofs.Value.StatusKeys

/-! The text of a model's type is read back. Unions stand without parentheses, so a text tells the
alternatives of a type and not how unions were nested; everything else it tells: a word is a
primitive, a number or a reference, quotes hold a literal whatever stands between them, and angle
brackets hold the items of an array. -/
namespace ApiScribe
namespace ModelType

mutual

/-- The alternatives of a type: those of the variants of a union, and an array of the union of its
item's alternatives. -/
def alternatives : ModelType → List ModelType
  | .union variants => alternativesOfAll variants
  | .array item => [.array (Model.unionOf item.alternatives)]
  | t => [t]

/-- The alternatives of types. -/
def alternativesOfAll : List ModelType → List ModelType
  | [] => []
  | t :: ts => t.alternatives ++ alternativesOfAll ts

end

/-- A type with its nested unions merged, and with unions of one type replaced by that type. -/
def flat (t : ModelType) : ModelType := Model.unionOf t.alternatives

theorem alternativesOfAll_eq (ts : List ModelType) :
    alternativesOfAll ts = ts.flatMap alternatives := by
  induction ts with
  | nil => rfl
  | cons t ts ih => rw [alternativesOfAll, ih, List.flatMap_cons]

@[simp] theorem alternatives_union (ts : List ModelType) :
    (union ts).alternatives = ts.flatMap alternatives := by
  rw [alternatives, alternativesOfAll_eq]

@[simp] theorem alternatives_array (t : ModelType) : (array t).alternatives = [array t.flat] := by
  rw [alternatives, flat]

example : (union [union [string], array (union [union [number, boolean], object])]).flat =
    union [string, array (union [number, boolean, object])] := rfl

/-- The primitives by their words. -/
def primitives : List (String × ModelType) :=
  [("string", string), ("number", number), ("boolean", boolean), ("object", object)]

/-- The type that a word is: a primitive, a number, or a reference, which ends with the name. -/
def ofWord (word : List Char) : ModelType :=
  match primitives.lookup (String.ofList word) with
  | some t => t
  | none =>
    if Json.startsNumber word then .literal ⟨.number, String.ofList word⟩
    else .ref (String.ofList (Text.afterLast '.' word))

/-- The literal whose characters stand between quotes. -/
def ofQuoted? (chars : List Char) : Option ModelType :=
  match Json.read (String.ofList ('"' :: chars ++ ['"'])) with
  | .ok (.str s) => some (.literal ⟨.string, s⟩)
  | _ => none

/-- What is being read: nothing in particular, a word, or a literal, perhaps right behind a
backslash. The characters stand last first. -/
inductive Part
  | between
  | word (chars : List Char)
  | quoted (chars : List Char) (escaped : Bool)

/-- How far a text is read: the types in front of each open array, innermost first, the types read
since, and what is being read. -/
structure Reading where
  outer : List (List ModelType)
  types : List ModelType
  part : Part

namespace Reading

/-- The word that is being read is at its end. -/
def settle (r : Reading) : Reading :=
  match r.part with
  | .word chars => ⟨r.outer, r.types ++ [ofWord chars.reverse], .between⟩
  | _ => r

/-- The array that is being read is at its end. -/
def close? (r : Reading) : Option Reading :=
  match r.outer with
  | [] => none
  | before :: outer => some ⟨outer, before ++ [.array (Model.unionOf r.types)], .between⟩

/-- Takes a character. -/
def step (r : Reading) (c : Char) : Option Reading :=
  match r.part with
  | .quoted chars true => some { r with part := .quoted (c :: chars) false }
  | .quoted chars false =>
    if c = '"' then
      (ofQuoted? chars.reverse).map fun t => ⟨r.outer, r.types ++ [t], .between⟩
    else some { r with part := .quoted (c :: chars) (c = '\\') }
  | .word chars =>
    if c = ' ' then some r.settle
    else if c = '>' then r.settle.close?
    else if c = '<' then
      if chars.reverse = "Array".toList then some ⟨r.types :: r.outer, [], .between⟩ else none
    else some { r with part := .word (c :: chars) }
  | .between =>
    if c = ' ' ∨ c = '|' then some r
    else if c = '>' then r.close?
    else if c = '"' then some { r with part := .quoted [] false }
    else some { r with part := .word [c] }

end Reading

/-- The alternatives that a text tells. -/
def read (text : String) : Option (List ModelType) := do
  let r ← text.toList.foldlM Reading.step ⟨[], [], .between⟩
  match r.settle with
  | ⟨[], types, .between⟩ => some types
  | _ => none

/-- Characters that are read as these types wherever they stand between others. -/
def Reads (cs : List Char) (ts : List ModelType) : Prop :=
  ∀ outer types, ∃ r, cs.foldlM Reading.step ⟨outer, types, .between⟩ = some r ∧
    r.settle = ⟨outer, types ++ ts, .between⟩

theorem Reads.read_eq {text : String} {ts : List ModelType} (h : Reads text.toList ts) :
    read text = some ts := by
  obtain ⟨r, hr, hsettle⟩ := h [] []
  simp [read, hr, hsettle]

namespace Reading

variable {r : Reading} {outer : List (List ModelType)} {types : List ModelType}

/-- A blank ends a word. -/
theorem step_blank (h : r.settle = ⟨outer, types, .between⟩) : r.step ' ' = some r.settle := by
  obtain ⟨outer', types', part⟩ := r
  cases part with
  | between => simp [step, settle]
  | word chars => simp [step]
  | quoted chars escaped => simp [settle] at h

/-- An angle bracket ends a word and an array. -/
theorem step_greater (h : r.settle = ⟨outer, types, .between⟩) : r.step '>' = r.settle.close? := by
  obtain ⟨outer', types', part⟩ := r
  cases part with
  | between => simp [step, settle]
  | word chars => simp [step]
  | quoted chars escaped => simp [settle] at h

theorem step_bar : step ⟨outer, types, .between⟩ '|' = some ⟨outer, types, .between⟩ := by
  simp [step]

end Reading

theorem reads_nil : Reads [] [] := fun outer types => ⟨_, rfl, by simp [Reading.settle]⟩

theorem Reads.bar {cs ds : List Char} {ts us : List ModelType} (hc : Reads cs ts)
    (hd : Reads ds us) : Reads (cs ++ " | ".toList ++ ds) (ts ++ us) := by
  intro outer types
  obtain ⟨r, hr, hsettle⟩ := hc outer types
  obtain ⟨s, hs, hends⟩ := hd outer (types ++ ts)
  refine ⟨s, ?_, by rw [hends, List.append_assoc]⟩
  have hbar : " | ".toList.foldlM Reading.step r = some ⟨outer, types ++ ts, .between⟩ := by
    have hbetween : Reading.step ⟨outer, types ++ ts, .between⟩ ' ' =
        some ⟨outer, types ++ ts, .between⟩ := Reading.step_blank rfl
    simp [Reading.step_blank hsettle, hsettle, Reading.step_bar, hbetween]
  rw [List.foldlM_append, List.foldlM_append, hr]
  simp only [Option.bind_eq_bind, Option.bind_some, hbar, hs]

theorem Reads.array {cs : List Char} {ts : List ModelType} (h : Reads cs ts) :
    Reads ("Array<".toList ++ cs ++ ['>']) [.array (Model.unionOf ts)] := by
  intro outer types
  obtain ⟨r, hr, hsettle⟩ := h (types :: outer) []
  have hopen : "Array<".toList.foldlM Reading.step ⟨outer, types, .between⟩ =
      some ⟨types :: outer, [], .between⟩ := by
    simp [Reading.step]
  refine ⟨⟨outer, types ++ [.array (Model.unionOf ts)], .between⟩, ?_, by simp [Reading.settle]⟩
  rw [List.foldlM_append, List.foldlM_append, hopen]
  simp [hr, Reading.step_greater hsettle, hsettle, Reading.close?]

/-- A character that goes on with a word. -/
def isInner (c : Char) : Bool := c ≠ ' ' ∧ c ≠ '<' ∧ c ≠ '>'

theorem foldlM_word {cs : List Char} (h : ∀ c ∈ cs, isInner c = true)
    (outer : List (List ModelType)) (types : List ModelType) (chars : List Char) :
    cs.foldlM Reading.step ⟨outer, types, .word chars⟩ =
      some ⟨outer, types, .word (cs.reverse ++ chars)⟩ := by
  induction cs generalizing chars with
  | nil => rfl
  | cons c cs ih =>
    obtain ⟨hc, hcs⟩ := List.forall_mem_cons.1 h
    have hinner : c ≠ ' ' ∧ c ≠ '<' ∧ c ≠ '>' := of_decide_eq_true hc
    have hstep : Reading.step ⟨outer, types, .word chars⟩ c =
        some ⟨outer, types, .word (c :: chars)⟩ := by
      simp [Reading.step, hinner]
    simpa [hstep] using ih hcs (c :: chars)

/-- Characters of a word, which does not start as a literal does. -/
def isWord (cs : List Char) : Bool :=
  cs.head?.any (fun c => c ≠ '|' && c ≠ '"') && cs.all isInner

theorem reads_word (cs : List Char) (h : isWord cs = true) : Reads cs [ofWord cs] := by
  intro outer types
  cases cs with
  | nil => cases h
  | cons c cs =>
    simp only [isWord, isInner, Bool.and_eq_true, decide_eq_true_eq, List.all_cons,
      List.head?_cons, Option.any_some] at h
    obtain ⟨⟨hbar, hquote⟩, hc, hcs⟩ := h
    have hstep : Reading.step ⟨outer, types, .between⟩ c = some ⟨outer, types, .word [c]⟩ := by
      simp [Reading.step, hc, hbar, hquote]
    refine ⟨⟨outer, types, .word (cs.reverse ++ [c])⟩, ?_, by simp [Reading.settle]⟩
    simpa [hstep] using foldlM_word (List.all_eq_true.1 hcs) outer types [c]

/-- A character between quotes that is neither a quote nor a backslash. -/
def isUnescaped (c : Char) : Bool := c ≠ '"' ∧ c ≠ '\\'

theorem foldlM_unescaped {cs : List Char} (h : ∀ c ∈ cs, isUnescaped c = true)
    (outer : List (List ModelType)) (types : List ModelType) (chars : List Char) :
    cs.foldlM Reading.step ⟨outer, types, .quoted chars false⟩ =
      some ⟨outer, types, .quoted (cs.reverse ++ chars) false⟩ := by
  induction cs generalizing chars with
  | nil => rfl
  | cons c cs ih =>
    obtain ⟨hc, hcs⟩ := List.forall_mem_cons.1 h
    have hraw : c ≠ '"' ∧ c ≠ '\\' := of_decide_eq_true hc
    have hstep : Reading.step ⟨outer, types, .quoted chars false⟩ c =
        some ⟨outer, types, .quoted (c :: chars) false⟩ := by
      simp [Reading.step, hraw]
    simpa [hstep] using ih hcs (c :: chars)

theorem foldlM_escaped {e : Char} {cs : List Char} (h : ∀ c ∈ cs, isUnescaped c = true)
    (outer : List (List ModelType)) (types : List ModelType) (chars : List Char) :
    ('\\' :: e :: cs).foldlM Reading.step ⟨outer, types, .quoted chars false⟩ =
      some ⟨outer, types, .quoted (('\\' :: e :: cs).reverse ++ chars) false⟩ := by
  have hopen : Reading.step ⟨outer, types, .quoted chars false⟩ '\\' =
      some ⟨outer, types, .quoted ('\\' :: chars) true⟩ := by
    simp [Reading.step]
  have hnext : Reading.step ⟨outer, types, .quoted ('\\' :: chars) true⟩ e =
      some ⟨outer, types, .quoted (e :: '\\' :: chars) false⟩ := by
    simp [Reading.step]
  simpa [hopen, hnext] using foldlM_unescaped h outer types (e :: '\\' :: chars)

theorem isUnescaped_hexDigit (n : Nat) : isUnescaped (Json.hexDigit n) = true := by
  have hall : ∀ m < 16, isUnescaped ((Nat.toDigits 16 m).headD '0') = true := by decide
  exact hall _ (Nat.mod_lt n (by decide))

/-- A written character ends no literal. -/
theorem foldlM_quotedChar (c : Char) (outer : List (List ModelType)) (types : List ModelType)
    (chars : List Char) :
    (Json.quotedChar false c).foldlM Reading.step ⟨outer, types, .quoted chars false⟩ =
      some ⟨outer, types, .quoted ((Json.quotedChar false c).reverse ++ chars) false⟩ := by
  unfold Json.quotedChar
  split
  · exact foldlM_escaped (by simp) outer types chars
  · next hshort =>
    split
    · have hquote : c ≠ '"' := by
        rintro rfl
        cases hshort
      have hslash : c ≠ '\\' := by
        rintro rfl
        cases hshort
      refine foldlM_unescaped ?_ outer types chars
      simp [isUnescaped, hquote, hslash]
    · next hraw =>
      have hcontrol : c.toNat < 32 := by
        rw [Json.standsRaw_false_iff] at hraw
        omega
      rw [Json.charEscape_control hcontrol]
      refine foldlM_escaped ?_ outer types chars
      simp [isUnescaped_hexDigit]

theorem foldlM_quoted (cs : List Char) (outer : List (List ModelType)) (types : List ModelType)
    (chars : List Char) :
    (cs.flatMap (Json.quotedChar false)).foldlM Reading.step
        ⟨outer, types, .quoted chars false⟩ =
      some ⟨outer, types, .quoted ((cs.flatMap (Json.quotedChar false)).reverse ++ chars) false⟩ := by
  induction cs generalizing chars with
  | nil => rfl
  | cons c cs ih =>
    rw [List.flatMap_cons, List.foldlM_append, foldlM_quotedChar]
    simp [ih]

/-- A quoted text is read as its literal, whatever the text is. -/
theorem reads_quoted (s : String) :
    Reads (Json.quotedRaw s).toList [.literal ⟨.string, s⟩] := by
  intro outer types
  have hopen : Reading.step ⟨outer, types, .between⟩ '"' =
      some ⟨outer, types, .quoted [] false⟩ := by
    simp [Reading.step]
  have hliteral : ofQuoted? (s.toList.flatMap (Json.quotedChar false)) =
      some (.literal ⟨.string, s⟩) := by
    rw [ofQuoted?, ← Json.quotedChars, ← Json.quotedRaw, Json.read_quotedRaw]
  have hclose : Reading.step
      ⟨outer, types, .quoted (s.toList.flatMap (Json.quotedChar false)).reverse false⟩ '"' =
      some ⟨outer, types ++ [.literal ⟨.string, s⟩], .between⟩ := by
    simp [Reading.step, hliteral]
  refine ⟨⟨outer, types ++ [.literal ⟨.string, s⟩], .between⟩, ?_, by simp [Reading.settle]⟩
  rw [Json.quotedRaw, String.toList_ofList, Json.quotedChars, List.cons_append, List.foldlM_cons,
    hopen]
  simp [foldlM_quoted, hclose]

/-- A name that no primitive has: letters, digits, underscores and dollar signs. -/
def IsReferenceName (name : String) : Prop :=
  TypeExpr.isIdentifier name = true ∧ name ∉ primitives.map (·.1)

instance (name : String) : Decidable (IsReferenceName name) := inferInstanceAs (Decidable (_ ∧ _))

/-- The text of a number. -/
def IsNumberText (s : String) : Prop :=
  Json.startsNumber s.toList = true ∧ ∀ c ∈ s.toList, Json.isAtomChar c = true

/-- Types whose references have names that are names, and whose numbers are numbers. -/
inductive IsReadable : ModelType → Prop
  | string : IsReadable .string
  | number : IsReadable .number
  | boolean : IsReadable .boolean
  | object : IsReadable .object
  | ref {name : String} (h : IsReferenceName name) : IsReadable (.ref name)
  | array {item : ModelType} (h : IsReadable item) : IsReadable (.array item)
  | union {variants : List ModelType} (hne : variants ≠ []) (h : ∀ t ∈ variants, IsReadable t) :
      IsReadable (.union variants)
  | quoted (s : String) : IsReadable (.literal ⟨.string, s⟩)
  | numeral {s : String} (h : IsNumberText s) : IsReadable (.literal ⟨.number, s⟩)

theorem lookup_primitives_eq_none {word : String} (h : word ∉ primitives.map (·.1)) :
    primitives.lookup word = none := by
  rw [List.lookup_eq_none_iff]
  intro p hp
  rw [bne_iff_ne]
  rintro rfl
  exact h (List.mem_map_of_mem hp)

theorem ofWord_number {word : List Char} (h : Json.startsNumber word = true) :
    ofWord word = .literal ⟨.number, String.ofList word⟩ := by
  have hname : String.ofList word ∉ primitives.map (·.1) := by
    have hall : ∀ name ∈ primitives.map (·.1), Json.startsNumber name.toList = false := by decide
    intro hmem
    have := hall _ hmem
    rw [String.toList_ofList, h] at this
    cases this
  rw [ofWord, lookup_primitives_eq_none hname]
  simp [h]

theorem isWord_of_all {p : Char → Bool} (hp : [' ', '<', '>', '|', '"'].any p = false)
    {cs : List Char} (hne : cs ≠ []) (h : ∀ c ∈ cs, p c = true) : isWord cs = true := by
  have hother : ∀ c ∈ cs, ∀ d ∈ [' ', '<', '>', '|', '"'], c ≠ d := by
    rintro c hc _ hd rfl
    exact List.any_eq_false.1 hp c hd (h c hc)
  cases cs with
  | nil => exact absurd rfl hne
  | cons c cs => simp_all [isWord, isInner]

theorem reads_number {s : String} (h : IsNumberText s) :
    Reads s.toList [.literal ⟨.number, s⟩] := by
  obtain ⟨hstart, hchars⟩ := h
  have hne : s.toList ≠ [] := by
    intro hs
    rw [hs] at hstart
    cases hstart
  have hword : ofWord s.toList = .literal ⟨.number, s⟩ := by
    rw [ofWord_number hstart, String.ofList_toList]
  rw [← hword]
  exact reads_word _ (isWord_of_all (by decide) hne hchars)

/-- A word that ends with a name, right at its start or behind a point, is a reference to it, if
it is neither a primitive nor a number. -/
theorem ofWord_ref {word before : List Char} {name : String}
    (hword : word = before ++ name.toList) (hbefore : before = [] ∨ ∃ cs, before = cs ++ ['.'])
    (hname : TypeExpr.isIdentifier name = true)
    (hprimitive : String.ofList word ∉ primitives.map (·.1))
    (hnumber : Json.startsNumber word = false) : ofWord word = .ref name := by
  have hpoint : '.' ∉ name.toList := by
    intro hmem
    exact absurd (TypeExpr.isNameChar_of_isIdentifier hname _ hmem) (by decide)
  have hlast : Text.afterLast '.' word = name.toList := by
    rcases hbefore with rfl | ⟨cs, rfl⟩
    · rw [hword, List.nil_append, Text.afterLast_of_not_mem hpoint]
    · rw [hword, List.append_assoc, List.singleton_append, Text.afterLast_append_cons,
        Text.afterLast_of_not_mem hpoint]
  rw [ofWord, lookup_primitives_eq_none hprimitive]
  simp [hnumber, hlast]

theorem startsNumber_of_isIdentifier {name : String} (h : TypeExpr.isIdentifier name = true) :
    Json.startsNumber name.toList = false := by
  unfold TypeExpr.isIdentifier at h
  split at h
  · next c cs hs =>
    rw [Bool.and_eq_true] at h
    have hminus : c ≠ '-' := by
      rintro rfl
      exact absurd h.1 (by decide)
    have hdigit : c.isDigit = false := by
      by_contra hdigit
      rw [Bool.not_eq_false] at hdigit
      have hother : ∀ d : Char, d.isDigit = false → c ≠ d := by
        rintro d hd rfl
        rw [hd] at hdigit
        cases hdigit
      simp [TypeExpr.isNameStart, Value.isAlpha_eq_false_of_isDigit hdigit, hother] at h
    simp [hs, Json.startsNumber, Json.startsDigit, Json.unsigned, hminus, hdigit]
  · cases h

/-- A name is read as a reference in either style. -/
theorem reads_ref {name : String} (h : IsReferenceName name) (style : ModelStyle)
    (current : String) : Reads (referenceText style current name).toList [.ref name] := by
  obtain ⟨hname, hprimitive⟩ := h
  have hchars := TypeExpr.isNameChar_of_isIdentifier hname
  unfold referenceText
  split
  · have hpath : ∀ p ∈ primitives.map (·.1), '(' ∉ p.toList := by decide
    have hword : ("import(\"./" ++ name ++ "\")." ++ name).toList =
        ("import(\"./".toList ++ name.toList ++ "\")".toList ++ ['.']) ++ name.toList := by
      simp
    generalize ("import(\"./" ++ name ++ "\")." ++ name).toList = word at hword
    have href : ofWord word = .ref name := by
      refine ofWord_ref hword (.inr ⟨_, rfl⟩) hname ?_ ?_
      · intro hmem
        refine hpath _ hmem ?_
        simp [hword]
      · simp [hword, Json.startsNumber, Json.startsDigit, Json.unsigned]
    have hinner := isWord_of_all (by decide) (TypeExpr.ne_empty_of_isIdentifier hname) hchars
    have hisWord : isWord word = true := by
      rw [isWord, Bool.and_eq_true] at hinner
      simp [hword, isWord, isInner, hinner.2]
    rw [← href]
    exact reads_word _ hisWord
  · have href : ofWord name.toList = .ref name := by
      refine ofWord_ref (List.nil_append _).symm (.inl rfl) hname ?_
        (startsNumber_of_isIdentifier hname)
      rwa [String.ofList_toList]
    rw [← href]
    exact reads_word _ (isWord_of_all (by decide) (TypeExpr.ne_empty_of_isIdentifier hname) hchars)

theorem typeTexts_eq_map (style : ModelStyle) (current : String) (ts : List ModelType) :
    typeTexts style current ts = ts.map (text style current) := by
  induction ts with
  | nil => rfl
  | cons t ts ih => rw [typeTexts, ih, List.map_cons]

theorem text_union (style : ModelStyle) (current : String) (ts : List ModelType) :
    (union ts).text style current = " | ".intercalate (ts.map (text style current)) := by
  rw [text, typeTexts_eq_map]

/-- Texts with bars between them are read one after the other. -/
theorem reads_intercalate {ts : List ModelType} {f : ModelType → String}
    (h : ∀ t ∈ ts, Reads (f t).toList t.alternatives) :
    Reads (" | ".intercalate (ts.map f)).toList (ts.flatMap alternatives) := by
  induction ts with
  | nil => exact reads_nil
  | cons t ts ih =>
    obtain ⟨ht, hts⟩ := List.forall_mem_cons.1 h
    cases ts with
    | nil => simpa using ht
    | cons u ts =>
      rw [List.map_cons, List.map_cons, String.intercalate_cons_cons, String.toList_append,
        String.toList_append, List.flatMap_cons]
      exact ht.bar (ih hts)

/-- The text of a type is read as its alternatives. -/
theorem reads_text {t : ModelType} (h : IsReadable t) (style : ModelStyle) (current : String) :
    Reads (t.text style current).toList t.alternatives := by
  induction h with
  | string => exact reads_word "string".toList (by decide)
  | number => exact reads_word "number".toList (by decide)
  | boolean => exact reads_word "boolean".toList (by decide)
  | object => exact reads_word "object".toList (by decide)
  | ref h => exact reads_ref h style current
  | array _ ih =>
    rw [text, String.toList_append, String.toList_append]
    exact ih.array
  | union _ _ ih =>
    rw [text_union, alternatives_union]
    exact reads_intercalate ih
  | quoted s => exact reads_quoted s
  | numeral h => exact reads_number h

theorem IsReadable.alternatives_ne_nil {t : ModelType} (h : IsReadable t) :
    t.alternatives ≠ [] := by
  induction h with
  | @union ts hne _ ih =>
    rw [alternatives_union, ne_eq, List.flatMap_eq_nil_iff]
    obtain ⟨t, ht⟩ := List.exists_mem_of_ne_nil ts hne
    exact fun hnone => ih t ht (hnone t ht)
  | _ => simp [alternatives]

theorem text_unionOf {ts : List ModelType} (hne : ts ≠ []) (style : ModelStyle)
    (current : String) : (Model.unionOf ts).text style current =
      " | ".intercalate (ts.map (text style current)) := by
  unfold Model.unionOf
  split
  · exact absurd rfl hne
  · simp
  · exact text_union style current ts

theorem intercalate_flatMap (sep : String) {α : Type} {xs : List α} {f : α → List String}
    (h : ∀ x ∈ xs, f x ≠ []) :
    sep.intercalate (xs.flatMap f) = sep.intercalate (xs.map fun x => sep.intercalate (f x)) := by
  induction xs with
  | nil => rfl
  | cons x xs ih =>
    obtain ⟨hx, hxs⟩ := List.forall_mem_cons.1 h
    cases xs with
    | nil => simp
    | cons y xs =>
      have hne : (y :: xs).flatMap f ≠ [] := by
        rw [ne_eq, List.flatMap_eq_nil_iff]
        exact fun hnone => hxs y List.mem_cons_self (hnone y List.mem_cons_self)
      rw [List.flatMap_cons, String.intercalate_append_of_ne_nil hx hne, ih hxs, List.map_cons,
        List.map_cons, List.map_cons, String.intercalate_cons_cons]

/-- Merging unions changes nothing in the text of a type. -/
theorem text_flat {t : ModelType} (h : IsReadable t) (style : ModelStyle) (current : String) :
    t.flat.text style current = t.text style current := by
  induction h with
  | array _ ih =>
    have hflat (item : ModelType) : (array item).flat = .array item.flat := by
      rw [flat, alternatives_array, Model.unionOf]
    rw [hflat, text, text, ih]
  | @union ts hne h ih =>
    have hone : (union ts).alternatives ≠ [] := (IsReadable.union hne h).alternatives_ne_nil
    rw [flat, text_unionOf hone, alternatives_union, List.map_flatMap, intercalate_flatMap, text_union]
    · congr 1
      refine List.map_congr_left fun t ht => ?_
      rw [← ih t ht, flat, text_unionOf (h t ht).alternatives_ne_nil]
    · intro t ht
      simpa using (h t ht).alternatives_ne_nil
  | _ => rw [flat, alternatives] <;> simp [Model.unionOf]

/-- Two types have the same text in a model if and only if they are the same up to unions in
unions and unions of one type. -/
theorem text_eq_iff {t u : ModelType} (ht : IsReadable t) (hu : IsReadable u) (style : ModelStyle)
    (current : String) : t.text style current = u.text style current ↔ t.flat = u.flat := by
  constructor
  · intro h
    have hread := (reads_text ht style current).read_eq
    rw [h, (reads_text hu style current).read_eq, Option.some.injEq] at hread
    rw [flat, flat, hread]
  · intro h
    rw [← text_flat ht, ← text_flat hu, h]

end ModelType
end ApiScribe
