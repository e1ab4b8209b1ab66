import ApiScribe.Proofs.Schema.Shape
import ApiScribe.Proofs.TypeText.Names
import ApiScribe.Proofs.Value.Basic

/-! The names in the type of a schema. A reference is written as the name of what it refers to, and
the properties of an object type as they are, so if all these are words the type mentions names of
references only. -/
namespace ApiScribe
namespace Schema

open TypeText

/-- The schemas that the type of a schema is put together from. -/
def below (schema : Value) : List Value :=
  match shape schema with
  | .ok s => s.parts
  | .error _ => []

theorem below_eq {v : Value} {s : Shape} (h : shape v = .ok s) : below v = s.parts := by
  rw [below, h]

theorem size_below (v : Value) : ∀ x ∈ below v, sizeOf x < sizeOf v := by
  intro x hx
  unfold below at hx
  split at hx
  · next s hs => exact size_shape hs hx
  · cases hx

/-- A schema and the schemas inside it that its type is put together from. -/
def inside : Value → List Value := Value.within below size_below

theorem inside_subset {v x : Value} {s : Shape} (h : shape v = .ok s) (hx : x ∈ s.parts) :
    inside x ⊆ inside v := by
  rw [← below_eq h] at hx
  exact Value.within_subset hx

/-- The references inside a schema. -/
def refs (v : Value) : List String := (inside v).filterMap Value.ref?

/-- The names of the properties inside a schema. -/
def propertyNames (v : Value) : List String :=
  (inside v).flatMap fun x => match shape x with
    | .ok (.object fields) => fields.map (·.1.name)
    | _ => []

theorem refs_subset {v x : Value} {s : Shape} (h : shape v = .ok s) (hx : x ∈ s.parts) :
    refs x ⊆ refs v := by
  intro ref href
  obtain ⟨y, hy, href⟩ := List.mem_filterMap.1 href
  exact List.mem_filterMap.2 ⟨y, inside_subset h hx hy, href⟩

theorem propertyNames_subset {v x : Value} {s : Shape} (h : shape v = .ok s) (hx : x ∈ s.parts) :
    propertyNames x ⊆ propertyNames v := by
  intro name hname
  obtain ⟨y, hy, hname⟩ := List.mem_flatMap.1 hname
  exact List.mem_flatMap.2 ⟨y, inside_subset h hx hy, hname⟩

theorem mem_propertyNames {v : Value} {fields : List (TypeKey × Value)}
    (h : shape v = .ok (.object fields)) {p : TypeKey × Value} (hp : p ∈ fields) :
    p.1.name ∈ propertyNames v := by
  refine List.mem_flatMap.2 ⟨v, Value.mem_within_self, ?_⟩
  rw [h]
  exact List.mem_map.2 ⟨p, hp, rfl⟩

/-- A text with a character that no type has. -/
def isForeign (s : String) : Bool := s.toList.any fun c => !isTypeChar c

/-- Word characters only. -/
def isWords (s : String) : Bool := s.toList.all TypeText.isWordChar

/-- One word: word characters that do not start with a digit. -/
def isOneWord (s : String) : Bool := isWords s && s.toList.head?.all fun c => !c.isDigit

/-- The names inside a schema are words, or they make it no type at all. -/
structure HasWordNames (v : Value) : Prop where
  refs : ∀ ref ∈ refs v, isOneWord (Reference.targetName ref) = true ∨
    isForeign (Reference.targetName ref) = true
  properties : ∀ name ∈ propertyNames v, isWords name = true ∨ isForeign name = true

theorem HasWordNames.part {v x : Value} {s : Shape} (h : HasWordNames v) (hs : shape v = .ok s)
    (hx : x ∈ s.parts) : HasWordNames x where
  refs := fun ref href => h.refs ref (refs_subset hs hx href)
  properties := fun name hname => h.properties name (propertyNames_subset hs hx hname)

/-- A schema whose type is a name is a reference, or its type needs no import. -/
theorem name_of_shape {v : Value} {type : String} (h : shape v = .ok (.name type)) :
    (∃ ref, v.field? "$ref" = some (.str ref) ∧ type = Reference.targetName ref) ∨
      type ∈ plainNames := by
  obtain ⟨_, heq, hname⟩ | ⟨m, rfl, -, h⟩ := shape_cases h
  · cases heq
    exact hname
  obtain ⟨_, _, -, h⟩ | ⟨_, _, h⟩ | h := h
  · cases h
  · cases h
  obtain ⟨_, hmem, h⟩ | h | h := plainShape_cases h
  · cases h
    exact .inr hmem
  · cases h
  obtain h | ⟨_, _, -, -, h⟩ | ⟨_, -, h⟩ := objectShape_cases h
  · cases h
    exact .inr (by decide)
  · cases h
  · cases h

variable {A : String → Prop}

/-- What cannot stand in a type mentions nothing in one. -/
theorem mentions_append_of_isForeign {s : String} (h : isForeign s = true) (cs : List Char) :
    Mentions A (s.toList ++ cs) := by
  intro hchars
  simp only [isForeign, List.any_eq_true, Bool.not_eq_true'] at h
  obtain ⟨c, hc, hforeign⟩ := h
  rw [hchars c (List.mem_append_left cs hc)] at hforeign
  cases hforeign

theorem mentions_word {s : String} (h : isOneWord s = true)
    (hA : isPrimitive s = true ∨ builtins.contains s = true ∨ A s) : Mentions A s.toList := by
  simp only [isOneWord, isWords, Bool.and_eq_true, List.all_eq_true, Option.all_eq_true,
    Bool.not_eq_true'] at h
  refine .word h.1 h.2 ?_
  rwa [String.ofList_toList]

theorem mentions_plain {type : String} (h : type ∈ plainNames) : Mentions A type.toList := by
  have hall : ∀ t ∈ plainNames, isOneWord t = true ∧ isPrimitive t = true := by decide
  obtain ⟨hword, hprimitive⟩ := hall type h
  refine mentions_word hword (.inl hprimitive)

theorem mentions_ref {name : String} (h : isOneWord name = true ∨ isForeign name = true)
    (hA : isForeign name = false → A name) : Mentions A name.toList := by
  cases hforeign : isForeign name with
  | true => simpa using mentions_append_of_isForeign (A := A) hforeign []
  | false =>
    have hword := h.resolve_right (by simp [hforeign])
    exact mentions_word hword (.inr (.inr (hA hforeign)))

/-- A property is mentioned as far as its type is. -/
theorem mentions_fieldText {k : TypeKey} {t : String}
    (hk : isWords k.name = true ∨ isForeign k.name = true) (ht : Mentions A t.toList) :
    Mentions A (Shape.fieldText k t).toList := by
  have htext : (Shape.fieldText k t).toList =
      k.name.toList ++ ((if k.optional then "?: " else ": ").toList ++ t.toList) := by
    simp [Shape.fieldText]
  rw [htext]
  rcases hk with hk | hk
  · rw [isWords, List.all_eq_true] at hk
    cases k.optional with
    | true =>
      exact .key hk (endsWord_cons (by decide)) (fun rest => rfl)
        (.separators_append (by decide) ht)
    | false =>
      exact .key hk (endsWord_cons (by decide)) (fun rest => rfl)
        (.separators_append (by decide) ht)
  · exact mentions_append_of_isForeign hk _

theorem mentions_objectText {members : List String} (h : ∀ t ∈ members, Mentions A t.toList) :
    Mentions A (objectText members).toList := by
  have hmembers : Mentions A ("; ".intercalate members).toList :=
    .intercalate (by decide) (by decide) h
  have hclose : Mentions A " \x7d".toList := .separators (by decide)
  rw [objectText, String.toList_append, String.toList_append, List.append_assoc]
  exact .separators_append (by decide) (hmembers.append hclose (endsWord_cons (by decide)))

theorem mentions_combination (c : Combination) {ts : List String}
    (h : ∀ t ∈ ts, Mentions A t.toList) : Mentions A (c.text ts).toList := by
  have hdups : ∀ t ∈ dedupe ts, Mentions A t.toList := fun t ht => h t (List.mem_eraseDups.1 ht)
  have hunknown : Mentions A "unknown".toList := mentions_plain (by decide)
  cases c with
  | union =>
    show Mentions A (unionText ts).toList
    unfold unionText
    split
    · exact hunknown
    · exact .intercalate (by decide) (by decide) hdups
  | inter =>
    show Mentions A (intersectionText ts).toList
    unfold intersectionText
    split
    · exact hunknown
    · exact .intercalate (by decide) (by decide) hdups

/-- A type with arguments mentions what its arguments mention. -/
theorem mentions_application (head : String) (hhead : isOneWord head = true)
    (hbuiltin : builtins.contains head = true) {cs : List Char} (h : Mentions A cs) :
    Mentions A (head.toList ++ '<' :: (cs ++ ['>'])) := by
  have hword : Mentions A head.toList := mentions_word hhead (.inr (.inl hbuiltin))
  have hargs : Mentions A (['<'] ++ (cs ++ ['>'])) :=
    .separators_append (by decide) (h.append (.separators (by decide)) (endsWord_cons (by decide)))
  exact hword.append hargs (endsWord_cons (by decide))

theorem mentions_arrayText {t : String} (h : Mentions A t.toList) :
    Mentions A (arrayText t).toList := by
  unfold arrayText
  split
  · rw [String.toList_append]
    exact h.append (.separators (by decide)) (endsWord_cons (by decide))
  · simpa using mentions_application "Array" (by decide) (by decide) h

theorem mentions_recordText {t : String} (h : Mentions A t.toList) :
    Mentions A ("Record<string, " ++ t ++ ">").toList := by
  have hstring : Mentions A ("string".toList ++ (", ".toList ++ t.toList)) :=
    (mentions_word (by decide) (.inl (by decide))).append (.separators_append (by decide) h)
      (endsWord_cons (by decide))
  simpa using mentions_application "Record" (by decide) (by decide) hstring

/-- If the names inside a schema are words, its type mentions names of its references only. -/
theorem mentions_typeText {v : Value} (h : HasWordNames v)
    (hA : ∀ ref ∈ refs v, isForeign (Reference.targetName ref) = false →
      A (Reference.targetName ref))
    {t : String} (ht : typeText v = .ok t) : Mentions A t.toList := by
  induction hn : sizeOf v using Nat.strongRecOn generalizing v t with
  | ind n ih =>
    subst hn
    rw [typeText_eq] at ht
    obtain ⟨s, hs, ht⟩ := Outcome.bind_eq_ok.1 ht
    have hpart : ∀ x ∈ s.parts, ∀ u, typeText x = .ok u → Mentions A u.toList := by
      intro x hx u hu
      exact ih (sizeOf x) (size_shape hs hx) (h.part hs hx)
        (fun ref href => hA ref (refs_subset hs hx href)) hu rfl
    have hself : v ∈ inside v := Value.mem_within_self
    cases s with
    | name type =>
      cases ht
      obtain ⟨ref, href, rfl⟩ | hplain := name_of_shape hs
      · have hmem : ref ∈ refs v := List.mem_filterMap.2 ⟨v, hself, by rw [Value.ref?, href]; rfl⟩
        exact mentions_ref (h.refs ref hmem) (hA ref hmem)
      · exact mentions_plain hplain
    | combination c parts =>
      obtain ⟨ts, hts, rfl⟩ := Outcome.map_eq_ok.1 ht
      refine mentions_combination c fun u hu => ?_
      obtain ⟨x, hx, hxu⟩ := Outcome.exists_of_mem_mapM hts hu
      exact hpart x hx u hxu
    | array item =>
      obtain ⟨u, hu, rfl⟩ := Outcome.map_eq_ok.1 ht
      exact mentions_arrayText (hpart item List.mem_cons_self u hu)
    | object fields =>
      obtain ⟨ts, hts, rfl⟩ := Outcome.map_eq_ok.1 ht
      refine mentions_objectText fun u hu => ?_
      obtain ⟨p, hp, hpu⟩ := Outcome.exists_of_mem_mapM hts hu
      obtain ⟨w, hw, rfl⟩ := Outcome.map_eq_ok.1 hpu
      exact mentions_fieldText (h.properties p.1.name (mem_propertyNames hs hp))
        (hpart p.2 (List.mem_map_of_mem hp) w hw)
    | record value =>
      obtain ⟨u, hu, rfl⟩ := Outcome.map_eq_ok.1 ht
      exact mentions_recordText (hpart value List.mem_cons_self u hu)

end Schema
end ApiScribe

/-! Schemas that tell their types. The text of a type has the word `unknown` if a top inside the
schema or the name of a property brings it in, and nothing else does: the signs between the parts of
a type keep their words apart. -/
namespace ApiScribe

namespace TypeText

/-- The words of a text in order, with an empty one between signs that follow each other. -/
def words (cs : List Char) : List (List Char) := cs.splitOnP fun c => !isWordChar c

/-- A text without the word `unknown`. -/
def IsKnown (t : String) : Prop := "unknown".toList ∉ words t.toList

instance : DecidablePred IsKnown := fun t =>
  inferInstanceAs (Decidable ("unknown".toList ∉ words t.toList))

/-- Signs end a word, and another one can begin behind them. -/
theorem not_mem_words_sign {w : List Char} (hw : w ≠ []) {c : Char} (hc : isWordChar c = false)
    {signs : List Char} (h : signs.all (!isWordChar ·) = true) (xs ys : List Char) :
    w ∉ words (xs ++ c :: (signs ++ ys)) ↔ w ∉ words xs ∧ w ∉ words ys := by
  induction signs generalizing xs c with
  | nil =>
    rw [List.nil_append, words, List.splitOnP_append_cons _ _ (by rw [hc, Bool.not_false]),
      List.mem_append, not_or]
    rfl
  | cons d signs ih =>
    rw [List.all_cons, Bool.and_eq_true, Bool.not_eq_true'] at h
    have hrest := ih h.1 h.2 []
    have hnil : w ∉ words [] := by simpa [words] using hw
    rw [List.nil_append] at hrest
    rw [List.cons_append, words, List.splitOnP_append_cons _ _ (by rw [hc, Bool.not_false]),
      List.mem_append, not_or]
    exact and_congr_right fun _ => hrest.trans (and_iff_right hnil)

/-- A text in two parts with signs between them is known if the parts are. -/
theorem isKnown_append_append (signs : String) (hne : signs ≠ "")
    (h : signs.toList.all (!isWordChar ·) = true) (s t : String) :
    IsKnown (s ++ signs ++ t) ↔ IsKnown s ∧ IsKnown t := by
  obtain ⟨c, cs, hcs⟩ := List.exists_cons_of_ne_nil (l := signs.toList) (by simpa using hne)
  rw [hcs, List.all_cons, Bool.and_eq_true, Bool.not_eq_true'] at h
  unfold IsKnown
  rw [String.toList_append, String.toList_append, hcs, List.append_assoc, List.cons_append]
  exact not_mem_words_sign (by decide) h.1 h.2 s.toList t.toList

theorem isKnown_append (signs : String) (hne : signs ≠ "")
    (h : signs.toList.all (!isWordChar ·) = true) (s : String) :
    IsKnown (s ++ signs) ↔ IsKnown s := by
  have hempty : IsKnown "" := by decide
  rw [← String.append_empty (s := s ++ signs), isKnown_append_append signs hne h]
  exact and_iff_left hempty

theorem isKnown_intercalate (signs : String) (hne : signs ≠ "")
    (h : signs.toList.all (!isWordChar ·) = true) (ts : List String) :
    IsKnown (signs.intercalate ts) ↔ ∀ t ∈ ts, IsKnown t := by
  induction ts with
  | nil =>
    have hempty : IsKnown "" := by decide
    simpa using hempty
  | cons t ts ih =>
    cases ts with
    | nil => simp
    | cons u us =>
      rw [String.intercalate_cons_cons, isKnown_append_append signs hne h, ih,
        ← List.forall_mem_cons (a := t)]

end TypeText

namespace Schema

open TypeText

theorem isKnown_arrayText (t : String) : IsKnown (arrayText t) ↔ IsKnown t := by
  have harray : IsKnown "Array" := by decide
  unfold arrayText
  split
  · exact isKnown_append _ (by decide) (by decide) t
  · have hopen := isKnown_append_append "<" (by decide) (by decide) "Array" t
    exact (isKnown_append _ (by decide) (by decide) _).trans (hopen.trans (and_iff_right harray))

theorem isKnown_recordText (t : String) :
    IsKnown ("Record<string, " ++ t ++ ">") ↔ IsKnown t := by
  have hrecord : IsKnown "Record<string" := by decide
  have hcomma := isKnown_append_append ", " (by decide) (by decide) "Record<string" t
  exact (isKnown_append _ (by decide) (by decide) _).trans (hcomma.trans (and_iff_right hrecord))

theorem isKnown_fieldText (k : TypeKey) (t : String) :
    IsKnown (Shape.fieldText k t) ↔ IsKnown k.name ∧ IsKnown t := by
  unfold Shape.fieldText
  cases k.optional
  · exact isKnown_append_append _ (by decide) (by decide) k.name t
  · exact isKnown_append_append _ (by decide) (by decide) k.name t

theorem isKnown_objectText (members : List String) :
    IsKnown (objectText members) ↔ ∀ t ∈ members, IsKnown t := by
  have hempty : IsKnown "" := by decide
  have hopen := isKnown_append_append "\x7b " (by decide) (by decide) ""
    ("; ".intercalate members)
  rw [String.empty_append] at hopen
  rw [← isKnown_intercalate "; " (by decide) (by decide) members]
  exact (isKnown_append _ (by decide) (by decide) _).trans (hopen.trans (and_iff_right hempty))

theorem isKnown_combination (c : Combination) (ts : List String) :
    IsKnown (c.text ts) ↔ ts ≠ [] ∧ ∀ t ∈ ts, IsKnown t := by
  have hunknown : ¬ IsKnown "unknown" := by decide
  have hdups : (∀ t ∈ dedupe ts, IsKnown t) ↔ ∀ t ∈ ts, IsKnown t := by
    simp only [dedupe, List.mem_eraseDups]
  rw [← hdups]
  cases ts with
  | nil =>
    refine iff_of_false ?_ (by simp)
    cases c
    · exact hunknown
    · exact hunknown
  | cons t ts =>
    rw [and_iff_right (List.cons_ne_nil t ts)]
    cases c
    · exact isKnown_intercalate _ (by decide) (by decide) _
    · exact isKnown_intercalate _ (by decide) (by decide) _

/-- The top of a schema brings no `unknown` into its type. -/
def Shape.IsKnown : Shape → Prop
  | .name type => TypeText.IsKnown type
  | .combination _ parts => parts ≠ []
  | .object fields => ∀ p ∈ fields, TypeText.IsKnown p.1.name
  | .array _ => True
  | .record _ => True

/-- A schema that tells its type, as all schemas do that its type is put together from. -/
def TellsType (v : Value) : Prop := ∀ x ∈ inside v, ∃ s, shape x = .ok s ∧ s.IsKnown

variable {v x : Value} {s : Shape}

theorem tellsType_iff : TellsType v ↔ ∃ s, shape v = .ok s ∧ s.IsKnown ∧
    ∀ x ∈ s.parts, TellsType x := by
  have hall : TellsType v ↔ (∃ s, shape v = .ok s ∧ s.IsKnown) ∧
      ∀ x ∈ below v, TellsType x := by
    unfold TellsType inside
    rw [Value.within_eq, List.forall_mem_cons]
    refine and_congr_right fun _ => ?_
    simp only [List.mem_flatMap, forall_exists_index, and_imp]
    exact ⟨fun h x hx y hy => h y x hx hy, fun h y x hx hy => h x hx y hy⟩
  rw [hall]
  constructor
  · rintro ⟨⟨s, hs, hknown⟩, hparts⟩
    exact ⟨s, hs, hknown, below_eq hs ▸ hparts⟩
  · rintro ⟨s, hs, hknown, hparts⟩
    exact ⟨⟨s, hs, hknown⟩, (below_eq hs).symm ▸ hparts⟩

theorem TellsType.of_mem_below (h : TellsType v) (hx : x ∈ below v) : TellsType x :=
  fun y hy => h y (Value.within_subset hx hy)

/-- The text of a type is known if the top of the schema and the texts of its parts are. -/
theorem Shape.exists_isKnown_text {f : Value → Outcome String} (s : Shape) :
    (∃ t, s.text f = .ok t ∧ TypeText.IsKnown t) ↔
      s.IsKnown ∧ ∀ x ∈ s.parts, ∃ t, f x = .ok t ∧ TypeText.IsKnown t := by
  cases s with
  | name type => simp [Shape.text, Shape.IsKnown, Shape.parts]
  | combination c parts =>
    rw [Shape.text, Outcome.exists_map_eq_ok_iff]
    simp only [isKnown_combination]
    rw [Shape.IsKnown, Shape.parts, ← Outcome.exists_mapM_eq_ok_iff]
    constructor
    · rintro ⟨ts, hts, hne, hall⟩
      refine ⟨?_, ts, hts, hall⟩
      rintro rfl
      exact hne (Except.ok.inj hts).symm
    · rintro ⟨hne, ts, hts, hall⟩
      refine ⟨ts, hts, ?_, hall⟩
      rintro rfl
      exact hne (List.forall₂_nil_right_iff.1 (Outcome.mapM_eq_ok.1 hts))
  | array item =>
    rw [Shape.text, Outcome.exists_map_eq_ok_iff]
    simp [isKnown_arrayText, Shape.IsKnown, Shape.parts]
  | object fields =>
    have hmember : ∀ p : TypeKey × Value, (∃ t, Shape.fieldText p.1 <$> f p.2 = .ok t ∧
        TypeText.IsKnown t) ↔ TypeText.IsKnown p.1.name ∧
          ∃ t, f p.2 = .ok t ∧ TypeText.IsKnown t := by
      intro p
      rw [Outcome.exists_map_eq_ok_iff]
      simp only [isKnown_fieldText]
      constructor
      · rintro ⟨t, ht, hk, hknown⟩
        exact ⟨hk, t, ht, hknown⟩
      · rintro ⟨hk, t, ht, hknown⟩
        exact ⟨t, ht, hk, hknown⟩
    rw [Shape.text, Outcome.exists_map_eq_ok_iff]
    simp only [isKnown_objectText]
    rw [Outcome.exists_mapM_eq_ok_iff]
    simp only [hmember, Shape.IsKnown, Shape.parts, List.forall_mem_map]
    exact forall₂_and
  | record value =>
    rw [Shape.text, Outcome.exists_map_eq_ok_iff]
    simp [isKnown_recordText, Shape.IsKnown, Shape.parts]

/-- A schema has a text without `unknown` exactly if it tells its type. -/
theorem exists_isKnown_typeText : (∃ t, typeText v = .ok t ∧ TypeText.IsKnown t) ↔ TellsType v := by
  induction hn : sizeOf v using Nat.strongRecOn generalizing v with
  | ind n ih =>
    subst hn
    rw [tellsType_iff, typeText_eq]
    simp only [Outcome.bind_eq_ok]
    constructor
    · rintro ⟨t, ⟨s, hs, ht⟩, hknown⟩
      obtain ⟨htop, hparts⟩ := s.exists_isKnown_text.1 ⟨t, ht, hknown⟩
      exact ⟨s, hs, htop, fun x hx => (ih (sizeOf x) (size_shape hs hx) rfl).1 (hparts x hx)⟩
    · rintro ⟨s, hs, htop, hparts⟩
      obtain ⟨t, ht, hknown⟩ := s.exists_isKnown_text.2
        ⟨htop, fun x hx => (ih (sizeOf x) (size_shape hs hx) rfl).2 (hparts x hx)⟩
      exact ⟨t, ⟨s, hs, ht⟩, hknown⟩

/-- The schemas that a schema is made of hold no references that it lacks. -/
theorem references_part {v : Value} {s : Shape} (h : shape v = .ok s) {x : Value}
    (hx : x ∈ s.parts) : x.references ⊆ v.references := by
  intro r hr
  obtain ⟨type, rfl, -⟩ | ⟨m, rfl, hne, h⟩ := shape_cases h
  · cases hx
  obtain ⟨c, parts, hcombined, rfl⟩ | ⟨c, xs, rfl⟩ | h := h
  · obtain ⟨k, -, hk⟩ := List.exists_of_findSome?_eq_some hcombined
    obtain ⟨w, hw, he⟩ := Option.map_eq_some_iff.1 hk
    cases he
    exact Value.mem_references_of_get? hw (Value.mem_references_of_mem hx hr)
  · obtain ⟨y, -, rfl⟩ := List.mem_map.1 hx
    cases hr
  obtain ⟨type, -, rfl⟩ | rfl | h := plainShape_cases h
  · cases hx
  · obtain rfl := List.mem_singleton.1 hx
    exact Value.mem_references_of_field hr
  obtain rfl | ⟨props, required, hprops, -, rfl⟩ | ⟨extra, hextra, rfl⟩ :=
    objectShape_cases h
  · cases hx
  · simp only [Shape.parts, List.map_map, List.mem_map, Function.comp_apply] at hx
    obtain ⟨q, hq, rfl⟩ := hx
    refine Value.mem_references_of_get? hprops ?_
    rw [Value.references, List.mem_append, Value.mem_referencesOfEntries]
    exact .inr ⟨q, hq, hr⟩
  · obtain rfl := List.mem_singleton.1 hx
    exact Value.mem_references_of_get? hextra hr

theorem trimmed_ne_of_mem {t name : String} {c : Char} (hc : c ∈ t.toList)
    (hblank : Text.isBlank c = false) (hname : c ∉ name.toList) : Text.trimmed t ≠ name := by
  rintro rfl
  rw [Text.trimmed, String.toList_ofList] at hname
  exact hname (mem_trim_of_not_isBlank hc (by rw [hblank]; decide))

theorem mem_intercalate_of_two (sep s t : String) (ts : List String) {c : Char}
    (hc : c ∈ sep.toList) : c ∈ (sep.intercalate (s :: t :: ts)).toList := by
  rw [String.intercalate_cons_of_ne_nil (by simp), String.toList_append, String.toList_append]
  simp [hc]

/-- Combined types are one of them, or their text has a sign. -/
theorem combination_cases (c : Combination) (ts : List String) : c.text ts = "unknown" ∨
    c.text ts ∈ ts ∨ ∃ sign ∈ ['|', '&'], sign ∈ (c.text ts).toList := by
  have hjoined : ∀ {sep : String} {sign : Char}, sign ∈ sep.toList → ts ≠ [] →
      sep.intercalate (dedupe ts) ∈ ts ∨ sign ∈ (sep.intercalate (dedupe ts)).toList := by
    intro sep sign hsign hne
    have hdupe : ∀ t, t ∈ dedupe ts ↔ t ∈ ts := fun t => List.mem_eraseDups
    match hdups : dedupe ts with
    | [] =>
      obtain ⟨t, ht⟩ := List.exists_mem_of_ne_nil ts hne
      exact absurd ((hdupe t).2 ht) (by simp [hdups])
    | [t] =>
      rw [String.intercalate_singleton]
      exact .inl ((hdupe t).1 (by simp [hdups]))
    | s :: t :: rest => exact .inr (mem_intercalate_of_two sep s t rest hsign)
  by_cases hne : ts = []
  · rw [hne]
    cases c <;> exact .inl rfl
  · have hempty : ¬ ts.isEmpty = true := by simpa using hne
    refine .inr ?_
    cases c with
    | union =>
      show unionText ts ∈ ts ∨ ∃ sign ∈ _, sign ∈ (unionText ts).toList
      rw [unionText, if_neg hempty]
      exact (@hjoined _ '|' (by decide) hne).imp_right fun h => ⟨'|', by decide, h⟩
    | inter =>
      show intersectionText ts ∈ ts ∨ ∃ sign ∈ _, sign ∈ (intersectionText ts).toList
      rw [intersectionText, if_neg hempty]
      exact (@hjoined _ '&' (by decide) hne).imp_right fun h => ⟨'&', by decide, h⟩

/-- A sign of a type stays when blanks go, and no word has one. -/
theorem sign_not_mem_of_trimmed_eq {name t : String} (hname : isWords name = true)
    (ht : Text.trimmed t = name) :
    ∀ sign ∈ ['|', '&', '[', '<', '\x7b'], sign ∉ t.toList := by
  intro sign hmem hin
  have hall : ∀ c ∈ ['|', '&', '[', '<', '\x7b'],
      (!Text.isBlank c && !TypeText.isWordChar c) = true := List.all_eq_true.1 (by decide)
  obtain ⟨hblank, hword⟩ : Text.isBlank sign = false ∧ TypeText.isWordChar sign = false := by
    simpa using hall sign hmem
  refine trimmed_ne_of_mem hin hblank (fun hmem => ?_) ht
  rw [List.all_eq_true.1 hname sign hmem] at hword
  cases hword

/-- The type of a schema is, but for blanks around it, a word that is no common type only if it is
the name of a reference. -/
theorem exists_ref_of_typeText {name : String} (hname : isWords name = true)
    (hplain : name ∉ plainNames) {v : Value} {t : String} (h : typeText v = .ok t)
    (ht : Text.trimmed t = name) :
    ∃ ref ∈ v.references, Text.trimmed (Reference.targetName ref) = name := by
  induction hn : sizeOf v using Nat.strongRecOn generalizing v t with
  | ind n ih =>
    subst hn
    rw [typeText_eq] at h
    obtain ⟨s, hs, h⟩ := Outcome.bind_eq_ok.1 h
    have hsign := sign_not_mem_of_trimmed_eq hname ht
    cases s with
    | name type =>
      cases h
      obtain ⟨ref, href, rfl⟩ | hmem := name_of_shape hs
      · refine ⟨ref, ?_, ht⟩
        cases v with
        | map m =>
          have hget : Entries.get? m (.str "$ref") = some (.str ref) := href
          refine Value.ref_mem_references ?_
          rw [Value.field, hget]
          rfl
        | _ => cases href
      · have hall : ∀ p ∈ plainNames, Text.trimmed p = p := by decide
        rw [hall _ hmem] at ht
        exact absurd (ht ▸ hmem) hplain
    | combination c parts =>
      obtain ⟨ts, hts, rfl⟩ := Outcome.map_eq_ok.1 h
      rcases combination_cases c ts with hunknown | hmem | ⟨sign, hmem, hin⟩
      · rw [hunknown] at ht
        have htrimmed : Text.trimmed "unknown" = "unknown" := by decide
        exact absurd (ht ▸ htrimmed ▸ by decide) hplain
      · obtain ⟨x, hx, hxt⟩ := Outcome.exists_of_mem_mapM hts hmem
        obtain ⟨ref, href, htarget⟩ := ih (sizeOf x) (size_shape hs hx) hxt ht rfl
        exact ⟨ref, references_part hs hx href, htarget⟩
      · exact absurd hin (hsign sign (List.mem_append_left ['[', '<', '\x7b'] hmem))
    | array item =>
      obtain ⟨u, -, rfl⟩ := Outcome.map_eq_ok.1 h
      unfold arrayText at hsign
      split at hsign
      · exact absurd (by simp) (hsign '[' (by decide))
      · exact absurd (by simp) (hsign '<' (by decide))
    | object fields =>
      obtain ⟨ts, -, rfl⟩ := Outcome.map_eq_ok.1 h
      exact absurd (by simp [objectText]) (hsign '\x7b' (by decide))
    | record value =>
      obtain ⟨u, -, rfl⟩ := Outcome.map_eq_ok.1 h
      exact absurd (by simp) (hsign '<' (by decide))

end Schema

end ApiScribe
