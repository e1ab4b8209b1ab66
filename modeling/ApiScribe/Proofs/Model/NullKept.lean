import ApiScribe.Model.Text
import ApiScribe.Proofs.Model.Closed
import ApiScribe.Proofs.Text.Standing
import ApiScribe.Proofs.TypeText.Alternatives

/-! Null in the texts of types. The texts of aliases and of properties offer null if their schemas
can be null. The texts of the items of arrays never do, so null is kept exactly if no schema of
items can be null. -/
namespace ApiScribe

namespace ModelType

open TypeText

mutual

/-- Whether the names and the numbers in a type are plain words. -/
def isPlain : ModelType → Bool
  | .ref name => isPlainWord name
  | .literal l => l.kind == .string || isPlainWord l.value
  | .array item => item.isPlain
  | .union variants => arePlain variants
  | _ => true

/-- Whether the names and the numbers in types are plain words. -/
def arePlain : List ModelType → Bool
  | [] => true
  | t :: ts => t.isPlain && arePlain ts

end

mutual

/-- The types of the items of the arrays in a type, at any depth. -/
def itemTypes : ModelType → List ModelType
  | .array item => item :: item.itemTypes
  | .union variants => itemTypesAll variants
  | _ => []

/-- The types of the items of the arrays in types. -/
def itemTypesAll : List ModelType → List ModelType
  | [] => []
  | t :: ts => t.itemTypes ++ itemTypesAll ts

end

theorem itemTypesAll_eq (ts : List ModelType) : itemTypesAll ts = ts.flatMap itemTypes := by
  induction ts with
  | nil => rfl
  | cons t ts ih => rw [itemTypesAll, ih, List.flatMap_cons]

theorem collects_itemTypes : Collects itemTypes where
  string := by rw [itemTypes] <;> simp
  number := by rw [itemTypes] <;> simp
  boolean := by rw [itemTypes] <;> simp
  object := by rw [itemTypes] <;> simp
  literal := fun l => by rw [itemTypes] <;> simp
  union := fun ts => by rw [itemTypes, itemTypesAll_eq]

mutual

theorem isPlain_of_mem_itemTypes {u : ModelType} (t : ModelType) (h : t.isPlain = true)
    (hu : u ∈ t.itemTypes) : u.isPlain = true := by
  cases t with
  | array item =>
    rw [isPlain] at h
    rw [itemTypes] at hu
    rcases List.mem_cons.1 hu with rfl | hu
    · exact h
    · exact isPlain_of_mem_itemTypes item h hu
  | union variants =>
    rw [isPlain] at h
    rw [itemTypes] at hu
    exact isPlain_of_mem_itemTypesAll variants h hu
  | _ => simp [itemTypes] at hu

theorem isPlain_of_mem_itemTypesAll {u : ModelType} (ts : List ModelType)
    (h : arePlain ts = true) (hu : u ∈ itemTypesAll ts) : u.isPlain = true := by
  cases ts with
  | nil => cases hu
  | cons t ts =>
    rw [arePlain, Bool.and_eq_true] at h
    rw [itemTypesAll] at hu
    rcases List.mem_append.1 hu with hu | hu
    · exact isPlain_of_mem_itemTypes t h.1 hu
    · exact isPlain_of_mem_itemTypesAll ts h.2 hu

end

variable (style : ModelStyle) (current : String)

/-- The name of another model is one piece, and never null. -/
theorem readsWithoutNull_referenceText {name : String} (h : isPlainWord name = true) :
    ReadsWithoutNull (referenceText style current name) := by
  unfold referenceText
  split
  · have hname := (isPlainWord_iff.1 h).1
    have hhere : IsQuoted "./".toList := isQuoted_of_isPlainChar (List.all_eq_true.1 (by decide))
    have hquoted := hhere.append (isQuoted_of_isPlainChar hname)
    have himport : IsPiece "import".toList "import".toList := isPiece_of_all (by decide)
    have hdot : IsPiece ".".toList ".".toList := isPiece_of_all (by decide)
    have hpath := hquoted.isPiece.isInner.bracketed (p := ('(', ')')) (by simp)
    have hread := ((himport.append hpath).append hdot).append (isPiece_of_isPlainChar hname)
    exact hread.readsWithoutNull (by simp [String.toList_append]) (by simp)
  · exact readsWithoutNull_of_isPlainWord h

mutual

/-- The text of a type offers no null. -/
theorem readsWithoutNull_text (t : ModelType) (h : t.isPlain = true) :
    ReadsWithoutNull (t.text style current) := by
  cases t with
  | ref name =>
    rw [isPlain] at h
    rw [text]
    exact readsWithoutNull_referenceText style current h
  | array item =>
    rw [isPlain] at h
    rw [text]
    obtain ⟨kept, hkept⟩ := (readsWithoutNull_text item h).inner
    have harray : IsPiece "Array".toList "Array".toList := isPiece_of_all (by decide)
    have hread := harray.append (hkept.bracketed (p := ('<', '>')) (by simp))
    exact hread.readsWithoutNull (by simp [String.toList_append]) (by simp)
  | union variants =>
    rw [isPlain] at h
    rw [text]
    exact readsWithoutNull_intercalate (readsWithoutNull_typeTexts variants h)
  | literal l =>
    rw [isPlain, Bool.or_eq_true, beq_iff_eq] at h
    rw [text, Literal.text]
    split
    · refine (isPiece_quotedRaw l.value).readsWithoutNull rfl ?_
      simp [Json.quotedRaw, Json.quotedChars]
    · next hnumber =>
      refine readsWithoutNull_of_isPlainWord (h.resolve_left ?_)
      simp [hnumber]
  | _ =>
    rw [text]
    exact readsWithoutNull_of_isPlainWord (by decide)

theorem readsWithoutNull_typeTexts (ts : List ModelType) (h : arePlain ts = true) :
    ∀ s ∈ typeTexts style current ts, ReadsWithoutNull s := by
  cases ts with
  | nil => simp [typeTexts]
  | cons t ts =>
    rw [arePlain, Bool.and_eq_true] at h
    rw [typeTexts]
    exact List.forall_mem_cons.2 ⟨readsWithoutNull_text t h.1, readsWithoutNull_typeTexts ts h.2⟩

end

/-- The text of a type whose values may be null offers null. -/
theorem null_mem_alternatives_textOrNull {t : ModelType} (h : t.isPlain = true) :
    "null" ∈ alternatives (t.textOrNull style current true) := by
  have hnull : alternatives "null" = ["null"] := by decide
  have hcloses := (readsWithoutNull_text style current t h).closes
  have htext : t.textOrNull style current true = t.text style current ++ " | " ++ "null" := by
    rw [textOrNull, if_pos rfl, String.append_assoc]
    rfl
  rw [htext, alternatives_bar hcloses, hnull]
  exact List.mem_append_right _ (List.mem_singleton_self _)

mutual

/-- The types of items stand in the text of a type as what arrays are of. -/
theorem standsIn_of_mem_itemTypes {u : ModelType} (t : ModelType) (hu : u ∈ t.itemTypes) :
    StandsIn ((array u).text style current) (t.text style current) := by
  cases t with
  | array item =>
    rw [itemTypes] at hu
    rcases List.mem_cons.1 hu with rfl | hu
    · exact StandsIn.refl _
    · refine (standsIn_of_mem_itemTypes item hu).trans ?_
      have htext : (array item).text style current = "Array<" ++ item.text style current ++ ">" :=
        by rw [text]
      rw [htext]
      exact ((StandsIn.refl _).append_left _).append_right _
  | union variants =>
    rw [itemTypes] at hu
    obtain ⟨s, hs, hus⟩ := standsIn_of_mem_itemTypesAll variants hu
    have htext : (union variants).text style current =
        " | ".intercalate (typeTexts style current variants) := by rw [text]
    rw [htext]
    exact hus.trans (standsIn_intercalate _ hs)
  | _ => simp [itemTypes] at hu

theorem standsIn_of_mem_itemTypesAll {u : ModelType} (ts : List ModelType)
    (hu : u ∈ itemTypesAll ts) :
    ∃ s ∈ typeTexts style current ts, StandsIn ((array u).text style current) s := by
  cases ts with
  | nil => cases hu
  | cons t ts =>
    rw [itemTypesAll] at hu
    rw [typeTexts]
    rcases List.mem_append.1 hu with hu | hu
    · exact ⟨_, List.mem_cons_self, standsIn_of_mem_itemTypes t hu⟩
    · obtain ⟨s, hs, hus⟩ := standsIn_of_mem_itemTypesAll ts hu
      exact ⟨s, List.mem_cons_of_mem _ hs, hus⟩

end

theorem standsIn_textOrNull (t : ModelType) (nullable : Bool) :
    StandsIn (t.text style current) (t.textOrNull style current nullable) := by
  cases nullable with
  | false => exact StandsIn.refl _
  | true => exact (StandsIn.refl _).append_right _

end ModelType

namespace Model

open TypeText

variable {document v x : Value} {m : Model} {fields : List (Scalar × Value)} {place : String}

theorem items_subset_below : items v ⊆ below v := by
  intro x hx
  unfold items at hx
  split at hx
  · split at hx
    · exact hx
    · cases hx
  · cases hx

/-- The schemas of the items of the arrays in the type of a schema, at any depth. -/
def itemSchemas (v : Value) : List Value := (Value.within below size_below v).flatMap items

theorem mem_itemSchemas :
    x ∈ itemSchemas v ↔ x ∈ items v ∨ ∃ y ∈ below v, x ∈ itemSchemas y := by
  rw [itemSchemas, Value.within_eq, List.flatMap_cons, List.flatMap_assoc, List.mem_append,
    List.mem_flatMap]
  rfl

theorem itemSchemas_of_below (h : below v = []) : itemSchemas v = [] := by
  refine List.eq_nil_iff_forall_not_mem.2 fun x hx => ?_
  rcases mem_itemSchemas.1 hx with hx | ⟨y, hy, -⟩
  · have hmem := items_subset_below hx
    rw [h] at hmem
    cases hmem
  · rw [h] at hy
    cases hy

/-- What is below a schema that names types has a type, and that is one of items. -/
theorem exists_itemType_of_named {fields : List (Scalar × Value)} {y : Value} {t : ModelType}
    (hbelow : below (.map fields) = if namesArray (Value.field fields "type") then
      (Entries.get? fields (.str "items")).toList else [])
    (hname : typeByName fields place (arrayOf fields place) (Value.field fields "type") = .ok t)
    (hy : y ∈ below (.map fields)) (hnull : y ≠ .null) :
    ∃ w inner, typeOf y inner = .ok w ∧ w :: w.itemTypes ⊆ t.itemTypes := by
  obtain ⟨harray, hmem⟩ := collected_typeByName ModelType.collects_itemTypes _ hname
  have hsome : ∃ x ∈ below (.map fields), x = y := ⟨y, hy, rfl⟩
  rw [hbelow, exists_mem_ite] at hsome
  obtain ⟨hnames, _, hget, rfl⟩ := hsome
  obtain ⟨a, ha⟩ := harray hnames
  obtain ⟨w, hw, rfl⟩ := Outcome.map_eq_ok.1
    ((arrayOf_eq (Option.mem_toList.1 hget) hnull).symm.trans ha)
  refine ⟨w, _, hw, fun u hu => (hmem u).2 ⟨hnames, _, ha, ?_⟩⟩
  rwa [ModelType.itemTypes]

/-- In the type of a schema, the schema of items has a type of items. -/
theorem exists_itemType {t : ModelType} (hx : x ∈ itemSchemas v) (hnull : x ≠ .null)
    (h : typeOf v place = .ok t) : ∃ u ∈ t.itemTypes, ∃ inner, typeOf x inner = .ok u := by
  induction hn : sizeOf v using Nat.strongRecOn generalizing v place t with
  | ind k ih =>
    subst hn
    have hbelow : ∀ y ∈ below v, x ∈ itemSchemas y → ∀ place w, typeOf y place = .ok w →
        ∃ u ∈ w.itemTypes, ∃ inner, typeOf x inner = .ok u :=
      fun y hy hxy place w hw => ih (sizeOf y) (size_below v y hy) hxy hw rfl
    cases isMadeOf_of_typeOf h with
    | ref href =>
      rw [itemSchemas_of_below (below_of_ref href)] at hx
      cases hx
    | parts _ hitems hts =>
      rcases mem_itemSchemas.1 hx with hx | ⟨y, hy, hxy⟩
      · rw [hitems] at hx
        cases hx
      · obtain ⟨w, hw, hyw⟩ := Outcome.exists_of_mapM_mem hts hy
        obtain ⟨u, hu, hxu⟩ := hbelow y hy hxy _ w hyw
        rw [collected_unionOf ModelType.collects_itemTypes]
        exact ⟨u, List.mem_flatMap.2 ⟨w, hw, hu⟩, hxu⟩
    | @named fields _ _ hitems hnamed hname =>
      -- The items are below, and so is whatever else has items.
      have hsome : ∃ y ∈ below (.map fields), x = y ∨ x ∈ itemSchemas y := by
        rcases mem_itemSchemas.1 hx with hx | ⟨y, hy, hxy⟩
        · exact ⟨x, hitems ▸ hx, .inl rfl⟩
        · exact ⟨y, hy, .inr hxy⟩
      obtain ⟨y, hy, hxy⟩ := hsome
      have hne : y ≠ .null := by
        rintro rfl
        rcases hxy with rfl | hxy
        · exact hnull rfl
        · rw [itemSchemas_of_below (by simp [below])] at hxy
          cases hxy
      obtain ⟨w, inner, hw, hsubset⟩ := exists_itemType_of_named hnamed hname hy hne
      rcases hxy with rfl | hxy
      · exact ⟨w, hsubset List.mem_cons_self, inner, hw⟩
      · obtain ⟨u, hu, hxu⟩ := hbelow y hy hxy inner w hw
        exact ⟨u, hsubset (List.mem_cons_of_mem w hu), hxu⟩

/-- The texts of types in the file of a model, each with the schema that it is for: that of an
alias, those of properties, and those of the items of arrays in either. -/
inductive Spelled (document : Value) (style : ModelStyle) (fields : List (Scalar × Value))
    (m : Model) : Value → String → Prop
  | target {t : ModelType} {nullable : Bool} (hkind : m.kind = .aliased t nullable) :
      Spelled document style fields m (.map fields) (t.textOrNull style m.name nullable)
  | property {ps : List ModelProperty} {q : ModelProperty} {e : Scalar × Value} {owner : String}
      {required : List Scalar} (hkind : m.kind = .interface ps) (hq : q ∈ ps)
      (he : e ∈ (Value.field fields "properties").entries?.getD [])
      (h : Model.property document owner required e.1 e.2 = .ok q) :
      Spelled document style fields m e.2 (q.type.textOrNull style m.name q.nullable)
  | item {v x : Value} {t u : ModelType} {place inner : String} (hv : v ∈ sources fields)
      (ht : t ∈ m.kind.types) (htype : typeOf v place = .ok t) (hx : x ∈ itemSchemas v)
      (hu : u ∈ t.itemTypes) (hitem : typeOf x inner = .ok u) :
      Spelled document style fields m x (u.text style m.name)

section Lines

variable (style : ModelStyle)

theorem exists_line_of_aliased {t : ModelType} {nullable : Bool}
    (h : m.kind = .aliased t nullable) :
    ∃ line ∈ m.lines style, StandsIn (t.textOrNull style m.name nullable) line := by
  refine ⟨keyword style ++ " type " ++ m.name ++ " = " ++ t.textOrNull style m.name nullable ++ ";",
    ?_, ((StandsIn.refl _).append_left _).append_right _⟩
  rw [lines, h]
  exact List.mem_append_right _ (List.mem_singleton_self _)

theorem exists_line_of_interface {ps : List ModelProperty} {q : ModelProperty}
    (h : m.kind = .interface ps) (hq : q ∈ ps) :
    ∃ line ∈ m.lines style, StandsIn (q.type.textOrNull style m.name q.nullable) line := by
  refine ⟨"  " ++ propertyKey q.name ++ (if q.required then "" else "?") ++ ": "
    ++ q.type.textOrNull style m.name q.nullable ++ ";", ?_,
    ((StandsIn.refl _).append_left _).append_right _⟩
  have hline := List.mem_append_right (commentLine "  " q.description) (List.mem_singleton_self
    ("  " ++ propertyKey q.name ++ (if q.required then "" else "?") ++ ": "
      ++ q.type.textOrNull style m.name q.nullable ++ ";"))
  rw [lines, h]
  refine List.mem_append_right _ (List.mem_append_left _ (List.mem_append_right _ ?_))
  exact List.mem_flatMap.2 ⟨q, hq, hline⟩

theorem exists_line_of_mem_types {t : ModelType} (h : t ∈ m.kind.types) :
    ∃ line ∈ m.lines style, StandsIn (t.text style m.name) line := by
  have hline : ∃ nullable, ∃ line ∈ m.lines style,
      StandsIn (t.textOrNull style m.name nullable) line := by
    cases hkind : m.kind with
    | interface ps =>
      rw [hkind] at h
      obtain ⟨q, hq, rfl⟩ := List.mem_map.1 h
      exact ⟨_, exists_line_of_interface style hkind hq⟩
    | aliased target nullable =>
      rw [hkind] at h
      rw [List.mem_singleton.1 h]
      exact ⟨_, exists_line_of_aliased style hkind⟩
    | enum es =>
      rw [hkind] at h
      cases h
  obtain ⟨nullable, line, hline, hin⟩ := hline
  exact ⟨line, hline, (t.standsIn_textOrNull style m.name nullable).trans hin⟩

theorem Spelled.exists_line {style : ModelStyle} {text : String}
    (h : Spelled document style fields m v text) :
    ∃ line ∈ m.lines style, StandsIn text line := by
  cases h with
  | target hkind => exact exists_line_of_aliased style hkind
  | property hkind hq => exact exists_line_of_interface style hkind hq
  | @item _ _ t u _ _ _ ht _ _ hu =>
    obtain ⟨line, hline, hin⟩ := exists_line_of_mem_types style ht
    have hitem : StandsIn (u.text style m.name) ((ModelType.array u).text style m.name) := by
      rw [ModelType.text]
      exact ((StandsIn.refl _).append_left _).append_right _
    have harray := ModelType.standsIn_of_mem_itemTypes style m.name t hu
    exact ⟨line, hline, (hitem.trans harray).trans hin⟩

theorem content_file (m : Model) : (m.file style).content = Render.fileText (m.lines style) := by
  rw [file]

/-- What is spelled stands in the file of the model. -/
theorem Spelled.standsIn_file {style : ModelStyle} {text : String}
    (h : Spelled document style fields m v text) : StandsIn text (m.file style).content := by
  obtain ⟨line, hline, hin⟩ := h.exists_line
  rw [content_file]
  exact hin.trans (Render.standsIn_fileText hline)

end Lines

/-- The schemas that a model is made from have its types, or nothing below them. -/
theorem exists_type_of_mem_sources {kind : ModelKind} (h : kindOf document fields place = .ok kind)
    (hv : v ∈ sources fields) :
    (∃ t ∈ kind.types, ∃ place, typeOf v place = .ok t) ∨ below v = [] := by
  cases becomes_of_kindOf h with
  | interface hinterface hps =>
    rw [sources, if_pos hinterface] at hv
    obtain ⟨e, he, rfl⟩ := List.mem_map.1 hv
    obtain ⟨required, -, hentries⟩ := properties_eq_ok hps
    obtain ⟨q, hq, heq⟩ := hentries e he
    exact .inl ⟨q.type, List.mem_map_of_mem hq, (property_eq_ok heq).1⟩
  | aliased hinterface htype =>
    rw [sources, hinterface, if_neg Bool.false_ne_true] at hv
    rw [List.mem_singleton.1 hv]
    exact .inl ⟨_, List.mem_singleton_self _, _, htype⟩
  | primitive hinterface _ hbelow =>
    rw [sources, hinterface, if_neg Bool.false_ne_true] at hv
    rw [List.mem_singleton.1 hv]
    exact .inr hbelow
  | enum hinterface _ hbelow =>
    rw [sources, hinterface, if_neg Bool.false_ne_true] at hv
    rw [List.mem_singleton.1 hv]
    exact .inr hbelow

/-- The flag of an alias is whether its schema can be null. -/
theorem canBeNull_of_aliased {t : ModelType} {nullable : Bool}
    (h : kindOf document fields place = .ok (.aliased t nullable)) :
    Nullable.canBeNull document (.map fields) = .ok nullable := by
  cases becomes_of_kindOf h with
  | aliased _ _ hnull => exact hnull
  | primitive _ _ _ hnull => exact hnull

end Model

namespace ModelSet

open Model

/-- Models in whose files null is offered for every schema that can be null. -/
def KeepsNull (document : Value) (style : ModelStyle) (s : ModelSet) : Prop :=
  ∀ p ∈ Schema.entries document, ∀ fields, p.2 = .map fields →
    ∀ m ∈ s.models, ofSchema document p.1 p.2 = .ok m →
      ∀ v text, Spelled document style fields m v text →
        Nullable.canBeNull document v = .ok true → "null" ∈ TypeText.alternatives text

/-- Models whose types are plain. -/
def IsPlain (s : ModelSet) : Prop := ∀ m ∈ s.models, ∀ t ∈ m.kind.types, t.isPlain = true

variable {document : Value} {s : ModelSet}

/-- In aliases and properties null is kept. -/
theorem null_mem_alternatives_of_spelled {style : ModelStyle} {fields : List (Scalar × Value)}
    {m : Model} {place text : String} {v : Value}
    (hkind : kindOf document fields place = .ok m.kind)
    (hplain : ∀ t ∈ m.kind.types, t.isPlain = true) (h : Spelled document style fields m v text)
    (hnull : Nullable.canBeNull document v = .ok true) :
    "null" ∈ TypeText.alternatives text ∨ ∃ w ∈ sources fields, v ∈ itemSchemas w := by
  cases h with
  | @target t nullable htarget =>
    rw [htarget] at hkind hplain
    cases (canBeNull_of_aliased hkind).symm.trans hnull
    exact .inl (t.null_mem_alternatives_textOrNull style m.name
      (hplain t (List.mem_singleton_self t)))
  | @property ps q e owner required hps hq he hproperty =>
    rw [hps] at hplain
    have hflag : q.nullable = true :=
      Except.ok.inj ((property_eq_ok hproperty).2.symm.trans hnull)
    rw [hflag]
    exact .inl (q.type.null_mem_alternatives_textOrNull style m.name
      (hplain q.type (List.mem_map_of_mem hq)))
  | item hv _ _ hx => exact .inr ⟨_, hv, hx⟩

/-- Null is kept in the files of models exactly if no schema of items, at any depth, can be null:
aliases and properties offer null whenever their schemas can be null, items never do. -/
theorem keepsNull_iff (style : ModelStyle) (h : ofDocument document = .ok s) (hplain : s.IsPlain) :
    s.KeepsNull document style ↔ ∀ p ∈ Schema.entries document, ∀ fields, p.2 = .map fields →
      ∀ v ∈ sources fields, ∀ x ∈ itemSchemas v,
        Nullable.canBeNull document x ≠ .ok true := by
  constructor
  · intro hkeeps p hp fields hfields v hv x hx hnull
    obtain ⟨m, hm, hpm⟩ := (models_of_ofDocument h).2 p hp
    obtain ⟨-, fields', hfields', hkind⟩ := ofSchema_eq_ok hpm
    cases hfields.symm.trans hfields'
    have hne : x ≠ .null := by
      rintro rfl
      exact Nullable.canBeNull_ne_true_of_not_map (by simp) hnull
    rcases exists_type_of_mem_sources hkind hv with ⟨t, ht, place, htype⟩ | hbelow
    · obtain ⟨u, hu, inner, hitem⟩ := exists_itemType hx hne htype
      have hspelled : Spelled document style fields m x (u.text style m.name) :=
        .item hv ht htype hx hu hitem
      have hread := u.readsWithoutNull_text style m.name
        (ModelType.isPlain_of_mem_itemTypes t (hplain m hm t ht) hu)
      exact hread.not_null (hkeeps p hp fields hfields m hm hpm x _ hspelled hnull)
    · rw [itemSchemas_of_below hbelow] at hx
      cases hx
  · intro hitems p hp fields hfields m hm hpm v text hspelled hnull
    obtain ⟨-, fields', hfields', hkind⟩ := ofSchema_eq_ok hpm
    cases hfields.symm.trans hfields'
    rcases null_mem_alternatives_of_spelled hkind (hplain m hm) hspelled hnull with
      hkept | ⟨w, hw, hv⟩
    · exact hkept
    · exact absurd hnull (hitems p hp fields hfields w hw v hv)

/-- A word, or null as well. -/
def wordSchema (nullable : Bool) : List (Scalar × Value) :=
  [(.str "type", .str "string"), (.str "nullable", .bool nullable)]

/-- A list of such words, or null as well. -/
def wordsSchema (nullable nullableWords : Bool) : List (Scalar × Value) :=
  [(.str "type", .str "array"), (.str "nullable", .bool nullable),
    (.str "items", .map (wordSchema nullableWords))]

def wordsDocument (nullable nullableWords : Bool) : Value :=
  .record [("components", .record [("schemas",
    .record [("Words", .map (wordsSchema nullable nullableWords))])])]

section Words

variable (nullable nullableWords : Bool)

theorem canBeNull_wordSchema (document : Value) :
    Nullable.canBeNull document (.map (wordSchema nullable)) = .ok nullable := by
  have hmarked : Nullable.isMarked (wordSchema nullable) = nullable := by
    cases nullable <;> decide +kernel
  have hcan := Nullable.canBeNull_of_plain document (m := wordSchema nullable) rfl
    (List.forall_mem_cons.2 ⟨rfl, List.forall_mem_cons.2 ⟨rfl, List.forall_mem_singleton.2 rfl⟩⟩)
  rw [hcan, hmarked]

theorem canBeNull_wordsSchema (document : Value) :
    Nullable.canBeNull document (.map (wordsSchema nullable nullableWords)) = .ok nullable := by
  have hmarked : Nullable.isMarked (wordsSchema nullable nullableWords) = nullable := by
    cases nullable <;> cases nullableWords <;> decide +kernel
  have hcan := Nullable.canBeNull_of_plain document (m := wordsSchema nullable nullableWords) rfl
    (List.forall_mem_cons.2 ⟨rfl, List.forall_mem_cons.2 ⟨rfl, List.forall_mem_singleton.2 rfl⟩⟩)
  rw [hcan, hmarked]

theorem typeOf_wordSchema (place : String) :
    typeOf (.map (wordSchema nullable)) place = .ok .string := typeOf_of_items rfl rfl rfl

theorem typeOf_wordsSchema (place : String) :
    typeOf (.map (wordsSchema nullable nullableWords)) place = .ok (.array .string) := by
  have harray : arrayOf (wordsSchema nullable nullableWords) place =
      ModelType.array <$> typeOf (.map (wordSchema nullableWords)) (place ++ "[]") :=
    arrayOf_eq rfl (by simp)
  rw [typeOf_wordSchema] at harray
  exact (typeOf_of_items rfl rfl rfl).trans harray

theorem ofSchema_wordsSchema :
    ofSchema (wordsDocument nullable nullableWords) (.str "Words")
      (.map (wordsSchema nullable nullableWords)) =
        .ok ⟨"Words", none, .aliased (.array .string) nullable⟩ := by
  have hkind : kindOf (wordsDocument nullable nullableWords)
      (wordsSchema nullable nullableWords) "Words" = .ok (.aliased (.array .string) nullable) :=
    Outcome.bind_eq_ok.2 ⟨some "array", rfl, Outcome.bind_eq_ok.2 ⟨_, typeOf_wordsSchema _ _ _,
      Outcome.bind_eq_ok.2 ⟨_, canBeNull_wordsSchema _ _ _, rfl⟩⟩⟩
  exact Outcome.bind_eq_ok.2 ⟨_, hkind, rfl⟩

theorem ofDocument_wordsDocument : ofDocument (wordsDocument nullable nullableWords) =
    .ok ⟨[⟨"Words", none, .aliased (.array .string) nullable⟩]⟩ := by
  have hschemas : namedSchemas (.map [(.str "Words", .map (wordsSchema nullable nullableWords))]) =
      .ok [(.str "Words", .ok (.map (wordsSchema nullable nullableWords)))] := rfl
  refine Outcome.bind_eq_ok.2 ⟨_, rfl, Outcome.bind_eq_ok.2 ⟨_, hschemas,
    Outcome.bind_eq_ok.2 ⟨[_], ?_, rfl⟩⟩⟩
  exact Outcome.mapM_eq_ok.2 (.cons (ofSchema_wordsSchema nullable nullableWords) .nil)

theorem mem_itemSchemas_wordsSchema {x : Value} :
    x ∈ itemSchemas (.map (wordsSchema nullable nullableWords)) ↔
      x = .map (wordSchema nullableWords) := by
  have hitems : items (.map (wordsSchema nullable nullableWords)) =
      [.map (wordSchema nullableWords)] := rfl
  have hbelow : below (.map (wordsSchema nullable nullableWords)) =
      [.map (wordSchema nullableWords)] := rfl
  have hword : itemSchemas (.map (wordSchema nullableWords)) = [] := itemSchemas_of_below rfl
  rw [mem_itemSchemas, hitems, hbelow]
  simp [hword]

end Words

/-- That a list is null is kept, as none of its words is. -/
theorem keepsNull_wordsDocument : ∃ s, ofDocument (wordsDocument true false) = .ok s ∧
    s.IsPlain ∧ s.KeepsNull (wordsDocument true false) .declarations := by
  have hplain : IsPlain ⟨[⟨"Words", none, .aliased (.array .string) true⟩]⟩ := by
    intro m hm t ht
    rw [List.mem_singleton.1 hm] at ht
    rw [List.mem_singleton.1 ht]
    rfl
  refine ⟨_, ofDocument_wordsDocument true false, hplain,
    (keepsNull_iff .declarations (ofDocument_wordsDocument true false) hplain).2 ?_⟩
  intro p hp fields hfields v hv x hx
  have hp : p = (.str "Words", .map (wordsSchema true false)) := List.mem_singleton.1 hp
  cases hp
  cases hfields
  have hv : v = .map (wordsSchema true false) := List.mem_singleton.1 hv
  rw [hv, mem_itemSchemas_wordsSchema] at hx
  rw [hx, canBeNull_wordSchema]
  exact nofun

/-- The words of a list may be null, and are spelled without it. -/
theorem not_keepsNull_wordsDocument : ∃ s, ofDocument (wordsDocument false true) = .ok s ∧
    ¬ s.KeepsNull (wordsDocument false true) .declarations := by
  refine ⟨_, ofDocument_wordsDocument false true, ?_⟩
  intro hkeeps
  have hspelled : Spelled (wordsDocument false true) .declarations (wordsSchema false true)
      ⟨"Words", none, .aliased (.array .string) false⟩ (.map (wordSchema true)) "string" := by
    have hitem : ModelType.string ∈ (ModelType.array .string).itemTypes := by
      rw [ModelType.itemTypes]
      exact List.mem_cons_self
    exact .item (List.mem_singleton_self _) (List.mem_singleton_self _)
      (typeOf_wordsSchema false true "Words") ((mem_itemSchemas_wordsSchema false true).2 rfl)
      hitem (typeOf_wordSchema true "Words[]")
  have hnull := hkeeps (.str "Words", .map (wordsSchema false true)) (List.mem_singleton_self _)
    _ rfl _ (List.mem_singleton_self _) (ofSchema_wordsSchema false true) _ _ hspelled
    (canBeNull_wordSchema true _)
  exact absurd hnull (by decide)

end ModelSet

end ApiScribe
