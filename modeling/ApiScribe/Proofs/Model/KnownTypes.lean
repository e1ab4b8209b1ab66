import ApiScribe.Proofs.Model.References
import ApiScribe.Proofs.Schema.Mentions

/-! Types that models know, in the texts of schemas. Models leave null out among alternatives and
take each type of a list for itself. The text of a schema has `unknown` in both places, unless null
or the schema tells a type in another way. If nothing in the type of a model is a mere object,
its text misses the type nowhere else. -/
namespace ApiScribe

namespace ModelType

mutual

/-- Whether an object stands anywhere in a type. -/
def hasObject : ModelType → Bool
  | .object => true
  | .array item => item.hasObject
  | .union variants => haveObject variants
  | _ => false

/-- Whether an object stands anywhere in types. -/
def haveObject : List ModelType → Bool
  | [] => false
  | t :: ts => t.hasObject || haveObject ts

end

theorem haveObject_eq (ts : List ModelType) : haveObject ts = ts.any hasObject := by
  induction ts with
  | nil => rfl
  | cons t ts ih => rw [haveObject, ih, List.any_cons]

end ModelType

namespace Model

open Schema

variable {m : List (Scalar × Value)} {place : String} {item : Outcome ModelType} {t : ModelType}
  {v x : Value}

/-- A union has no object if there are variants, and none of them has one. -/
theorem hasObject_unionOf {ts : List ModelType} (h : (unionOf ts).hasObject = false) :
    ts ≠ [] ∧ ∀ u ∈ ts, u.hasObject = false := by
  unfold unionOf at h
  split at h
  · simp [ModelType.hasObject] at h
  · simpa using h
  · next hnil _ =>
    rw [ModelType.hasObject, ModelType.haveObject_eq, List.any_eq_false] at h
    exact ⟨hnil, by simpa using h⟩

theorem typesByNames_eq (ts : List Value) : typesByNames m place item ts =
    (ts.filter fun t => !t.isString "null").mapM (typeByName m place item) := by
  induction ts with
  | nil => rfl
  | cons t ts ih =>
    rw [typesByNames, ih, List.filter_cons]
    cases t.isString "null" with
    | true => rfl
    | false => rw [if_neg (by simp), if_pos (by simp), List.mapM_cons]

/-- If one text is left of the types that a schema names, that is its type. -/
theorem plainType_of_singleType {s : String} (hs : singleType m = .str s)
    (h : typeByName m place item (Value.field m "type") = .ok t) :
    plainType m item (some s) = .ok t := by
  have hone : ∀ w, typeByName m place item (.str s) = .ok w →
      plainType m item (some s) = .ok w := by
    intro w hw
    obtain ⟨type, htype, hw⟩ := Outcome.bind_eq_ok.1 hw
    rwa [soleType_eq_ok htype] at hw
  unfold singleType at hs
  split at hs
  · next ts hts =>
    rw [hts] at h
    obtain ⟨us, hus, rfl⟩ := Outcome.map_eq_ok.1 h
    rw [typesByNames_eq] at hus
    split at hs
    · next u hu =>
      rw [hu, hs] at hus
      obtain ⟨w, ws, hw, hws, rfl⟩ := List.forall₂_cons_left_iff.1 (Outcome.mapM_eq_ok.1 hus)
      cases hws
      exact hone w hw
    · cases hs
  · rw [hs] at h
    exact hone t h

/-- A type by its name without an object is a primitive, literals of one, or an array. -/
theorem plainType_cases {s : String} (h : plainType m item (some s) = .ok t)
    (hobject : t.hasObject = false) :
    s ∈ ["string", "integer", "number", "boolean"] ∨ s = "array" ∧ item = .ok t := by
  unfold plainType at h
  split at h
  · next kind hkind =>
    refine .inl ?_
    unfold literalKind? at hkind
    split at hkind <;> simp_all
  · split at h
    · next hboolean => simp_all
    split at h
    · next harray => exact .inr ⟨Option.some.inj harray, h⟩
    · cases h
      simp [ModelType.hasObject] at hobject

theorem plainShape_of_primitive {s : String} (hs : singleType m = .str s)
    (h : s ∈ ["string", "integer", "number", "boolean"]) :
    ∃ name, plainShape m = .ok (.name name) ∧ TypeText.IsKnown name := by
  simp only [List.mem_cons, List.not_mem_nil, or_false] at h
  unfold plainShape
  rw [hs]
  rcases h with rfl | rfl | rfl | rfl
  · exact ⟨"string", rfl, by decide⟩
  · exact ⟨"number", rfl, by decide⟩
  · exact ⟨"number", rfl, by decide⟩
  · exact ⟨"boolean", rfl, by decide⟩

theorem plainShape_of_array (hs : singleType m = .str "array") :
    plainShape m = .ok (.array (Value.field m "items")) := by
  unfold plainShape
  rw [hs]
  rfl

/-- An array without an object is one of items that have a type. -/
theorem arrayOf_eq_ok (h : arrayOf m place = .ok t) (hobject : t.hasObject = false) :
    ∃ y u, Entries.get? m (.str "items") = some y ∧ typeOf y (place ++ "[]") = .ok u ∧
      u.hasObject = false := by
  unfold arrayOf at h
  split at h
  · cases h
    simp [ModelType.hasObject] at hobject
  · cases h
    simp [ModelType.hasObject] at hobject
  · next y _ hy =>
    obtain ⟨u, hu, rfl⟩ := Outcome.map_eq_ok.1 h
    rw [ModelType.hasObject] at hobject
    exact ⟨y, u, hy, hu, hobject⟩

section Shapes

theorem combined?_eq_none_iff : combined? m = none ↔ alternatives? m = none ∧
    Entries.get? m (.str "allOf") = none := by
  simp [combined?, alternatives?, and_assoc]

theorem combined?_of_alternatives (h : alternatives? m = some v) :
    combined? m = some (.union, v) := by
  unfold alternatives? at h
  unfold combined?
  cases hone : Entries.get? m (.str "oneOf") with
  | some w => simp_all
  | none => simp_all

theorem combined?_of_members (halternatives : alternatives? m = none)
    (h : Entries.get? m (.str "allOf") = some v) : combined? m = some (.inter, v) := by
  simp_all [combined?, alternatives?]

variable (hno : Entries.get? m (.str "$ref") = none)
include hno

theorem shape_of_combined {c : Combination} {parts : List Value}
    (h : combined? m = some (c, .list parts)) : shape (.map m) = .ok (.combination c parts) := by
  have hempty : m.isEmpty = false := by
    cases m with
    | nil => simp [combined?, Entries.get?] at h
    | cons p m => rfl
  simp [shape, hempty, hno, h]

theorem shape_of_plain (hplain : combined? m = none) (hne : m ≠ []) :
    shape (.map m) = plainShape m := by
  simp [shape, hne, hno, hplain]

/-- A combination whose type has no object is one of schemas that are not null, of which there is
one at least, and they make the type. -/
theorem parts_of_typeOf {c : Combination} {w : Value} (hc : combined? m = some (c, w))
    (h : typeOf (.map m) place = .ok t) (hobject : t.hasObject = false) : ∃ parts ts,
      shape (.map m) = .ok (.combination c parts) ∧
      below (.map m) = parts.filter (fun x => !Nullable.isNullSchema x) ∧
      (below (.map m)).mapM (typeOf · place) = .ok ts ∧ t = unionOf ts := by
  have hfree : t ≠ .object := by
    rintro rfl
    simp [ModelType.hasObject] at hobject
  cases halternatives : alternatives? m with
  | some w' =>
    cases hc.symm.trans (combined?_of_alternatives halternatives)
    by_cases hlist : ∃ xs, w = .list xs
    · obtain ⟨parts, rfl⟩ := hlist
      rw [typeOf_of_alternatives hno halternatives] at h
      obtain ⟨ts, hts, rfl⟩ := Outcome.map_eq_ok.1 h
      have hbelow := below_of_alternatives hno halternatives
      exact ⟨parts, ts, shape_of_combined hno hc, hbelow, hbelow ▸ hts, rfl⟩
    · exact absurd (eq_object_of_no_list hno halternatives (not_exists.1 hlist) h) hfree
  | none =>
  cases hall : Entries.get? m (.str "allOf") with
  | some w' =>
    cases hc.symm.trans (combined?_of_members halternatives hall)
    by_cases hlist : ∃ xs, w = .list xs
    · obtain ⟨parts, rfl⟩ := hlist
      have hbelow := below_of_members hno halternatives hall
      rw [typeOf_of_members hno halternatives hall] at h
      split at h
      · next x hone =>
        rw [hone] at hbelow
        refine ⟨parts, [t], shape_of_combined hno hc, hbelow.trans hone.symm, ?_, rfl⟩
        rw [hbelow]
        exact Outcome.mapM_eq_ok.2 (.cons h .nil)
      · exact absurd (Except.ok.inj h).symm hfree
    · exact absurd (eq_object_of_no_member_list hno halternatives hall (not_exists.1 hlist) h)
        hfree
  | none =>
    rw [combined?_eq_none_iff.2 ⟨halternatives, hall⟩] at hc
    cases hc

end Shapes

theorem soleName_type : soleName (Value.field m "type") = (singleType m).str? := by
  unfold singleType
  cases Value.field m "type" with
  | list ts =>
    rw [soleName]
    dsimp only
    generalize ts.filter (fun t => !t.isString "null") = left
    rcases left with _ | ⟨t, _ | ⟨u, us⟩⟩
    · rfl
    · rfl
    · rfl
  | _ => rfl

theorem namesArray_of_singleType (hs : singleType m = .str "array") :
    namesArray (Value.field m "type") = true := by
  unfold singleType at hs
  split at hs
  · next ts hts =>
    split at hs
    · next u hu =>
      have hmem : u ∈ ts.filter fun t => !t.isString "null" := hu ▸ List.mem_singleton_self u
      rw [hts, namesArray, listsArray_eq, List.any_eq_true]
      refine ⟨u, (List.mem_filter.1 hmem).1, ?_⟩
      rw [hs]
      rfl
    · cases hs
  · rw [hs]
    rfl

/-- What is of arrays among others, and tells of items, is written as an array of them. -/
theorem plainShape_of_items (harray : namesArray (Value.field m "type") = true)
    (hx : Entries.get? m (.str "items") = some x) : plainShape m = .ok (.array x) := by
  have hother : ∀ s, s ≠ "array" → (singleType m).isString s = false := by
    intro s hs
    rw [← Bool.not_eq_true]
    intro hstring
    have hname : soleName (Value.field m "type") = some s := by
      rw [soleName_type, Value.isString_iff.1 hstring]
      rfl
    rw [namesArray_of_soleName hname hs] at harray
    cases harray
  have hfield : Value.hasField m "items" = true := by
    rw [Value.hasField_eq, hx, Option.isSome_some]
  simp [plainShape, hother, hfield, Value.field, hx]

/-- Types in models are made from fewer schemas than their texts are. -/
theorem below_subset : below v ⊆ Schema.below v := by
  intro x hx
  unfold below at hx
  split at hx
  · next m =>
    split at hx
    · next hno hxs =>
      rw [Schema.below_eq (shape_of_combined hno (combined?_of_alternatives hxs))]
      exact (List.mem_filter.1 hx).1
    · next hno halternatives hxs =>
      rw [Schema.below_eq (shape_of_combined hno (combined?_of_members halternatives hxs))]
      split at hx
      · next y hy => exact (List.mem_filter.1 (hy ▸ hx)).1
      · cases hx
    · next hno halternatives hall =>
      split at hx
      · next harray =>
        have hitems := Option.mem_toList.1 hx
        have hne : m ≠ [] := by
          rintro rfl
          cases hitems
        have hshape := shape_of_plain hno (combined?_eq_none_iff.2 ⟨halternatives, hall⟩) hne
        rw [plainShape_of_items harray hitems] at hshape
        rw [Schema.below_eq hshape]
        exact List.mem_singleton_self x
      · cases hx
    · cases hx
  · cases hx

/-- A schema whose type is written as far as models know it. Null among alternatives or members has
to tell a type, which the type `null` does not; so has a schema that does not name one type only. -/
structure KeepsType (v : Value) : Prop where
  target : ∀ ref, v.ref? = some ref → TypeText.IsKnown (Reference.targetName ref)
  nulls : ∀ c parts, shape v = .ok (.combination c parts) →
    ∀ x ∈ parts, Nullable.isNullSchema x = true → TellsType x
  types : ∀ m, v = .map m → Entries.get? m (.str "$ref") = none → combined? m = none →
    (∃ s, singleType m = .str s) ∨ TellsType v

theorem shape_of_ref {ref : String} (href : Entries.get? m (.str "$ref") = some (.str ref)) :
    shape (.map m) = .ok (.name (Reference.targetName ref)) := by
  have hempty : m.isEmpty = false := by
    cases m with
    | nil => cases href
    | cons p m => rfl
  simp [shape, hempty, href]

/-- What tells its type keeps it. -/
theorem keepsType_of_tellsType (h : TellsType v) : KeepsType v where
  target := by
    intro ref href
    cases v with
    | map m =>
      obtain ⟨w, hw, hstr⟩ := Option.bind_eq_some_iff.1 href
      rw [Value.str?_eq_some.1 hstr] at hw
      obtain ⟨s, hs, hknown, -⟩ := tellsType_iff.1 h
      cases (shape_of_ref hw).symm.trans hs
      exact hknown
    | _ => cases href
  nulls := by
    intro c parts hshape x hx _
    obtain ⟨s, hs, -, hparts⟩ := tellsType_iff.1 h
    cases hshape.symm.trans hs
    exact hparts x hx
  types := fun _ _ _ _ => .inr h

/-- All schemas that the type of a model is made from tell their types if the whole does. -/
theorem tellsType_within (h : TellsType v) :
    ∀ x ∈ Value.within below size_below v, TellsType x := by
  induction hn : sizeOf v using Nat.strongRecOn generalizing v with
  | ind n ih =>
    subst hn
    rw [Value.within_eq]
    refine List.forall_mem_cons.2 ⟨h, fun x hx => ?_⟩
    obtain ⟨y, hy, hx⟩ := List.mem_flatMap.1 hx
    exact ih (sizeOf y) (size_below v y hy) (h.of_mem_below (below_subset hy)) rfl x hx

/-- A schema that names one type tells it, if it names no object and its items tell theirs. -/
theorem tellsType_of_singleType {s : String} (hno : Entries.get? m (.str "$ref") = none)
    (hplain : combined? m = none) (hs : singleType m = .str s)
    (h : typeOf (.map m) place = .ok t) (hobject : t.hasObject = false)
    (hbelow : ∀ x ∈ below (.map m), ∀ place u, typeOf x place = .ok u → u.hasObject = false →
      TellsType x) : TellsType (.map m) := by
  have hne : m ≠ [] := by
    rintro rfl
    cases hs
  obtain ⟨halternatives, hall⟩ := combined?_eq_none_iff.1 hplain
  rw [typeOf_of_items hno halternatives hall] at h
  rw [tellsType_iff, shape_of_plain hno hplain hne]
  rcases plainType_cases (plainType_of_singleType hs h) hobject with hprimitive | ⟨rfl, hitem⟩
  · obtain ⟨name, hshape, hknown⟩ := plainShape_of_primitive hs hprimitive
    exact ⟨_, hshape, hknown, List.forall_mem_nil _⟩
  · obtain ⟨y, u, hy, hu, hfree⟩ := arrayOf_eq_ok hitem hobject
    have hyshape : plainShape m = .ok (.array y) := by
      rw [plainShape_of_array hs, Value.field, hy]
      rfl
    refine ⟨_, hyshape, trivial, List.forall_mem_singleton.2 ?_⟩
    refine hbelow y ?_ _ u hu hfree
    rw [below_of_items hno halternatives hall, namesArray_of_singleType hs, if_pos rfl, hy]
    exact List.mem_singleton_self y

/-- A schema tells its type if it and all schemas below it keep theirs. What is below it is not null,
so null has to tell its type apart from that. -/
theorem tellsType_of_keepsType (h : typeOf v place = .ok t) (hobject : t.hasObject = false)
    (hkeeps : ∀ x ∈ Value.within below size_below v, KeepsType x) : TellsType v := by
  induction hn : sizeOf v using Nat.strongRecOn generalizing v place t with
  | ind n ih =>
    subst hn
    have hbelow : ∀ x ∈ below v, ∀ place u, typeOf x place = .ok u → u.hasObject = false →
        TellsType x :=
      fun x hx place u hu hfree => ih (sizeOf x) (size_below v x hx) hu hfree
        (fun y hy => hkeeps y (Value.within_subset hx hy)) rfl
    have hself := hkeeps v Value.mem_within_self
    obtain ⟨m, rfl⟩ : ∃ m, v = .map m := by
      cases isMadeOf_of_typeOf h
      all_goals exact ⟨_, rfl⟩
    by_cases hno : Entries.get? m (.str "$ref") = none
    · cases hcombined : combined? m with
      | some k =>
        obtain ⟨c, w⟩ := k
        obtain ⟨parts, ts, hshape, hparts, hts, rfl⟩ := parts_of_typeOf hno hcombined h hobject
        obtain ⟨hne, hfree⟩ := hasObject_unionOf hobject
        refine tellsType_iff.2 ⟨_, hshape, ?_, fun x hx => ?_⟩
        · rintro rfl
          rw [hparts] at hts
          exact hne (Except.ok.inj hts).symm
        cases hnull : Nullable.isNullSchema x with
        | true => exact hself.nulls c parts hshape x hx hnull
        | false =>
          have hmem : x ∈ below (.map m) := by
            rw [hparts]
            exact List.mem_filter.2 ⟨hx, by rw [hnull, Bool.not_false]⟩
          obtain ⟨u, hu, hxu⟩ := Outcome.exists_of_mapM_mem hts hmem
          exact hbelow x hmem place u hxu (hfree u hu)
      | none =>
        rcases hself.types m rfl hno hcombined with ⟨s, hs⟩ | htells
        · exact tellsType_of_singleType hno hcombined hs h hobject hbelow
        · exact htells
    · cases isMadeOf_of_typeOf h with
      | @ref _ ref href =>
        have hown : (Value.map m).ref? = some ref := by
          simp [Value.ref?, Value.field?, href, Value.str?]
        exact tellsType_iff.2
          ⟨_, shape_of_ref href, hself.target ref hown, List.forall_mem_nil _⟩
      | parts hnone => exact absurd hnone hno
      | named hnone => exact absurd hnone hno

/-- **Types that models know are written down.** If the type of a schema in a model has no object,
the text of its type is without `unknown` exactly if every schema that the type is made from keeps
its type. -/
theorem exists_isKnown_typeText_iff (h : typeOf v place = .ok t) (hobject : t.hasObject = false) :
    (∃ text, typeText v = .ok text ∧ TypeText.IsKnown text) ↔
      ∀ x ∈ Value.within below size_below v, KeepsType x := by
  rw [exists_isKnown_typeText]
  constructor
  · intro htells x hx
    exact keepsType_of_tellsType (tellsType_within htells x hx)
  · exact tellsType_of_keepsType h hobject

/-- A pet or a word or null, where a list of types names the word and null. -/
def petOrWord : Value := .record [("oneOf", .list
  [.record [("$ref", .str "#/components/schemas/Pet")],
    .record [("type", .ofStrings ["string", "null"])]])]

/-- Null in a list of types is left out of the text as well. -/
theorem keepsType_petOrWord : ∃ t, typeOf petOrWord "schema" = .ok t ∧ t.hasObject = false ∧
    (∃ text, typeText petOrWord = .ok text ∧ TypeText.IsKnown text) ∧
      ∀ x ∈ Value.within below size_below petOrWord, KeepsType x := by
  have hpet : typeOf (.record [("$ref", .str "#/components/schemas/Pet")]) "schema" =
      .ok (.ref "Pet") := typeOf_reference _ _
  have hword : typeOf (.record [("type", .ofStrings ["string", "null"])]) "schema" =
      .ok .string := typeOf_of_items rfl rfl rfl
  have htype : typeOf petOrWord "schema" = .ok (.union [.ref "Pet", .string]) := by
    refine (typeOf_of_alternatives rfl rfl).trans (Outcome.map_eq_ok.2 ⟨[_, _], ?_, rfl⟩)
    exact Outcome.mapM_eq_ok.2 (.cons hpet (.cons hword .nil))
  have htext : ∃ text, typeText petOrWord = .ok text ∧ TypeText.IsKnown text :=
    ⟨"Pet | string", by decide +kernel, by decide +kernel⟩
  exact ⟨_, htype, rfl, htext, (exists_isKnown_typeText_iff htype rfl).1 htext⟩

/-- A word or null, where null is an alternative. -/
def wordOrNull : Value :=
  .record [("oneOf", .list [.record [("type", .str "string")], .record [("type", .str "null")]])]

/-- A word or a number, by a list of types. -/
def wordOrNumber : Value := .record [("type", .ofStrings ["string", "integer"])]

/-- Models know the types of both, and the texts do not: they are `string | unknown` and
`unknown`. -/
theorem not_isKnown_typeText :
    (∃ t text, typeOf wordOrNull "schema" = .ok t ∧ t.hasObject = false ∧
      typeText wordOrNull = .ok text ∧ ¬ TypeText.IsKnown text) ∧
    ∃ t text, typeOf wordOrNumber "schema" = .ok t ∧ t.hasObject = false ∧
      typeText wordOrNumber = .ok text ∧ ¬ TypeText.IsKnown text := by
  have hword : typeOf (.record [("type", .str "string")]) "schema" = .ok .string :=
    typeOf_of_items rfl rfl rfl
  have hnull : typeOf wordOrNull "schema" = .ok .string := by
    refine (typeOf_of_alternatives rfl rfl).trans (Outcome.map_eq_ok.2 ⟨[_], ?_, rfl⟩)
    exact Outcome.mapM_eq_ok.2 (.cons hword .nil)
  have hnumber : typeOf wordOrNumber "schema" = .ok (.union [.string, .number]) :=
    typeOf_of_items rfl rfl rfl
  refine ⟨⟨_, "string | unknown", hnull, rfl, ?_, ?_⟩, _, "unknown", hnumber, rfl, ?_, ?_⟩
  all_goals decide +kernel

end Model
end ApiScribe
