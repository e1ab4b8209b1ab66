import ApiScribe.Proofs.Model.Extraction
import ApiScribe.Proofs.Value.Basic
import ApiScribe.Proofs.Value.Sorting

/-! The types that models refer to. The type of a schema refers to what the references inside the
schema end with, so whether models refer to models only is read off these references. -/
namespace ApiScribe

namespace ModelType

mutual

/-- The names that a type refers to. -/
def refNames : ModelType → List String
  | .ref name => [name]
  | .array item => item.refNames
  | .union variants => refNamesAll variants
  | _ => []

/-- The names that types refer to. -/
def refNamesAll : List ModelType → List String
  | [] => []
  | t :: ts => t.refNames ++ refNamesAll ts

end

theorem refNamesAll_eq (ts : List ModelType) : refNamesAll ts = ts.flatMap refNames := by
  induction ts with
  | nil => rfl
  | cons t ts ih => rw [refNamesAll, ih, List.flatMap_cons]

@[simp] theorem refNames_array (t : ModelType) : (array t).refNames = t.refNames := by
  rw [refNames]

@[simp] theorem refNames_union (ts : List ModelType) :
    (union ts).refNames = ts.flatMap refNames := by
  rw [refNames, refNamesAll_eq]

/-- Something that is collected from references and arrays: types that hold neither have nothing
of it, and a union has what its variants have. -/
structure Collects {β : Type} (f : ModelType → List β) : Prop where
  string : f .string = []
  number : f .number = []
  boolean : f .boolean = []
  object : f .object = []
  literal : ∀ l, f (.literal l) = []
  union : ∀ ts, f (.union ts) = ts.flatMap f

theorem collects_refNames : Collects refNames where
  string := by rw [refNames] <;> simp
  number := by rw [refNames] <;> simp
  boolean := by rw [refNames] <;> simp
  object := by rw [refNames] <;> simp
  literal := fun l => by rw [refNames] <;> simp
  union := refNames_union

end ModelType

/-- The types of what a model is. -/
def ModelKind.types : ModelKind → List ModelType
  | interface ps => ps.map ModelProperty.type
  | enum _ => []
  | aliased target _ => [target]

namespace Model

variable {m : List (Scalar × Value)} {place n : String} {item : Outcome ModelType}
  {t : ModelType}

section Collected

variable {β : Type} {f : ModelType → List β} (hf : ModelType.Collects f)
include hf

/-- A union has what its variants have. -/
theorem collected_unionOf (ts : List ModelType) : f (unionOf ts) = ts.flatMap f := by
  unfold unionOf
  split
  · exact hf.object
  · simp
  · exact hf.union _

theorem collected_literalType {kind : LiteralKind} (h : literalType m kind = .ok t) :
    f t = [] := by
  unfold literalType at h
  split at h
  · cases h
    cases kind
    · exact hf.string
    · exact hf.number
  · obtain ⟨ls, -, h⟩ := Outcome.bind_eq_ok.1 h
    cases Outcome.pure_eq_ok.1 h
    rw [hf.union, List.flatMap_eq_nil_iff]
    intro u hu
    obtain ⟨l, -, rfl⟩ := List.mem_map.1 hu
    exact hf.literal l

/-- Only arrays have anything. -/
theorem collected_plainType {type : Option String} (h : plainType m item type = .ok t) :
    (type = some "array" → ∃ w, item = .ok w) ∧
      ∀ b, b ∈ f t ↔ type = some "array" ∧ ∃ w, item = .ok w ∧ b ∈ f w := by
  unfold plainType at h
  split at h
  · next kind hkind =>
    have hne : type ≠ some "array" := by
      rintro rfl
      cases hkind
    simp [collected_literalType hf h, hne]
  · split at h
    · next hboolean =>
      cases h
      simp [hboolean, hf.boolean]
    split at h
    · next harray => simp [harray, h]
    · next harray =>
      cases h
      simp [harray, hf.object]

end Collected

mutual

/-- Whether a type is that of arrays, or a list that holds it. -/
def namesArray : Value → Bool
  | .list ts => listsArray ts
  | t => t.isString "array"

/-- Whether a list of types holds that of arrays. -/
def listsArray : List Value → Bool
  | [] => false
  | t :: ts => namesArray t || listsArray ts

end

/-- The one type that a schema names besides null, if it names one only. -/
def soleName : Value → Option String
  | .list ts => match ts.filter (fun t => !t.isString "null") with
    | [t] => t.str?
    | _ => none
  | t => t.str?

theorem soleType_eq_ok {v : Value} {type : Option String} (h : soleType place v = .ok type) :
    type = soleName v := by
  unfold soleType at h
  split at h
  · cases h
    rfl
  · next ts =>
    obtain ⟨-, -, h⟩ := Outcome.bind_eq_ok.1 h
    rw [soleName]
    rcases hnamed : ts.filter (fun t => !t.isString "null") with _ | ⟨t, _ | ⟨u, us⟩⟩
    · rw [hnamed] at h ⊢
      exact (Outcome.pure_eq_ok.1 h).symm
    · rw [hnamed] at h ⊢
      exact (Outcome.pure_eq_ok.1 h).symm
    · rw [hnamed] at h ⊢
      exact (Outcome.pure_eq_ok.1 h).symm
  · next hlist =>
    obtain ⟨-, -, h⟩ := Outcome.bind_eq_ok.1 h
    rw [← Outcome.pure_eq_ok.1 h, soleName]
    exact hlist

theorem namesArray_str {s : String} (hs : s ≠ "array") : namesArray (.str s) = false := by
  simpa [namesArray, Value.isString] using hs

section Collected

variable {β : Type} {f : ModelType → List β}

/-- A single type has what the array of items has, if it is that of arrays. -/
theorem collected_soleType (hf : ModelType.Collects f) {v : Value} (hlist : ∀ ts, v ≠ .list ts)
    (h : (soleType place v >>= plainType m item) = .ok t) :
    (v.isString "array" = true → ∃ w, item = .ok w) ∧
      ∀ b, b ∈ f t ↔ v.isString "array" = true ∧ ∃ w, item = .ok w ∧ b ∈ f w := by
  obtain ⟨type, htype, h⟩ := Outcome.bind_eq_ok.1 h
  have hname : soleName v = v.str? := by
    rw [soleName]
    exact hlist
  rw [Value.isString_iff, ← Value.str?_eq_some, ← hname, ← soleType_eq_ok htype]
  exact collected_plainType hf h

mutual

/-- A type by its name has what the array of items has, if it is that of arrays. -/
theorem collected_typeByName (hf : ModelType.Collects f) (v : Value) {t : ModelType}
    (h : typeByName m place item v = .ok t) :
    (namesArray v = true → ∃ w, item = .ok w) ∧
      ∀ b, b ∈ f t ↔ namesArray v = true ∧ ∃ w, item = .ok w ∧ b ∈ f w := by
  cases v with
  | list ts =>
    obtain ⟨us, hus, rfl⟩ := Outcome.map_eq_ok.1 h
    rw [collected_unionOf hf, namesArray]
    exact collected_typesByNames hf ts hus
  | endless => exact absurd h Outcome.unexpected_ne_ok
  | scalar s => exact collected_soleType hf (by simp) h
  | pair a b => exact collected_soleType hf (by simp) h
  | set ms => exact collected_soleType hf (by simp) h
  | map es => exact collected_soleType hf (by simp) h

theorem collected_typesByNames (hf : ModelType.Collects f) (vs : List Value)
    {ts : List ModelType} (h : typesByNames m place item vs = .ok ts) :
    (listsArray vs = true → ∃ w, item = .ok w) ∧
      ∀ b, b ∈ ts.flatMap f ↔ listsArray vs = true ∧ ∃ w, item = .ok w ∧ b ∈ f w := by
  cases vs with
  | nil =>
    cases h
    simp [listsArray]
  | cons v vs =>
    rw [typesByNames] at h
    rw [listsArray]
    split at h
    · next hnull =>
      rw [Value.isString_iff.1 hnull, namesArray_str (by decide), Bool.false_or]
      exact collected_typesByNames hf vs h
    · obtain ⟨t, ht, h⟩ := Outcome.bind_eq_ok.1 h
      obtain ⟨us, hus, h⟩ := Outcome.bind_eq_ok.1 h
      cases Outcome.pure_eq_ok.1 h
      obtain ⟨hitem, hmem⟩ := collected_typeByName hf v ht
      obtain ⟨hitems, hmems⟩ := collected_typesByNames hf vs hus
      rw [Bool.or_eq_true]
      refine ⟨Or.rec hitem hitems, fun b => ?_⟩
      rw [List.flatMap_cons, List.mem_append, hmem, hmems, or_and_right]

end

end Collected

/-- The schemas that the type of a schema is made from. -/
def below : Value → List Value
  | .map m =>
    match Entries.get? m (.str "$ref"), alternatives? m, Entries.get? m (.str "allOf") with
    | none, some (.list xs), _ => xs.filter fun x => !Nullable.isNullSchema x
    | none, none, some (.list xs) =>
      match xs.filter fun x => !Nullable.isNullSchema x with
      | [x] => [x]
      | _ => []
    | none, none, none =>
      if namesArray (Value.field m "type") then (Entries.get? m (.str "items")).toList else []
    | _, _, _ => []
  | _ => []

theorem size_below (v : Value) : ∀ x ∈ below v, sizeOf x < sizeOf v := by
  intro x hx
  unfold below at hx
  split at hx
  · split at hx
    · next xs _ _ hxs => exact size_alternative hxs (List.mem_filter.1 hx).1
    · next xs _ _ hxs =>
      split at hx
      · next y hy =>
        rw [← hy] at hx
        exact Schema.size_item hxs (List.mem_filter.1 hx).1
      · cases hx
    · split at hx
      · exact Value.sizeOf_lt_of_get? (Option.mem_toList.1 hx)
      · cases hx
    · cases hx
  · cases hx

/-- The schemas of items that the type of a schema is made from: what is below one that is neither
a reference nor a composition. -/
def items : Value → List Value
  | .map m =>
    match Entries.get? m (.str "$ref"), alternatives? m, Entries.get? m (.str "allOf") with
    | none, none, none => below (.map m)
    | _, _, _ => []
  | _ => []

/-- The references that the type of a schema is read from. -/
def refs (v : Value) : List String := (Value.within below size_below v).filterMap Value.ref?

/-- The names that they end with. -/
def targets (v : Value) : List String := (refs v).map Reference.targetName

theorem mem_refs {v : Value} {ref : String} :
    ref ∈ refs v ↔ v.ref? = some ref ∨ ∃ x ∈ below v, ref ∈ refs x :=
  Value.mem_filterMap_within

theorem mem_targets {v : Value} : n ∈ targets v ↔
    (∃ ref, v.ref? = some ref ∧ Reference.targetName ref = n) ∨ ∃ x ∈ below v, n ∈ targets x := by
  simp only [targets, List.mem_map]
  constructor
  · rintro ⟨ref, href, hn⟩
    rcases mem_refs.1 href with href | ⟨x, hx, href⟩
    · exact .inl ⟨ref, href, hn⟩
    · exact .inr ⟨x, hx, ref, href, hn⟩
  · rintro (⟨ref, href, hn⟩ | ⟨x, hx, ref, href, hn⟩)
    · exact ⟨ref, mem_refs.2 (.inl href), hn⟩
    · exact ⟨ref, mem_refs.2 (.inr ⟨x, hx, href⟩), hn⟩

theorem below_of_ref {ref : Value} (href : Entries.get? m (.str "$ref") = some ref) :
    below (.map m) = [] := by
  rw [below, href]

theorem mem_targets_of_ref {ref : String}
    (href : Entries.get? m (.str "$ref") = some (.str ref)) :
    n ∈ targets (.map m) ↔ n = Reference.targetName ref := by
  rw [mem_targets, below_of_ref href]
  simp [Value.ref?, Value.field?, href, Value.str?, eq_comm]

theorem mem_targets_of_no_ref (hno : Entries.get? m (.str "$ref") = none) :
    n ∈ targets (.map m) ↔ ∃ x ∈ below (.map m), n ∈ targets x := by
  rw [mem_targets]
  simp [Value.ref?, Value.field?, hno]

theorem not_mem_targets_null : n ∉ targets .null := by
  rw [mem_targets]
  simp [Value.ref?, Value.field?, below]

section Below

variable (hno : Entries.get? m (.str "$ref") = none)
include hno

theorem below_of_alternatives {xs : List Value} (h : alternatives? m = some (.list xs)) :
    below (.map m) = xs.filter fun x => !Nullable.isNullSchema x := by
  simp only [below, hno, h]

theorem below_of_no_list {v : Value} (h : alternatives? m = some v) (hlist : ∀ xs, v ≠ .list xs) :
    below (.map m) = [] := by
  cases v with
  | list xs => exact absurd rfl (hlist xs)
  | _ => simp only [below, hno, h]

variable (halternatives : alternatives? m = none)
include halternatives

theorem below_of_members {xs : List Value} (h : Entries.get? m (.str "allOf") = some (.list xs)) :
    below (.map m) = match xs.filter fun x => !Nullable.isNullSchema x with
      | [x] => [x]
      | _ => [] := by
  simp only [below, hno, halternatives, h]

theorem below_of_no_member_list {v : Value} (h : Entries.get? m (.str "allOf") = some v)
    (hlist : ∀ xs, v ≠ .list xs) : below (.map m) = [] := by
  cases v with
  | list xs => exact absurd rfl (hlist xs)
  | _ => simp only [below, hno, halternatives, h]

theorem below_of_items (h : Entries.get? m (.str "allOf") = none) :
    below (.map m) = if namesArray (Value.field m "type") then
      (Entries.get? m (.str "items")).toList else [] := by
  simp only [below, hno, halternatives, h]

end Below

/-- Things of a list that are picked together with their places in it. -/
theorem filter_eq_map_attach (p : Value → Bool) (xs : List Value) :
    xs.filter p = (xs.attach.filter fun x => p x.1).map Subtype.val := by
  conv_lhs => rw [← List.attach_map_subtype_val xs]
  exact List.filter_map

theorem exists_mem_ite {α : Type} {b : Bool} {xs : List α} {q : α → Prop} :
    (∃ x ∈ if b then xs else [], q x) ↔ b = true ∧ ∃ x ∈ xs, q x := by
  cases b <;> simp

/-- The array that a schema is, if it is one. -/
def arrayOf (m : List (Scalar × Value)) (place : String) : Outcome ModelType :=
  match Entries.get? m (.str "items") with
  | none => .ok (.array .object)
  | some .null => .ok (.array .object)
  | some v => ModelType.array <$> typeOf v (place ++ "[]")

theorem arrayOf_eq {v : Value} (h : Entries.get? m (.str "items") = some v) (hv : v ≠ .null) :
    arrayOf m place = ModelType.array <$> typeOf v (place ++ "[]") := by
  unfold arrayOf
  split
  · next hnone => simp [hnone] at h
  · next hnull => exact absurd (Option.some.inj (h.symm.trans hnull)) hv
  · next w _ hsome => rw [Option.some.inj (h.symm.trans hsome)]

section Types

variable {w : Value}

/-- Only a map has a type. -/
theorem exists_map_of_typeOf {v : Value} (h : typeOf v place = .ok t) : ∃ m, v = .map m := by
  unfold typeOf at h
  split at h
  · exact ⟨_, rfl⟩
  · exact absurd h Outcome.fail_ne_ok

theorem typeOf_of_ref {ref : String} (href : Entries.get? m (.str "$ref") = some (.str ref)) :
    typeOf (.map m) place = .ok (.ref (Reference.targetName ref)) := by
  unfold typeOf
  simp only [href]

theorem typeOf_reference (ref place : String) : typeOf (.record [("$ref", .str ref)]) place =
    .ok (.ref (Reference.targetName ref)) := typeOf_of_ref rfl

theorem exists_ref_of_typeOf (href : Entries.get? m (.str "$ref") = some w)
    (h : typeOf (.map m) place = .ok t) : ∃ ref, w = .str ref := by
  unfold typeOf at h
  simp only [href] at h
  split at h
  · next ref hw => exact ⟨ref, Option.some.inj hw⟩
  · exact absurd h Outcome.unexpected_ne_ok
  · next hnone => cases hnone

variable (hno : Entries.get? m (.str "$ref") = none)
include hno

theorem typeOf_of_alternatives {parts : List Value}
    (h : alternatives? m = some (.list parts)) : typeOf (.map m) place =
      unionOf <$> (parts.filter fun x => !Nullable.isNullSchema x).mapM (typeOf · place) := by
  conv_lhs => unfold typeOf
  rw [filter_eq_map_attach, List.mapM_map]
  simp only [hno]
  split
  · next hparts =>
    cases h.symm.trans hparts
    rfl
  · next hlist hother => exact absurd (Option.some.inj (hother.symm.trans h)) (hlist _)
  · next hnone =>
    rw [h] at hnone
    cases hnone

/-- Alternatives that are no list are those of an object. -/
theorem eq_object_of_no_list (h : alternatives? m = some w) (hlist : ∀ xs, w ≠ .list xs)
    (htype : typeOf (.map m) place = .ok t) : t = .object := by
  unfold typeOf at htype
  simp only [hno] at htype
  split at htype
  · next hparts => exact absurd (Option.some.inj (h.symm.trans hparts)) (hlist _)
  · obtain ⟨count, -, htype⟩ := Outcome.bind_eq_ok.1 htype
    split at htype
    · exact (Outcome.pure_eq_ok.1 htype).symm
    · exact absurd htype Outcome.fail_ne_ok
  · next hnone =>
    rw [h] at hnone
    cases hnone

variable (halternatives : alternatives? m = none)
include halternatives

/-- A single member gives its type to the whole. -/
theorem typeOf_of_members {parts : List Value}
    (h : Entries.get? m (.str "allOf") = some (.list parts)) : typeOf (.map m) place =
      match parts.filter fun x => !Nullable.isNullSchema x with
      | [x] => typeOf x place
      | _ => .ok .object := by
  conv_lhs => unfold typeOf
  rw [filter_eq_map_attach]
  simp only [hno]
  split
  · next hsome => simp [halternatives] at hsome
  · next hsome => simp [halternatives] at hsome
  split
  · next hparts =>
    cases h.symm.trans hparts
    generalize (parts.attach.filter fun x => !Nullable.isNullSchema x.1) = members
    rcases members with _ | ⟨x, _ | ⟨y, members⟩⟩ <;> rfl
  · next hlist hother => exact absurd (Option.some.inj (hother.symm.trans h)) (hlist _)
  · next hnone =>
    rw [h] at hnone
    cases hnone

/-- Members that are no list are those of an object. -/
theorem eq_object_of_no_member_list (h : Entries.get? m (.str "allOf") = some w)
    (hlist : ∀ xs, w ≠ .list xs) (htype : typeOf (.map m) place = .ok t) : t = .object := by
  unfold typeOf at htype
  simp only [hno] at htype
  split at htype
  · next hsome => simp [halternatives] at hsome
  · next hsome => simp [halternatives] at hsome
  split at htype
  · next hparts => exact absurd (Option.some.inj (h.symm.trans hparts)) (hlist _)
  · obtain ⟨count, -, htype⟩ := Outcome.bind_eq_ok.1 htype
    split at htype
    · exact absurd htype Outcome.fail_ne_ok
    · exact (Outcome.pure_eq_ok.1 htype).symm
  · next hnone =>
    rw [h] at hnone
    cases hnone

/-- What is neither a reference nor a composition has the types that it names. -/
theorem typeOf_of_items (hall : Entries.get? m (.str "allOf") = none) :
    typeOf (.map m) place =
      typeByName m place (arrayOf m place) (Value.field m "type") := by
  conv_lhs => unfold typeOf
  simp only [hno]
  split
  · next h => simp [halternatives] at h
  · next h => simp [halternatives] at h
  split
  · next h => simp [hall] at h
  · next h => simp [hall] at h
  split
  · next h => rw [arrayOf, h]
  · next h => rw [arrayOf, h]
  · next y hy h => simp only [arrayOf, h]

end Types

/-- What the type of a schema is made of: of its reference, of the types below it, or of the types
that it names. -/
inductive IsMadeOf (place : String) : Value → ModelType → Prop
  | ref {m : List (Scalar × Value)} {ref : String}
      (href : Entries.get? m (.str "$ref") = some (.str ref)) :
      IsMadeOf place (.map m) (.ref (Reference.targetName ref))
  | parts {m : List (Scalar × Value)} {ts : List ModelType}
      (hno : Entries.get? m (.str "$ref") = none) (hitems : items (.map m) = [])
      (h : (below (.map m)).mapM (typeOf · place) = .ok ts) :
      IsMadeOf place (.map m) (unionOf ts)
  | named {m : List (Scalar × Value)} {t : ModelType}
      (hno : Entries.get? m (.str "$ref") = none) (hitems : items (.map m) = below (.map m))
      (hbelow : below (.map m) = if namesArray (Value.field m "type") then
        (Entries.get? m (.str "items")).toList else [])
      (h : typeByName m place (arrayOf m place) (Value.field m "type") = .ok t) :
      IsMadeOf place (.map m) t

theorem isMadeOf_object (hno : Entries.get? m (.str "$ref") = none) (hitems : items (.map m) = [])
    (hbelow : below (.map m) = []) : IsMadeOf place (.map m) .object := by
  have hparts : (below (.map m)).mapM (typeOf · place) = .ok [] := by
    rw [hbelow]
    rfl
  exact .parts hno hitems hparts

/-- Each of the six kinds of schemas is made of one thing. -/
theorem isMadeOf_of_typeOf {v : Value} (h : typeOf v place = .ok t) : IsMadeOf place v t := by
  obtain ⟨m, rfl⟩ := exists_map_of_typeOf h
  cases hno : Entries.get? m (.str "$ref") with
  | some w =>
    obtain ⟨ref, rfl⟩ := exists_ref_of_typeOf hno h
    rw [typeOf_of_ref hno] at h
    cases h
    exact .ref hno
  | none =>
  cases halternatives : alternatives? m with
  | some w =>
    have hitems : items (.map m) = [] := by simp only [items, hno, halternatives]
    by_cases hlist : ∃ xs, w = .list xs
    · obtain ⟨parts, rfl⟩ := hlist
      rw [typeOf_of_alternatives hno halternatives] at h
      obtain ⟨ts, hts, rfl⟩ := Outcome.map_eq_ok.1 h
      exact .parts hno hitems (below_of_alternatives hno halternatives ▸ hts)
    · rw [not_exists] at hlist
      obtain rfl := eq_object_of_no_list hno halternatives hlist h
      exact isMadeOf_object hno hitems (below_of_no_list hno halternatives hlist)
  | none =>
  cases hall : Entries.get? m (.str "allOf") with
  | some w =>
    have hitems : items (.map m) = [] := by simp only [items, hno, halternatives, hall]
    by_cases hlist : ∃ xs, w = .list xs
    · obtain ⟨parts, rfl⟩ := hlist
      have hbelow := below_of_members hno halternatives hall
      rw [typeOf_of_members hno halternatives hall] at h
      split at h
      · next x hx =>
        rw [hx] at hbelow
        have hpart : (below (.map m)).mapM (typeOf · place) = .ok [t] := by
          rw [hbelow]
          exact Outcome.mapM_eq_ok.2 (.cons h .nil)
        exact .parts hno hitems hpart
      · next hmany =>
        cases h
        refine isMadeOf_object hno hitems (hbelow.trans ?_)
        split
        · next x hx => exact absurd hx (hmany x)
        · rfl
    · rw [not_exists] at hlist
      obtain rfl := eq_object_of_no_member_list hno halternatives hall hlist h
      exact isMadeOf_object hno hitems (below_of_no_member_list hno halternatives hall hlist)
  | none =>
    rw [typeOf_of_items hno halternatives hall] at h
    exact .named hno (by simp only [items, hno, halternatives, hall])
      (below_of_items hno halternatives hall) h

/-- The type of a schema refers to what the references inside the schema end with. -/
theorem mem_refNames_of_typeOf {v : Value} (h : typeOf v place = .ok t) :
    n ∈ t.refNames ↔ n ∈ targets v := by
  induction hn : sizeOf v using Nat.strongRecOn generalizing v place t with
  | ind k ih =>
    subst hn
    have hbelow : ∀ x ∈ below v, ∀ place u, typeOf x place = .ok u →
        (n ∈ u.refNames ↔ n ∈ targets x) :=
      fun x hx place u hu => ih (sizeOf x) (size_below v x hx) hu rfl
    cases isMadeOf_of_typeOf h with
    | ref href => simp [mem_targets_of_ref href, ModelType.refNames]
    | parts hno _ hts =>
      rw [mem_targets_of_no_ref hno, collected_unionOf ModelType.collects_refNames,
        List.mem_flatMap]
      constructor
      · rintro ⟨u, hu, hn⟩
        obtain ⟨x, hx, hxu⟩ := Outcome.exists_of_mem_mapM hts hu
        exact ⟨x, hx, (hbelow x hx place u hxu).1 hn⟩
      · rintro ⟨x, hx, hn⟩
        obtain ⟨u, hu, hxu⟩ := Outcome.exists_of_mapM_mem hts hx
        exact ⟨u, hu, (hbelow x hx place u hxu).2 hn⟩
    | @named m _ hno _ hnamed hname =>
      obtain ⟨harray, hmem⟩ := collected_typeByName ModelType.collects_refNames _ hname
      rw [mem_targets_of_no_ref hno, hmem, hnamed, exists_mem_ite]
      refine and_congr_right fun hnames => ?_
      obtain ⟨w, hw⟩ := harray hnames
      simp only [hw, Except.ok.injEq, exists_eq_left']
      unfold arrayOf at hw
      split at hw
      · next hitems =>
        cases hw
        simp [hitems, ModelType.refNames]
      · next hitems =>
        cases hw
        simp [hitems, ModelType.refNames, not_mem_targets_null]
      · next item _ hitems =>
        obtain ⟨u, hu, rfl⟩ := Outcome.map_eq_ok.1 hw
        have hx : item ∈ below (.map m) := by
          rw [hnamed, if_pos hnames, hitems]
          exact List.mem_singleton_self item
        simp [hitems, hbelow item hx _ u hu]

/-- Whether a schema becomes an interface. -/
def isInterface (m : List (Scalar × Value)) : Bool :=
  let type := soleName (Value.field m "type")
  !(Value.hasField m "$ref" || Nullable.isComposition m) &&
    (type = some "object" || (type = none && Value.hasField m "properties"))

/-- The schemas that the types of a model are made from: those of its properties if it is an
interface, and its own if not. -/
def sources (m : List (Scalar × Value)) : List Value :=
  if isInterface m then ((Value.field m "properties").entries?.getD []).map (·.2) else [.map m]

theorem listsArray_eq (ts : List Value) : listsArray ts = ts.any namesArray := by
  induction ts with
  | nil => rfl
  | cons t ts ih => rw [listsArray, ih, List.any_cons]

/-- If one type is named and it is not that of arrays, arrays are not named. -/
theorem namesArray_of_soleName {v : Value} {s : String} (h : soleName v = some s)
    (hs : s ≠ "array") : namesArray v = false := by
  have hone : ∀ t, Value.str? t = some s → namesArray t = false := by
    intro t ht
    rw [Value.str?_eq_some.1 ht]
    exact namesArray_str hs
  cases v with
  | list ts =>
    rw [soleName] at h
    rw [namesArray, listsArray_eq, List.any_eq_false]
    intro t ht
    rw [Bool.not_eq_true]
    split at h
    · next x hx =>
      cases hnull : t.isString "null" with
      | true =>
        rw [Value.isString_iff.1 hnull]
        exact namesArray_str (by decide)
      | false =>
        have htx : t ∈ [x] := hx ▸ List.mem_filter.2 ⟨ht, by simp [hnull]⟩
        rw [List.mem_singleton.1 htx]
        exact hone x h
    · cases h
  | _ => exact hone _ h

theorem get?_eq_none_of_hasField {key : String} (h : Value.hasField m key = false) :
    Entries.get? m (.str key) = none := by
  rwa [Value.hasField_eq, Option.isSome_eq_false_iff, Option.isNone_iff_eq_none] at h

/-- There is nothing below a schema that says nothing but that it is of one type, and not of
arrays. -/
theorem below_of_soleName {s : String} (hno : Entries.get? m (.str "$ref") = none)
    (hcomposition : Nullable.isComposition m = false)
    (h : soleName (Value.field m "type") = some s) (hs : s ≠ "array") : below (.map m) = [] := by
  rw [Nullable.isComposition, List.any_eq_false] at hcomposition
  have hnone : ∀ key ∈ Nullable.compositionKeys, Entries.get? m (.str key) = none := by
    intro key hkey
    exact get?_eq_none_of_hasField (by simpa using hcomposition key hkey)
  have halternatives : alternatives? m = none := by
    rw [alternatives?, hnone "oneOf" (by decide), hnone "anyOf" (by decide), Option.or_none]
  rw [below_of_items hno halternatives (hnone "allOf" (by decide)), namesArray_of_soleName h hs]
  rfl

theorem property_eq_ok {document child : Value} {owner : String} {required : List Scalar}
    {key : Scalar} {q : ModelProperty} (h : property document owner required key child = .ok q) :
    (∃ place, typeOf child place = .ok q.type) ∧
      Nullable.canBeNull document child = .ok q.nullable := by
  unfold property at h
  split at h
  · obtain ⟨nullable, hnullable, h⟩ := Outcome.bind_eq_ok.1 h
    obtain ⟨type, htype, h⟩ := Outcome.bind_eq_ok.1 h
    rw [Outcome.toOutcome_eq_ok] at h
    simp only [Checked.seq_eq_ok, Checked.map_eq_ok, Checked.under_eq_ok] at h
    obtain ⟨_, _, ⟨_, _, hf⟩, _, hq⟩ := h
    exact ⟨⟨_, by rw [htype, ← hq, ← hf]⟩, by rw [hnullable, ← hq, ← hf]⟩
  · exact absurd h Outcome.fail_ne_ok

/-- Properties are what becomes of the entries of a schema that list them. -/
theorem properties_eq_ok {document : Value} {owner : String} {ps : List ModelProperty}
    (h : properties document m owner = .ok ps) : ∃ required,
      (∀ q ∈ ps, ∃ e ∈ (Value.field m "properties").entries?.getD [],
        property document owner required e.1 e.2 = .ok q) ∧
      ∀ e ∈ (Value.field m "properties").entries?.getD [],
        ∃ q ∈ ps, property document owner required e.1 e.2 = .ok q := by
  obtain ⟨es, hes, h⟩ := Outcome.bind_eq_ok.1 h
  obtain ⟨required, -, h⟩ := Outcome.bind_eq_ok.1 h
  obtain ⟨sorted, hsorted, h⟩ := Outcome.bind_eq_ok.1 h
  have hmem : ∀ e, e ∈ sorted ↔ e ∈ es := fun e => (Scalar.sortOn_eq_ok hsorted).1.mem_iff
  have hentries : (Value.field m "properties").entries?.getD [] = es := by
    unfold propertyEntries at hes
    split at hes
    · next heq =>
      cases hes
      rw [heq]
      rfl
    · next hmap =>
      split at hes
      · exact absurd hes Outcome.fail_ne_ok
      · cases hes
        unfold Value.entries?
        split
        · next heq => exact absurd heq (hmap _)
        · rfl
  rw [hentries]
  refine ⟨required, fun q hq => ?_, fun e he => Outcome.exists_of_mapM_mem h ((hmem e).2 he)⟩
  obtain ⟨e, he, heq⟩ := Outcome.exists_of_mem_mapM h hq
  exact ⟨e, (hmem e).1 he, heq⟩

/-- Properties refer to what the references inside their schemas end with. -/
theorem mem_refNames_of_properties {document : Value} {owner : String} {ps : List ModelProperty}
    (h : properties document m owner = .ok ps) : n ∈ ps.flatMap (·.type.refNames) ↔
      ∃ v ∈ ((Value.field m "properties").entries?.getD []).map (·.2), n ∈ targets v := by
  obtain ⟨required, hps, hentries⟩ := properties_eq_ok h
  rw [List.mem_flatMap]
  constructor
  · rintro ⟨q, hq, hn⟩
    obtain ⟨e, he, heq⟩ := hps q hq
    obtain ⟨⟨place, hplace⟩, -⟩ := property_eq_ok heq
    exact ⟨e.2, List.mem_map_of_mem he, (mem_refNames_of_typeOf hplace).1 hn⟩
  · rintro ⟨v, hv, hn⟩
    obtain ⟨e, he, rfl⟩ := List.mem_map.1 hv
    obtain ⟨q, hq, heq⟩ := hentries e he
    obtain ⟨⟨place, hplace⟩, -⟩ := property_eq_ok heq
    exact ⟨q, hq, (mem_refNames_of_typeOf hplace).2 hn⟩

/-- What becomes of the schema of a name: an interface, an alias of its type, or, if there is
nothing below it, an alias of a primitive or an enum. -/
inductive Becomes (document : Value) (m : List (Scalar × Value)) (place : String) :
    ModelKind → Prop
  | interface {ps : List ModelProperty} (hinterface : isInterface m = true)
      (h : properties document m place = .ok ps) : Becomes document m place (.interface ps)
  | aliased {t : ModelType} {nullable : Bool} (hinterface : isInterface m = false)
      (htype : typeOf (.map m) place = .ok t)
      (hnull : Nullable.canBeNull document (.map m) = .ok nullable) :
      Becomes document m place (.aliased t nullable)
  | primitive {kind : LiteralKind} {nullable : Bool} (hinterface : isInterface m = false)
      (hno : Entries.get? m (.str "$ref") = none) (hbelow : below (.map m) = [])
      (hnull : Nullable.canBeNull document (.map m) = .ok nullable) :
      Becomes document m place (.aliased (primitive kind) nullable)
  | enum {es : List EnumMember} (hinterface : isInterface m = false)
      (hno : Entries.get? m (.str "$ref") = none) (hbelow : below (.map m) = []) :
      Becomes document m place (.enum es)

theorem becomes_of_kindOf {document : Value} {kind : ModelKind}
    (h : kindOf document m place = .ok kind) : Becomes document m place kind := by
  unfold kindOf at h
  obtain ⟨type, htype, h⟩ := Outcome.bind_eq_ok.1 h
  obtain rfl := soleType_eq_ok htype
  have haliased : isInterface m = false → (do
      let target ← typeOf (.map m) place
      return .aliased target (← Nullable.canBeNull document (.map m)) : Outcome ModelKind) =
        .ok kind → Becomes document m place kind := by
    intro hinterface h
    obtain ⟨target, htarget, h⟩ := Outcome.bind_eq_ok.1 h
    obtain ⟨nullable, hnull, h⟩ := Outcome.bind_eq_ok.1 h
    cases Outcome.pure_eq_ok.1 h
    exact .aliased hinterface htarget hnull
  dsimp only at h
  split at h
  · next hother => exact haliased (by simp [isInterface, hother]) h
  next hplain =>
  rw [Bool.not_eq_true] at hplain
  split at h
  · next hobject =>
    obtain ⟨ps, hps, h⟩ := Outcome.bind_eq_ok.1 h
    cases Outcome.pure_eq_ok.1 h
    refine .interface ?_ hps
    rw [isInterface, hplain]
    exact hobject
  next hobject =>
  have hinterface : isInterface m = false := by
    rw [Bool.not_eq_true] at hobject
    rw [isInterface, hplain]
    exact hobject
  split at h
  · exact haliased hinterface h
  next literal hkind =>
  obtain ⟨href, hcomposition⟩ := Bool.or_eq_false_iff.1 hplain
  have hno := get?_eq_none_of_hasField href
  have hbelow : below (.map m) = [] := by
    cases hname : soleName (Value.field m "type") with
    | none =>
      rw [hname] at hkind
      cases hkind
    | some s =>
      refine below_of_soleName hno hcomposition hname ?_
      rintro rfl
      rw [hname] at hkind
      cases hkind
  split at h
  · obtain ⟨nullable, hnull, h⟩ := Outcome.bind_eq_ok.1 h
    cases Outcome.pure_eq_ok.1 h
    exact .primitive hinterface hno hbelow hnull
  · obtain ⟨es, -, h⟩ := Outcome.bind_eq_ok.1 h
    cases Outcome.pure_eq_ok.1 h
    exact .enum hinterface hno hbelow

/-- What becomes of a schema refers to what the references inside its sources end with. -/
theorem mem_refNames_of_kindOf {document : Value} {kind : ModelKind}
    (h : kindOf document m place = .ok kind) :
    n ∈ kind.types.flatMap ModelType.refNames ↔ ∃ v ∈ sources m, n ∈ targets v := by
  have hnone : Entries.get? m (.str "$ref") = none → below (.map m) = [] →
      n ∉ targets (.map m) := by
    intro hno hbelow
    rw [mem_targets_of_no_ref hno, hbelow]
    simp
  cases becomes_of_kindOf h with
  | interface hinterface hps =>
    rw [sources, if_pos hinterface, ← mem_refNames_of_properties hps]
    simp [ModelKind.types, List.flatMap_map]
  | aliased hinterface htype =>
    simp [ModelKind.types, sources, hinterface, mem_refNames_of_typeOf htype]
  | @primitive kind _ hinterface hno hbelow =>
    have hrefs : (primitive kind).refNames = [] := by cases kind <;> rfl
    simp [ModelKind.types, sources, hinterface, hrefs, hnone hno hbelow]
  | enum hinterface hno hbelow =>
    simp [ModelKind.types, sources, hinterface, hnone hno hbelow]

end Model
end ApiScribe
