import ApiScribe.Proofs.Model.Reading
import ApiScribe.Proofs.Model.References

/-! The types of schemas in print. A schema whose references end with names, and whose enums of
numbers list numbers, has a type whose text is read back; so two such schemas have types of the
same text only if their types are the same but for the grouping of unions. -/
namespace ApiScribe

/-- Whether a value is a number that is finite. -/
def Value.isFiniteNumber : Value → Bool
  | .int _ => true
  | .float x => Decimal.isFinite x
  | _ => false

namespace Model

open ModelType

theorem toList_of_literalText {v : Value} {s : String} (hv : ∀ t, v ≠ .str t)
    (h : literalText v = .ok s) : s.toList = Json.oneLine.chars 0 v := by
  unfold literalText at h
  split at h
  · exact absurd rfl (hv _)
  · rw [Outcome.expect_eq_ok, Json.Format.write?] at h
    split at h
    · cases h
      rw [Json.Format.write, String.toList_ofList]
    · cases h

/-- The text of a finite number is that of a number. -/
theorem isNumberText_of_literalText {v : Value} {s : String} (hv : v.isFiniteNumber = true)
    (h : literalText v = .ok s) : IsNumberText s := by
  unfold Value.isFiniteNumber at hv
  split at hv
  · next n =>
    have hs : s.toList = (Json.intText n).toList := toList_of_literalText (by simp) h
    rw [IsNumberText, hs]
    exact ⟨Json.startsNumber_intText n, Json.isAtomChar_intText n⟩
  · next x =>
    have hs : s.toList = (Json.oneLine.floatText x).toList := toList_of_literalText (by simp) h
    have hfinite : Json.startsNumber (Json.oneLine.floatText x).toList = true := by
      unfold Decimal.isFinite at hv
      split at hv
      · next b hb =>
        have htext : Json.oneLine.floatText x = String.ofList (Json.oneLine.numbers.finite b) := by
          simp [Json.Format.floatText, Json.oneLine, Decimal.Style.text, hb]
        rw [htext, String.toList_ofList]
        exact Json.startsNumber_finite _ _
      · cases hv
    rw [IsNumberText, hs]
    exact ⟨hfinite, Json.isAtomChar_floatText Json.oneLine x⟩
  · cases hv

theorem isReadable_unionOf {ts : List ModelType} (h : ∀ t ∈ ts, IsReadable t) :
    IsReadable (unionOf ts) := by
  unfold unionOf
  split
  · exact .object
  · exact h _ List.mem_cons_self
  · next hne _ => exact .union hne h

theorem isReadable_literalType {m : List (Scalar × Value)} {kind : LiteralKind} {t : ModelType}
    (hnumbers : kind = .number → ∀ x ∈ listedValues m, x.isFiniteNumber = true)
    (h : literalType m kind = .ok t) : IsReadable t := by
  unfold literalType at h
  split at h
  · cases h
    cases kind
    · exact .string
    · exact .number
  · next hne =>
    obtain ⟨ls, hls, h⟩ := Outcome.bind_eq_ok.1 h
    cases Outcome.pure_eq_ok.1 h
    refine .union ?_ ?_
    · intro hnone
      have hlength := (Outcome.mapM_eq_ok.1 hls).length_eq
      rw [List.map_eq_nil_iff.1 hnone] at hlength
      exact hne (List.length_eq_zero_iff.1 hlength)
    · intro u hu
      obtain ⟨l, hl, rfl⟩ := List.mem_map.1 hu
      obtain ⟨x, hx, hxl⟩ := Outcome.exists_of_mem_mapM hls hl
      obtain ⟨s, hs, h⟩ := Outcome.bind_eq_ok.1 hxl
      cases Outcome.pure_eq_ok.1 h
      cases kind with
      | string => exact .quoted s
      | number => exact .numeral (isNumberText_of_literalText (hnumbers rfl x hx) hs)

mutual

/-- Whether a type is one of numbers, or a list that holds one. -/
def namesNumber : Value → Bool
  | .list ts => listsNumber ts
  | t => literalKind? t.str? = some .number

/-- Whether a list of types holds one of numbers. -/
def listsNumber : List Value → Bool
  | [] => false
  | t :: ts => namesNumber t || listsNumber ts

end

section Named

variable {m : List (Scalar × Value)} {place : String} {item : Outcome ModelType}

theorem isReadable_plainType {type : Option String} {t : ModelType}
    (hitem : type = some "array" → ∀ u, item = .ok u → IsReadable u)
    (hnumbers : literalKind? type = some .number → ∀ x ∈ listedValues m, x.isFiniteNumber = true)
    (h : plainType m item type = .ok t) : IsReadable t := by
  unfold plainType at h
  split at h
  · next kind hkind =>
    refine isReadable_literalType ?_ h
    rintro rfl
    exact hnumbers hkind
  · split at h
    · cases h
      exact .boolean
    · split at h
      · next harray => exact hitem harray t h
      · cases h
        exact .object

theorem isReadable_soleType {v : Value} {t : ModelType} (hlist : ∀ ts, v ≠ .list ts)
    (hitem : namesArray v = true → ∀ u, item = .ok u → IsReadable u)
    (hnumbers : namesNumber v = true → ∀ x ∈ listedValues m, x.isFiniteNumber = true)
    (h : (soleType place v >>= plainType m item) = .ok t) : IsReadable t := by
  obtain ⟨type, htype, h⟩ := Outcome.bind_eq_ok.1 h
  have hname : type = v.str? := by
    rw [soleType_eq_ok htype, soleName]
    exact hlist
  refine isReadable_plainType (fun harray => hitem ?_) (fun hkind => hnumbers ?_) h
  · rw [hname, Value.str?_eq_some] at harray
    rw [harray]
    rfl
  · rw [namesNumber, ← hname, hkind]
    · rfl
    · exact hlist

mutual

/-- The type that a schema names is readable, if the array of its items is and its numbers are
numbers. -/
theorem isReadable_typeByName (v : Value) {t : ModelType}
    (hitem : namesArray v = true → ∀ u, item = .ok u → IsReadable u)
    (hnumbers : namesNumber v = true → ∀ x ∈ listedValues m, x.isFiniteNumber = true)
    (h : typeByName m place item v = .ok t) : IsReadable t := by
  cases v with
  | list ts =>
    obtain ⟨us, hus, rfl⟩ := Outcome.map_eq_ok.1 h
    rw [namesArray] at hitem
    rw [namesNumber] at hnumbers
    exact isReadable_unionOf (isReadable_typesByNames ts hitem hnumbers hus)
  | endless => exact absurd h Outcome.unexpected_ne_ok
  | scalar s => exact isReadable_soleType (by simp) hitem hnumbers h
  | pair a b => exact isReadable_soleType (by simp) hitem hnumbers h
  | set ms => exact isReadable_soleType (by simp) hitem hnumbers h
  | map es => exact isReadable_soleType (by simp) hitem hnumbers h

theorem isReadable_typesByNames (vs : List Value) {ts : List ModelType}
    (hitem : listsArray vs = true → ∀ u, item = .ok u → IsReadable u)
    (hnumbers : listsNumber vs = true → ∀ x ∈ listedValues m, x.isFiniteNumber = true)
    (h : typesByNames m place item vs = .ok ts) : ∀ t ∈ ts, IsReadable t := by
  cases vs with
  | nil =>
    cases h
    simp
  | cons v vs =>
    rw [typesByNames] at h
    rw [listsArray, Bool.or_eq_true] at hitem
    rw [listsNumber, Bool.or_eq_true] at hnumbers
    have hrest {us : List ModelType} (hus : typesByNames m place item vs = .ok us) :
        ∀ u ∈ us, IsReadable u :=
      isReadable_typesByNames vs (hitem ∘ .inr) (hnumbers ∘ .inr) hus
    split at h
    · exact hrest h
    · obtain ⟨t, ht, h⟩ := Outcome.bind_eq_ok.1 h
      obtain ⟨us, hus, h⟩ := Outcome.bind_eq_ok.1 h
      cases Outcome.pure_eq_ok.1 h
      exact List.forall_mem_cons.2
        ⟨isReadable_typeByName v (hitem ∘ .inl) (hnumbers ∘ .inl) ht, hrest hus⟩

end

end Named

/-- Whether a schema that names a type of numbers lists finite numbers only. -/
def listsNumbers : Value → Bool
  | .map m => !namesNumber (Value.field m "type") || (listedValues m).all Value.isFiniteNumber
  | _ => true

/-- Schemas whose references end with names of models, and whose enums of numbers list finite
numbers, as far as their types are read from them. -/
structure HasPlainNames (v : Value) : Prop where
  refs : ∀ ref ∈ refs v, IsReferenceName (Reference.targetName ref)
  numbers : ∀ x ∈ Value.within below size_below v, listsNumbers x = true

theorem HasPlainNames.of_mem_below {v x : Value} (h : HasPlainNames v) (hx : x ∈ below v) :
    HasPlainNames x where
  refs := fun _ href => h.refs _ (mem_refs.2 (.inr ⟨x, hx, href⟩))
  numbers := fun _ hy => h.numbers _ (Value.within_subset hx hy)

theorem HasPlainNames.isFiniteNumber {m : List (Scalar × Value)} (h : HasPlainNames (.map m))
    (hnames : namesNumber (Value.field m "type") = true) :
    ∀ x ∈ listedValues m, x.isFiniteNumber = true := by
  have hlists := h.numbers _ Value.mem_within_self
  simpa [listsNumbers, hnames] using hlists

/-- The type of such a schema is readable. -/
theorem HasPlainNames.isReadable {v : Value} (hv : HasPlainNames v) {place : String}
    {t : ModelType} (h : typeOf v place = .ok t) : IsReadable t := by
  induction hn : sizeOf v using Nat.strongRecOn generalizing v place t with
  | ind k ih =>
    subst hn
    have hbelow : ∀ x ∈ below v, ∀ place u, typeOf x place = .ok u → IsReadable u :=
      fun x hx place u hu => ih (sizeOf x) (size_below v x hx) (hv.of_mem_below hx) hu rfl
    cases isMadeOf_of_typeOf h with
    | @ref m ref href =>
      have hown : (Value.map m).ref? = some ref := by
        simp [Value.ref?, Value.field?, href, Value.str?]
      exact .ref (hv.refs ref (mem_refs.2 (.inl hown)))
    | parts hno _ hts =>
      refine isReadable_unionOf fun u hu => ?_
      obtain ⟨x, hx, hxu⟩ := Outcome.exists_of_mem_mapM hts hu
      exact hbelow x hx place u hxu
    | @named m _ hno hitems hnamed hname =>
      refine isReadable_typeByName _ (fun harray u hu => ?_)
        hv.isFiniteNumber hname
      unfold arrayOf at hu
      split at hu
      · cases hu
        exact .array .object
      · cases hu
        exact .array .object
      · next item _ hget =>
        obtain ⟨w, hw, rfl⟩ := Outcome.map_eq_ok.1 hu
        have hx : item ∈ below (.map m) := by
          rw [hnamed, if_pos harray, hget]
          exact List.mem_singleton_self item
        exact .array (hbelow item hx _ w hw)

/-- **Types keep their meaning in print.** The types of two schemas have the same text, in either
style, inside any model and with the same word on null, if and only if they are the same up to
unions in unions and unions of one type. -/
theorem textOrNull_eq_iff_flat_eq {v w : Value} {place other : String} {t u : ModelType}
    (hv : HasPlainNames v) (hw : HasPlainNames w) (ht : typeOf v place = .ok t)
    (hu : typeOf w other = .ok u) (style : ModelStyle) (current : String) (nullable : Bool) :
    t.textOrNull style current nullable = u.textOrNull style current nullable ↔
      t.flat = u.flat := by
  rw [← text_eq_iff (hv.isReadable ht) (hw.isReadable hu) style current]
  cases nullable
  · rfl
  · simp [textOrNull]

/-- One of two schemas. -/
def eitherOf (x y : Value) : Value := .record [("oneOf", .list [x, y])]

theorem typeOf_eitherOf {x y : Value} {place : String} {t u : ModelType}
    (hx : typeOf x place = .ok t) (hy : typeOf y place = .ok u)
    (hnone : [x, y].filter Nullable.isNullSchema = []) :
    typeOf (eitherOf x y) place = .ok (.union [t, u]) := by
  have hall : [x, y].filter (fun z => !Nullable.isNullSchema z) = [x, y] := by
    simpa using hnone
  have hboth : [x, y].mapM (typeOf · place) = .ok [t, u] :=
    Outcome.mapM_eq_ok.2 (.cons hx (.cons hy .nil))
  have heither : typeOf (eitherOf x y) place = unionOf <$>
      ([x, y].filter fun z => !Nullable.isNullSchema z).mapM (typeOf · place) :=
    typeOf_of_alternatives rfl rfl
  rw [heither, hall, hboth]
  rfl

/-- A pet, a text that looks like types, and a list of pets. -/
def petSchema : Value := .record [("$ref", .str "#/components/schemas/Pet")]

def lookalikeSchema : Value :=
  .record [("type", .str "string"), ("enum", .ofStrings ["Pet | Array<Pet>"])]

def petsSchema : Value := .record [("type", .str "array"), ("items", petSchema)]

theorem typeOf_petSchema (place : String) : typeOf petSchema place = .ok (.ref "Pet") :=
  typeOf_reference _ _

theorem typeOf_lookalikeSchema (place : String) : typeOf lookalikeSchema place =
    .ok (.union [.literal ⟨.string, "Pet | Array<Pet>"⟩]) := typeOf_of_items rfl rfl rfl

theorem typeOf_petsSchema (place : String) :
    typeOf petsSchema place = .ok (.array (.ref "Pet")) := by
  have harray : arrayOf [(.str "type", .str "array"), (.str "items", petSchema)] place =
      ModelType.array <$> typeOf petSchema (place ++ "[]") := arrayOf_eq rfl (by simp [petSchema, Value.record])
  rw [typeOf_petSchema] at harray
  exact (typeOf_of_items rfl rfl rfl).trans harray

/-- Grouping three alternatives in another way leaves their text as it was. -/
theorem textOrNull_regrouped : ∃ t u,
    typeOf (eitherOf (eitherOf petSchema lookalikeSchema) petsSchema) "Left" = .ok t ∧
    typeOf (eitherOf petSchema (eitherOf lookalikeSchema petsSchema)) "Right" = .ok u ∧ t ≠ u ∧
    t.textOrNull .modules "Owner" true = u.textOrNull .modules "Owner" true := by
  have hleft := typeOf_eitherOf (typeOf_eitherOf (typeOf_petSchema "Left")
    (typeOf_lookalikeSchema "Left") rfl) (typeOf_petsSchema "Left") rfl
  have hright := typeOf_eitherOf (typeOf_petSchema "Right") (typeOf_eitherOf
    (typeOf_lookalikeSchema "Right") (typeOf_petsSchema "Right") rfl) rfl
  refine ⟨_, _, hleft, hright, nofun, ?_⟩
  exact (textOrNull_eq_iff_flat_eq ⟨by decide +kernel, by decide +kernel⟩
    ⟨by decide +kernel, by decide +kernel⟩ hleft hright .modules "Owner" true).2 rfl

end Model
end ApiScribe
