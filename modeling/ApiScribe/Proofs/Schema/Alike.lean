import ApiScribe.Proofs.Schema.Shape
import ApiScribe.Proofs.Value.Basic

/-! Schemas that say the same. Two maps match as schemas if all that a type is read off is the same
in both, up to schemas below that match again; then they have the same type. -/
namespace ApiScribe
namespace Schema

/-- The keys under which the top of a schema names its type and holds the schemas below. -/
def topKeys : List String :=
  ["$ref", "oneOf", "anyOf", "allOf", "type", "items", "properties", "additionalProperties"]

/-- Entries with the same keys in the same order, and related values. -/
def EntriesAlike (R : Value → Value → Prop) (m n : List (Scalar × Value)) : Prop :=
  List.Forall₂ (fun p q => p.1 = q.1 ∧ R p.2 q.2) m n

theorem EntriesAlike.get? {R : Value → Value → Prop} {m n : List (Scalar × Value)}
    (h : EntriesAlike R m n) (key : Scalar) :
    Option.Rel R (Entries.get? m key) (Entries.get? n key) := by
  induction h with
  | nil => exact .none
  | @cons p q m n hpq _ ih =>
    rw [Entries.get?, Entries.get?, List.find?_cons, List.find?_cons, hpq.1]
    cases q.1 == key with
    | true => exact .some hpq.2
    | false => exact ih

/-- Maps that say the same of a type, with related schemas below. -/
structure Matches (R : Value → Value → Prop) (m n : List (Scalar × Value)) : Prop where
  length : m.length = n.length
  top : ∀ key ∈ topKeys, Option.Rel R (Entries.get? m (.str key)) (Entries.get? n (.str key))
  properties : ∀ ps qs, Entries.get? m (.str "properties") = some (.map ps) →
    Entries.get? n (.str "properties") = some (.map qs) → EntriesAlike R ps qs
  required : Outcome.Refines Eq (nameSet (Value.field m "required"))
    (nameSet (Value.field n "required"))

/-- Tops of schemas that are the same, with related schemas below. -/
inductive Shape.Alike (R : Value → Value → Prop) : Shape → Shape → Prop
  | name (type : String) : Shape.Alike R (.name type) (.name type)
  | combination (c : Combination) {xs ys : List Value} (h : List.Forall₂ R xs ys) :
      Shape.Alike R (.combination c xs) (.combination c ys)
  | array {x y : Value} (h : R x y) : Shape.Alike R (.array x) (.array y)
  | object {fs gs : List (TypeKey × Value)}
      (h : List.Forall₂ (fun p q => p.1 = q.1 ∧ R p.2 q.2) fs gs) :
      Shape.Alike R (.object fs) (.object gs)
  | record {x y : Value} (h : R x y) : Shape.Alike R (.record x) (.record y)

theorem forall₂_and_mem {α β : Type} {R : α → β → Prop} {xs : List α} {ys : List β}
    (h : List.Forall₂ R xs ys) : List.Forall₂ (fun x y => x ∈ xs ∧ R x y) xs ys := by
  obtain ⟨hlength, hget⟩ := List.forall₂_iff_get.1 h
  exact List.forall₂_iff_get.2 ⟨hlength, fun i hi hj => ⟨List.get_mem _ _, hget i hi hj⟩⟩

/-- Alike tops have the same text if the schemas below do. -/
theorem Shape.Alike.text {R : Value → Value → Prop} {s t : Shape} (h : Shape.Alike R s t)
    {f g : Value → Outcome String}
    (hfg : ∀ x ∈ s.parts, ∀ y, R x y → Outcome.Refines Eq (f x) (g y)) :
    Outcome.Refines Eq (s.text f) (t.text g) := by
  cases h with
  | name type => exact .ok rfl
  | combination c h =>
    exact (Outcome.Refines.mapM_eq (forall₂_and_mem h) fun x y hxy => hfg x hxy.1 y hxy.2).map
      fun _ _ => congrArg c.text
  | array h => exact (hfg _ List.mem_cons_self _ h).map fun _ _ => congrArg arrayText
  | object h =>
    refine (Outcome.Refines.mapM_eq (forall₂_and_mem h) ?_).map fun _ _ => congrArg objectText
    rintro p q ⟨hp, hkey, hpq⟩
    rw [hkey]
    exact (hfg p.2 (List.mem_map_of_mem hp) q.2 hpq).map fun _ _ => congrArg (fieldText q.1)
  | record h =>
    exact (hfg _ List.mem_cons_self _ h).map fun _ _ => congrArg fun t =>
      "Record<string, " ++ t ++ ">"

variable {R : Value → Value → Prop} {m n : List (Scalar × Value)}

theorem Matches.hasField (h : Matches R m n) (key : String) (hkey : key ∈ topKeys) :
    Value.hasField m key = Value.hasField n key := by
  rw [Value.hasField_eq, Value.hasField_eq]
  exact Outcome.isSome_eq_of_rel (h.top key hkey)

theorem Matches.combined? (h : Matches R m n) :
    Option.Rel (fun c d => c.1 = d.1 ∧ R c.2 d.2) (combined? m) (combined? n) := by
  simp only [Schema.combined?, List.findSome?_cons, List.findSome?_nil]
  have hone := h.top "oneOf" (by decide)
  have hany := h.top "anyOf" (by decide)
  have hall := h.top "allOf" (by decide)
  revert hone hany hall
  generalize Entries.get? m (.str "oneOf") = a, Entries.get? n (.str "oneOf") = a'
  generalize Entries.get? m (.str "anyOf") = b, Entries.get? n (.str "anyOf") = b'
  generalize Entries.get? m (.str "allOf") = c, Entries.get? n (.str "allOf") = c'
  rintro (hone | _) hany hall
  · exact .some ⟨rfl, hone⟩
  obtain hany | _ := hany
  · exact .some ⟨rfl, hany⟩
  obtain hall | _ := hall
  · exact .some ⟨rfl, hall⟩
  · exact .none

variable (halike : ∀ v w, R v w → Value.Alike R v w) (hnull : R .null .null)
include halike hnull

/-- Matching maps give the same type name. -/
theorem Matches.singleType (h : Matches R m n) (s : String) :
    (singleType m).isString s = (singleType n).isString s := by
  have htype := halike _ _ (Value.alike_getD hnull (h.top "type" (by decide)))
  unfold Schema.singleType Value.field
  revert htype
  generalize (Entries.get? m (.str "type")).getD .null = v
  generalize (Entries.get? n (.str "type")).getD .null = w
  intro htype
  cases htype with
  | @list xs ys hxs =>
    have hfilter : List.Forall₂ R (xs.filter fun t => !t.isString "null")
        (ys.filter fun t => !t.isString "null") :=
      List.rel_filter (fun x y hxy => by simp [(halike x y hxy).isString_eq]) hxs
    dsimp only
    revert hfilter
    generalize xs.filter (fun t => !t.isString "null") = us
    generalize ys.filter (fun t => !t.isString "null") = ws
    intro hfilter
    cases hfilter with
    | nil => rfl
    | cons hx hrest =>
      cases hrest with
      | nil => exact (halike _ _ hx).isString_eq s
      | cons => rfl
  | _ => rfl

theorem Matches.recordShape (h : Matches R m n) :
    Outcome.Refines (Shape.Alike R) (recordShape m) (recordShape n) := by
  have hproperties := halike _ _ (Value.alike_getD hnull (h.top "properties" (by decide)))
  have hextra := h.top "additionalProperties" (by decide)
  unfold Schema.recordShape Value.field
  rw [← hproperties.isSet_eq]
  split
  · exact .error
  revert hextra
  generalize Entries.get? m (.str "additionalProperties") = a
  generalize Entries.get? n (.str "additionalProperties") = b
  rintro (hab | _)
  · rename_i v w
    cases v with
    | map extra =>
      obtain ⟨_, rfl, -⟩ := (halike _ _ hab).exists_map
      exact .ok (.record hab)
    | _ =>
      cases halike _ _ hab
      all_goals exact .ok (.name "object")
  · exact .ok (.name "object")

theorem Matches.objectShape (h : Matches R m n) :
    Outcome.Refines (Shape.Alike R) (objectShape m) (objectShape n) := by
  have hproperties := h.top "properties" (by decide)
  have hentries := h.properties
  have hrecord := h.recordShape halike hnull
  unfold Schema.objectShape
  revert hproperties hentries
  generalize Entries.get? m (.str "properties") = a
  generalize Entries.get? n (.str "properties") = b
  rintro (hab | _) hentries
  · rename_i v w
    cases v with
    | map ps =>
      obtain ⟨qs, rfl, -⟩ := (halike _ _ hab).exists_map
      have hall : EntriesAlike R ps qs := hentries ps qs rfl rfl
      cases hall with
      | nil => exact hrecord
      | @cons p q ps qs hp hps =>
        have hall : EntriesAlike R (p :: ps) (q :: qs) := .cons hp hps
        refine h.required.bind ?_
        rintro required _ rfl
        refine .ok (.object (List.forall₂_map_left_iff.2 (List.forall₂_map_right_iff.2 ?_)))
        exact hall.imp fun p q hpq => ⟨by rw [hpq.1], hpq.2⟩
    | _ =>
      cases halike _ _ hab
      all_goals exact hrecord
  · exact hrecord

theorem Matches.plainShape (h : Matches R m n) :
    Outcome.Refines (Shape.Alike R) (plainShape m) (plainShape n) := by
  unfold Schema.plainShape
  simp only [h.singleType halike hnull, h.hasField "items" (by decide),
    h.hasField "properties" (by decide)]
  split
  · exact .ok (.name "number")
  split
  · exact .ok (.name "string")
  split
  · exact .ok (.name "boolean")
  split
  · exact .ok (.array (Value.alike_getD hnull (h.top "items" (by decide))))
  split
  · exact h.objectShape halike hnull
  · exact .ok (.name "unknown")

/-- Matching maps have alike tops. -/
theorem Matches.shape (h : Matches R m n) :
    Outcome.Refines (Shape.Alike R) (shape (.map m)) (shape (.map n)) := by
  unfold Schema.shape
  simp only [← Value.isEmpty_eq_of_length_eq h.length]
  split
  · exact .ok (.name "unknown")
  have href := h.top "$ref" (by decide)
  revert href
  generalize Entries.get? m (.str "$ref") = a
  generalize Entries.get? n (.str "$ref") = b
  rintro (hab | _)
  · rename_i v w
    cases halike _ _ hab with
    | scalar s =>
      cases s with
      | str ref => exact .ok (.name _)
      | _ => exact .error
    | _ => exact .error
  have hcombined := h.combined?
  have hplain := h.plainShape halike hnull
  revert hcombined
  generalize Schema.combined? m = a
  generalize Schema.combined? n = b
  rintro (⟨hc, hv⟩ | _)
  · rename_i c d
    obtain ⟨c, v⟩ := c
    obtain ⟨d, w⟩ := d
    obtain rfl : c = d := hc
    have hmembers := (halike v w hv).members?
    have hother : Outcome.Refines (Shape.Alike R)
        ((fun xs => .combination c (xs.map fun _ => .null)) <$> Outcome.expect v.members?)
        ((fun xs => .combination c (xs.map fun _ => .null)) <$> Outcome.expect w.members?) := by
      refine (Outcome.Refines.expect hmembers).map fun xs ys hxs => .combination c ?_
      rw [List.forall₂_map_left_iff, List.forall₂_map_right_iff]
      exact hxs.imp fun _ _ _ => hnull
    cases halike v w hv with
    | list hxs => exact .ok (.combination c hxs)
    | _ => exact hother
  · exact hplain

/-- Related schemas have the same type if maps that are related match. -/
theorem typeText_refines (hmatches : ∀ m n, R (.map m) (.map n) → Matches R m n) {v w : Value}
    (h : R v w) : Outcome.Refines Eq (typeText v) (typeText w) := by
  rw [typeText_eq v, typeText_eq w]
  -- the tops are alike, and so are the smaller schemas below
  have hshape : Outcome.Refines (Shape.Alike R) (Schema.shape v) (Schema.shape w) := by
    cases halike v w h with
    | map _ => exact (hmatches _ _ h).shape halike hnull
    | endless => exact .error
    | _ => exact .ok (.name "unknown")
  intro text htext
  obtain ⟨s, hs, htext⟩ := Outcome.bind_eq_ok.1 htext
  obtain ⟨t, ht, hst⟩ := hshape s hs
  have hbelow : ∀ x ∈ s.parts, ∀ y, R x y → Outcome.Refines Eq (typeText x) (typeText y) := by
    intro x hx y hxy
    have := size_shape hs hx
    exact typeText_refines hmatches hxy
  rw [ht]
  exact hst.text hbelow text htext
termination_by sizeOf v

/-- Matching maps have the same type, whatever they are found in. -/
theorem Matches.typeText (hmatches : ∀ m n, R (.map m) (.map n) → Matches R m n)
    (h : Matches R m n) : Outcome.Refines Eq (typeText (.map m)) (typeText (.map n)) := by
  rw [typeText_eq (.map m), typeText_eq (.map n)]
  exact (h.shape halike hnull).bind fun s t hst =>
    hst.text fun x _ y hxy => typeText_refines halike hnull hmatches hxy

end Schema
end ApiScribe
