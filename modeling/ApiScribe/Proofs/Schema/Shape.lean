import ApiScribe.Schema
import ApiScribe.Proofs.Outcome
import ApiScribe.Proofs.TypeExpr.Syntax

/-! What a schema says at its top: a type with a name, a combination, an array, an object type or a
record, with the schemas it is made of. The text of its type is put together from theirs. -/
namespace ApiScribe
namespace Schema

/-- The two ways of combining types. -/
inductive Combination
  | union
  | inter
  deriving Repr, DecidableEq

/-- The text of combined types. -/
def Combination.text : Combination → List String → String
  | .union => unionText
  | .inter => intersectionText

/-- The combination that a schema is, and its parts. -/
def combined? (m : List (Scalar × Value)) : Option (Combination × Value) :=
  [("oneOf", Combination.union), ("anyOf", .union), ("allOf", .inter)].findSome? fun k =>
    (Entries.get? m (.str k.1)).map fun v => (k.2, v)

theorem combination?_eq (m : List (Scalar × Value)) :
    combination? m = (combined? m).map fun c => (c.1.text, c.2) := by
  simp only [combination?, combined?, List.findSome?_cons, List.findSome?_nil]
  cases Entries.get? m (.str "oneOf") with
  | some v => rfl
  | none =>
    cases Entries.get? m (.str "anyOf") with
    | some v => rfl
    | none => cases Entries.get? m (.str "allOf") <;> rfl

/-- The top of a schema, with the schemas it is made of. -/
inductive Shape
  | name (type : String)
  | combination (c : Combination) (parts : List Value)
  | array (item : Value)
  | object (fields : List (TypeKey × Value))
  | record (value : Value)

namespace Shape

/-- The schemas that a schema is made of. -/
def parts : Shape → List Value
  | .name _ => []
  | .combination _ parts => parts
  | .array item => [item]
  | .object fields => fields.map (·.2)
  | .record value => [value]

/-- The names that the top of a schema brings into its type. -/
def names : Shape → List String
  | .name type => [type]
  | .object fields => fields.map (·.1.name)
  | _ => []

/-- The member of an object type. -/
def fieldText (key : TypeKey) (type : String) : String :=
  key.name ++ (if key.optional then "?: " else ": ") ++ type

/-- The text of a type whose parts have texts. -/
def text (f : Value → Outcome String) : Shape → Outcome String
  | .name type => .ok type
  | .combination c parts => c.text <$> parts.mapM f
  | .array item => arrayText <$> f item
  | .object fields => objectText <$> fields.mapM fun p => fieldText p.1 <$> f p.2
  | .record value => (fun t => "Record<string, " ++ t ++ ">") <$> f value

end Shape

/-- The top of an object schema that lists no properties. -/
def recordShape (m : List (Scalar × Value)) : Outcome Shape :=
  if (Value.field m "properties").isSet then .unexpected
  else match Entries.get? m (.str "additionalProperties") with
    | some (.map extra) => .ok (.record (.map extra))
    | _ => .ok (.name "object")

/-- The top of an object schema. -/
def objectShape (m : List (Scalar × Value)) : Outcome Shape :=
  match Entries.get? m (.str "properties") with
  | some (.map (p :: ps)) => do
    let required ← nameSet (Value.field m "required")
    return .object ((p :: ps).map fun q => (⟨q.1.display, !required.contains q.1⟩, q.2))
  | _ => recordShape m

/-- The top of a schema that is no reference and no combination. -/
def plainShape (m : List (Scalar × Value)) : Outcome Shape :=
  let type := singleType m
  if type.isString "integer" || type.isString "number" then .ok (.name "number")
  else if type.isString "string" then .ok (.name "string")
  else if type.isString "boolean" then .ok (.name "boolean")
  else if type.isString "array" || Value.hasField m "items" then
    .ok (.array (Value.field m "items"))
  else if type.isString "object" || Value.hasField m "properties" then objectShape m
  else .ok (.name "unknown")

/-- The top of a schema. The members of a combination that is no list are no schemas. -/
def shape : Value → Outcome Shape
  | .map m =>
    if m.isEmpty then .ok (.name "unknown")
    else match Entries.get? m (.str "$ref") with
    | some (.str ref) => .ok (.name (Reference.targetName ref))
    | some _ => .unexpected
    | none =>
    match combined? m with
    | some (c, .list parts) => .ok (.combination c parts)
    | some (c, v) => (fun xs => .combination c (xs.map fun _ => .null)) <$>
        Outcome.expect v.members?
    | none => plainShape m
  | .endless => .unexpected
  | _ => .ok (.name "unknown")

theorem size_combined {m : List (Scalar × Value)} {c : Combination} {parts : List Value}
    {x : Value} (h : combined? m = some (c, .list parts)) (hx : x ∈ parts) :
    sizeOf x < sizeOf (Value.map m) := by
  have hcombination : combination? m = some (c.text, .list parts) := by
    rw [combination?_eq, h]
    rfl
  exact size_part hcombination hx

theorem sizeOf_null_lt {m : List (Scalar × Value)} (hne : m ≠ []) :
    sizeOf Value.null < sizeOf (Value.map m) := by
  cases m with
  | nil => exact absurd rfl hne
  | cons p m =>
    obtain ⟨k, v⟩ := p
    simp only [Value.map.sizeOf_spec, Value.scalar.sizeOf_spec, Scalar.null.sizeOf_spec,
      List.cons.sizeOf_spec, Prod.mk.sizeOf_spec]
    omega

theorem sizeOf_field_lt {m : List (Scalar × Value)} (hne : m ≠ []) (key : String) :
    sizeOf (Value.field m key) < sizeOf (Value.map m) := by
  unfold Value.field
  cases h : Entries.get? m (.str key) with
  | none => exact sizeOf_null_lt hne
  | some v => exact Value.sizeOf_lt_of_get? h

/-- The names of types that are no references. -/
def plainNames : List String := ["unknown", "number", "string", "boolean", "object"]

theorem objectShape_cases {m : List (Scalar × Value)} {s : Shape} (h : objectShape m = .ok s) :
    s = .name "object" ∨
    (∃ props required, Entries.get? m (.str "properties") = some (.map props) ∧ props ≠ [] ∧
      s = .object (props.map fun q => (⟨q.1.display, !List.contains required q.1⟩, q.2))) ∨
    ∃ extra, Entries.get? m (.str "additionalProperties") = some extra ∧ s = .record extra := by
  unfold objectShape at h
  split at h
  · rename_i p ps hprops
    obtain ⟨required, -, h⟩ := Outcome.bind_eq_ok.1 h
    obtain rfl := Outcome.pure_eq_ok.1 h
    exact .inr (.inl ⟨p :: ps, required, hprops, List.cons_ne_nil p ps, rfl⟩)
  · unfold recordShape at h
    split at h
    · exact absurd h Outcome.unexpected_ne_ok
    · split at h
      · rename_i extra hextra
        cases h
        exact .inr (.inr ⟨_, hextra, rfl⟩)
      · exact .inl (Except.ok.inj h).symm

theorem plainShape_cases {m : List (Scalar × Value)} {s : Shape} (h : plainShape m = .ok s) :
    (∃ type ∈ plainNames, s = .name type) ∨ s = .array (Value.field m "items") ∨
      objectShape m = .ok s := by
  unfold plainShape at h
  simp only at h
  split at h
  · exact .inl ⟨"number", by decide, (Except.ok.inj h).symm⟩
  split at h
  · exact .inl ⟨"string", by decide, (Except.ok.inj h).symm⟩
  split at h
  · exact .inl ⟨"boolean", by decide, (Except.ok.inj h).symm⟩
  split at h
  · exact .inr (.inl (Except.ok.inj h).symm)
  split at h
  · exact .inr (.inr h)
  · exact .inl ⟨"unknown", by decide, (Except.ok.inj h).symm⟩

/-- All that the top of a schema can be. -/
theorem shape_cases {v : Value} {s : Shape} (h : shape v = .ok s) :
    (∃ type, s = .name type ∧ ((∃ ref, v.field? "$ref" = some (.str ref) ∧
        type = Reference.targetName ref) ∨ type ∈ plainNames)) ∨ ∃ m, v = .map m ∧ m ≠ [] ∧
      ((∃ c parts, combined? m = some (c, .list parts) ∧ s = .combination c parts) ∨
        (∃ c xs, s = .combination c (List.map (fun _ => .null) (xs : List Value))) ∨
        plainShape m = .ok s) := by
  unfold shape at h
  split at h
  · rename_i m
    split at h
    · exact .inl ⟨"unknown", (Except.ok.inj h).symm, .inr (by decide)⟩
    rename_i hempty
    have hne : m ≠ [] := by
      rintro rfl
      exact hempty rfl
    split at h
    · rename_i ref href
      exact .inl ⟨_, (Except.ok.inj h).symm, .inl ⟨ref, href, rfl⟩⟩
    · exact absurd h Outcome.unexpected_ne_ok
    refine .inr ⟨m, rfl, hne, ?_⟩
    split at h
    · rename_i c parts hcombined
      cases h
      exact .inl ⟨c, parts, hcombined, rfl⟩
    · rename_i c v _ _
      obtain ⟨xs, -, rfl⟩ := Outcome.map_eq_ok.1 h
      exact .inr (.inl ⟨c, xs, rfl⟩)
    · exact .inr (.inr h)
  · exact absurd h Outcome.unexpected_ne_ok
  · exact .inl ⟨"unknown", (Except.ok.inj h).symm, .inr (by decide)⟩

theorem size_plainShape {m : List (Scalar × Value)} (hne : m ≠ []) {s : Shape}
    (h : plainShape m = .ok s) {x : Value} (hx : x ∈ s.parts) :
    sizeOf x < sizeOf (Value.map m) := by
  obtain ⟨type, -, rfl⟩ | rfl | h := plainShape_cases h
  · cases hx
  · obtain rfl := List.mem_singleton.1 hx
    exact sizeOf_field_lt hne "items"
  obtain rfl | ⟨props, required, hprops, -, rfl⟩ | ⟨extra, hextra, rfl⟩ :=
    objectShape_cases h
  · cases hx
  · simp only [Shape.parts, List.map_map, List.mem_map, Function.comp_apply] at hx
    obtain ⟨q, hq, rfl⟩ := hx
    exact size_entry hprops hq
  · obtain rfl := List.mem_singleton.1 hx
    exact Value.sizeOf_lt_of_get? hextra

/-- The schemas that a schema is made of are smaller. -/
theorem size_shape {v : Value} {s : Shape} (h : shape v = .ok s) {x : Value}
    (hx : x ∈ s.parts) : sizeOf x < sizeOf v := by
  obtain ⟨type, rfl, -⟩ | ⟨m, rfl, hne, h⟩ := shape_cases h
  · cases hx
  obtain ⟨c, parts, hcombined, rfl⟩ | ⟨c, xs, rfl⟩ | h := h
  · exact size_combined hcombined hx
  · obtain ⟨y, -, rfl⟩ := List.mem_map.1 hx
    exact sizeOf_null_lt hne
  · exact size_plainShape hne h hx

/-- An object type has a field at least. -/
theorem fields_ne_nil {v : Value} {fields : List (TypeKey × Value)}
    (h : shape v = .ok (.object fields)) : fields ≠ [] := by
  obtain ⟨_, h, -⟩ | ⟨m, rfl, -, h⟩ := shape_cases h
  · cases h
  obtain ⟨_, _, -, h⟩ | ⟨_, _, h⟩ | h := h
  · cases h
  · cases h
  obtain ⟨_, -, h⟩ | h | h := plainShape_cases h
  · cases h
  · cases h
  obtain h | ⟨props, required, -, hne, h⟩ | ⟨_, -, h⟩ := objectShape_cases h
  · cases h
  · cases h
    simpa using hne
  · cases h

theorem typeText_null : typeText .null = .ok "unknown" := by
  rw [typeText]
  all_goals simp

theorem mapM_typeText_null (xs : List Value) :
    (xs.map fun _ => Value.null).mapM typeText = .ok (xs.map fun _ => "unknown") := by
  induction xs with
  | nil => rfl
  | cons x xs ih => rw [List.map_cons, List.mapM_cons, typeText_null, ih]; rfl

theorem combined?_of_combination? {m : List (Scalar × Value)} {join : List String → String}
    {v : Value} (h : combination? m = some (join, v)) :
    ∃ c, combined? m = some (c, v) ∧ join = c.text := by
  rw [combination?_eq] at h
  obtain ⟨⟨c, w⟩, hcombined, heq⟩ := Option.map_eq_some_iff.1 h
  cases heq
  exact ⟨c, hcombined, rfl⟩

theorem combined?_eq_none {m : List (Scalar × Value)} (h : combination? m = none) :
    combined? m = none := by
  rw [combination?_eq] at h
  exact Option.map_eq_none_iff.1 h

theorem memberText_eq (required : List Scalar) (name : Scalar) :
    memberText required name = Shape.fieldText ⟨name.display, !required.contains name⟩ := by
  funext type
  unfold memberText Shape.fieldText
  cases required.contains name <;> rfl

theorem mapM_memberText (required : List Scalar) (ps : List (Scalar × Value)) :
    (ps.mapM fun q => memberText required q.1 <$> typeText q.2) =
      (ps.map fun q => ((⟨q.1.display, !required.contains q.1⟩ : TypeKey), q.2)).mapM
        fun p => Shape.fieldText p.1 <$> typeText p.2 := by
  rw [List.mapM_map]
  simp only [memberText_eq]
  rfl

theorem objectShape_of_no_fields {m : List (Scalar × Value)}
    (h : ∀ p ps, Entries.get? m (.str "properties") = some (.map (p :: ps)) → False) :
    objectShape m = recordShape m := by
  unfold objectShape
  split
  · exact absurd ‹_› (h _ _)
  · rfl

/-- The fields of an object type are those that the properties list. -/
theorem objectShape_text {m : List (Scalar × Value)} {p : Scalar × Value}
    {ps : List (Scalar × Value)}
    (h : Entries.get? m (.str "properties") = some (.map (p :: ps))) :
    objectShape m >>= Shape.text typeText =
      nameSet (Value.field m "required") >>= fun required =>
        objectText <$> (p :: ps).mapM fun q => memberText required q.1 <$> typeText q.2 := by
  simp only [objectShape, h, mapM_memberText]
  cases nameSet (Value.field m "required") <;> rfl

theorem text_array_field (m : List (Scalar × Value)) (key : String) :
    Shape.text typeText (.array (Value.field m key)) =
      (Entries.get? m (.str key)).elim (.ok (arrayText "unknown"))
        fun items => arrayText <$> typeText items := by
  unfold Value.field
  cases Entries.get? m (.str key) with
  | some items => rfl
  | none =>
    show arrayText <$> typeText .null = _
    rw [typeText_null]
    rfl

section Text

variable {m : List (Scalar × Value)}

theorem typeText_of_parts {join : List String → String} {parts : List Value}
    (hne : m.isEmpty = false) (hno : Entries.get? m (.str "$ref") = none)
    (h : combination? m = some (join, .list parts)) :
    typeText (.map m) = join <$> parts.mapM typeText := by
  rw [typeText.eq_def]
  simp only [hne, hno, Bool.false_eq_true, if_false]
  split
  · next hlist =>
    cases h.symm.trans hlist
    rw [List.mapM_subtype fun _ _ => rfl, List.unattach_attach]
  · next hlist hother =>
    cases h.symm.trans hother
    exact (hlist _ rfl).elim
  · next hnone => cases h.symm.trans hnone

/-- The members of a combination that is no list have unknown types. -/
theorem typeText_of_members {join : List String → String} {v : Value}
    (hne : m.isEmpty = false) (hno : Entries.get? m (.str "$ref") = none)
    (h : combination? m = some (join, v)) (hlist : ∀ parts, v ≠ .list parts) :
    typeText (.map m) =
      (fun xs => join (xs.map fun _ => "unknown")) <$> Outcome.expect v.members? := by
  rw [typeText.eq_def]
  simp only [hne, hno, Bool.false_eq_true, if_false]
  split
  · next hother =>
    cases h.symm.trans hother
    exact absurd rfl (hlist _)
  · next hother =>
    cases h.symm.trans hother
    rfl
  · next hnone => cases h.symm.trans hnone

theorem typeText_of_plain (hne : m.isEmpty = false)
    (hno : Entries.get? m (.str "$ref") = none) (h : combination? m = none) :
    typeText (.map m) = plainShape m >>= Shape.text typeText := by
  rw [typeText.eq_def]
  simp only [hne, hno, Bool.false_eq_true, if_false]
  split
  · next hsome => cases h.symm.trans hsome
  · next hsome => cases h.symm.trans hsome
  unfold plainShape
  simp only
  split
  · rfl
  split
  · rfl
  split
  · rfl
  split
  · show _ = Shape.text typeText (.array (Value.field m "items"))
    rw [text_array_field]
    split
    · next hitems => rw [hitems]; rfl
    · next hitems => rw [hitems]; rfl
  split
  · split
    · next hprops =>
      rw [objectShape_text hprops]
      congr 1
      funext required
      rw [List.mapM_subtype
        (g := fun q => memberText required q.1 <$> typeText q.2) fun _ _ => rfl,
        List.unattach_attach]
    · next hprops =>
      rw [objectShape_of_no_fields hprops]
      unfold recordShape Value.field
      split
      · rfl
      split
      · next hextra =>
        rw [hextra]
        rfl
      split
      · next hextra _ _ hextra' => exact absurd hextra' (hextra _)
      · rfl
  · rfl

end Text

/-- The text of a schema's type is put together from those of the schemas it is made of. -/
theorem typeText_eq (v : Value) : typeText v = shape v >>= Shape.text typeText := by
  cases v with
  | map m =>
    cases hne : m.isEmpty with
    | true =>
      rw [typeText.eq_def]
      simp only [shape, hne, if_true]
      rfl
    | false =>
    cases href : Entries.get? m (.str "$ref") with
    | some w =>
      rw [typeText.eq_def]
      simp only [shape, hne, href, Bool.false_eq_true, if_false]
      cases w with
      | scalar s => cases s <;> rfl
      | _ => rfl
    | none =>
    simp only [shape, hne, href, Bool.false_eq_true, if_false]
    cases hcombination : combination? m with
    | none =>
      rw [typeText_of_plain hne href hcombination, combined?_eq_none hcombination]
    | some p =>
      obtain ⟨join, v⟩ := p
      obtain ⟨c, hcombined, rfl⟩ := combined?_of_combination? hcombination
      rw [hcombined]
      split
      · next hlist =>
        cases hlist
        exact typeText_of_parts hne href hcombination
      · next hlist hother =>
        cases hother
        rw [typeText_of_members hne href hcombination hlist]
        cases v.members? with
        | none => rfl
        | some xs =>
          show _ = c.text <$> (xs.map fun _ => Value.null).mapM typeText
          rw [mapM_typeText_null]
          rfl
      · next hnone => cases hnone
  | endless => rw [typeText.eq_def]; rfl
  | _ => rw [typeText.eq_def]; rfl

end Schema
end ApiScribe
