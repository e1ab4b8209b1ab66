import ApiScribe.Reference
import ApiScribe.Text.Alphanumeric
import ApiScribe.Value.Shown

/-! Schemas as TypeScript type expressions. A reference becomes the name of what it refers to and
is not looked into, so generated code imports the type from the model tree. -/
namespace ApiScribe
namespace Schema

/-- The named schemas of a document: under `components`, or under `definitions` in the older
form. -/
def named (document : Value) : Outcome Value := do
  let root ← Outcome.expect document.entries?
  let components := Value.field root "components"
  let schemas ←
    if components.isSet then (Value.field · "schemas") <$> Outcome.expect components.entries?
    else pure .null
  let schemas := if schemas.isNull then Value.field root "definitions" else schemas
  return if schemas.isSet then schemas else .map []

/-- The alternatives of a text list, each once, in order of first occurrence. -/
def dedupe (xs : List String) : List String := xs.eraseDups

/-- Whether a type text is one word, so that a pair of brackets after it belongs to all of it. -/
def isWord (t : String) : Bool :=
  let cs := t.toList.filter (· ≠ '_')
  !cs.isEmpty && cs.all Text.isAlphanumeric

/-- The array of a type. -/
def arrayText (item : String) : String :=
  if isWord item then item ++ "[]" else "Array<" ++ item ++ ">"

/-- The alternatives joined by bars. -/
def unionText (variants : List String) : String :=
  if variants.isEmpty then "unknown" else " | ".intercalate (dedupe variants)

/-- The members joined by ampersands. -/
def intersectionText (members : List String) : String :=
  if members.isEmpty then "unknown" else " & ".intercalate (dedupe members)

/-- The names that a set of names lists; its members must never change, and what is no scalar is the
name of nothing. -/
def nameSet (v : Value) : Outcome (List Scalar) :=
  if !v.isSet then .ok []
  else do
    let members ← Outcome.expect v.members?
    if members.all Value.isFixed then return members.filterMap Value.scalar? else .unexpected

/-- The member of an object type. -/
def memberText (required : List Scalar) (name : Scalar) (type : String) : String :=
  name.display ++ (if required.contains name then ": " else "?: ") ++ type

/-- An object type. -/
def objectText (members : List String) : String :=
  "\x7b " ++ "; ".intercalate members ++ " \x7d"

/-- The one type name that a schema gives, as a value: lists of types count if a single one is
left besides null. -/
def singleType (m : List (Scalar × Value)) : Value :=
  match Value.field m "type" with
  | .list ts => match ts.filter (fun t => !t.isString "null") with
    | [t] => t
    | _ => .null
  | t => t

theorem size_item {m : List (Scalar × Value)} {key : Scalar} {items : List Value} {x : Value}
    (h : Entries.get? m key = some (.list items)) (hx : x ∈ items) :
    sizeOf x < sizeOf (Value.map m) := by
  have h1 := Value.sizeOf_lt_of_get? h
  have h2 := List.sizeOf_lt_of_mem hx
  simp only [Value.list.sizeOf_spec] at h1
  omega

theorem size_entry {m props : List (Scalar × Value)} {key : Scalar} {p : Scalar × Value}
    (h : Entries.get? m key = some (.map props)) (hp : p ∈ props) :
    sizeOf p.2 < sizeOf (Value.map m) := by
  have h1 := Value.sizeOf_lt_of_get? h
  have h2 := List.sizeOf_lt_of_mem hp
  obtain ⟨k, v⟩ := p
  simp only [Value.map.sizeOf_spec, Prod.mk.sizeOf_spec] at h1 h2 ⊢
  omega

/-- The combination that a schema is, if it is one: how its parts are joined, and the parts.
Alternatives come before members. -/
def combination? (m : List (Scalar × Value)) : Option ((List String → String) × Value) :=
  [("oneOf", unionText), ("anyOf", unionText), ("allOf", intersectionText)].findSome? fun k =>
    (Entries.get? m (.str k.1)).map fun v => (k.2, v)

theorem size_part {m : List (Scalar × Value)} {join : List String → String} {parts : List Value}
    {x : Value} (h : combination? m = some (join, .list parts)) (hx : x ∈ parts) :
    sizeOf x < sizeOf (Value.map m) := by
  obtain ⟨k, _, hk⟩ := List.exists_of_findSome?_eq_some h
  obtain ⟨v, hv, he⟩ := Option.map_eq_some_iff.1 hk
  cases he
  exact size_item hv hx

/-- The type expression of a schema. What is no schema has the type `unknown`, and a schema without
end has no type expression. -/
def typeText (schema : Value) : Outcome String :=
  match schema with
  | .map m =>
    if m.isEmpty then .ok "unknown"
    else match Entries.get? m (.str "$ref") with
    | some (.str ref) => .ok (Reference.targetName ref)
    | some _ => .unexpected
    | none =>
    match h : combination? m with
    | some (join, .list parts) => join <$> parts.attach.mapM fun ⟨x, hx⟩ =>
        have := size_part h hx
        typeText x
    | some (join, v) => return join ((← Outcome.expect v.members?).map fun _ => "unknown")
    | none =>
    let type := singleType m
    if type.isString "integer" || type.isString "number" then .ok "number"
    else if type.isString "string" then .ok "string"
    else if type.isString "boolean" then .ok "boolean"
    else if type.isString "array" || Value.hasField m "items" then
      match h : Entries.get? m (.str "items") with
      | some items =>
        have := Value.sizeOf_lt_of_get? h
        arrayText <$> typeText items
      | none => .ok (arrayText "unknown")
    else if type.isString "object" || Value.hasField m "properties" then
      match h : Entries.get? m (.str "properties") with
      | some (.map (p :: ps)) => do
        let required ← nameSet (Value.field m "required")
        objectText <$> (p :: ps).attach.mapM fun ⟨q, hq⟩ =>
          have := size_entry h hq
          memberText required q.1 <$> typeText q.2
      | properties =>
        if (properties.getD .null).isSet then .unexpected
        else match h : Entries.get? m (.str "additionalProperties") with
          | some (.map extra) =>
            have := Value.sizeOf_lt_of_get? h
            (fun t => "Record<string, " ++ t ++ ">") <$> typeText (.map extra)
          | _ => .ok "object"
    else .ok "unknown"
  | .endless => .unexpected
  | _ => .ok "unknown"
termination_by sizeOf schema
decreasing_by all_goals exact this

/-- The content types whose schema is preferred, best first. -/
def preferredTypes : List String := ["application/json", "text/json", "*/*"]

/-- The schema under a media type; null when there is none. -/
def mediaSchema (media : Value) : Outcome Value :=
  if media.isSet then (Value.field · "schema") <$> Outcome.expect media.entries? else .ok .null

/-- The schema of the preferred media type, else that of the first one; null when there is
none. -/
def pickMedia (content : Value) : Outcome Value :=
  match content with
  | .map ((k, v) :: m) =>
    match preferredTypes.findSome? fun t => Entries.get? ((k, v) :: m) (.str t) with
    | some media => mediaSchema media
    | none => mediaSchema v
  | _ => .ok .null

end Schema
end ApiScribe
