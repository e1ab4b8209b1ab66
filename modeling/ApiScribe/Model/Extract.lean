import ApiScribe.Json.Writer
import ApiScribe.Model
import ApiScribe.Model.Nullable
import ApiScribe.Schema
import ApiScribe.Value.Order

/-! Models from the named schemas of a document. Objects become interfaces with their properties
in sorted order, lists of literals become enums, and everything else becomes an alias. -/
namespace ApiScribe
namespace Model

/-- The types that schemas can name. -/
def knownTypes : List String :=
  ["string", "integer", "number", "boolean", "object", "array", "null"]

/-- Whether a value can be asked for among names: one that never changes, or a set. -/
def isName : Value → Bool
  | .set _ => true
  | v => v.isFixed

/-- Passes if a value is the name of a type. -/
def checkTypeName (place : String) (v : Value) : Outcome Unit :=
  if !isName v then .unexpected
  else match v.str? with
    | some t => if knownTypes.contains t then .ok () else .fail (.unsupportedType place v.shown)
    | none => .fail (.unsupportedType place v.shown)

/-- The one type that a schema names besides null, if it names one only; all the types that it
names must be known. -/
def soleType (place : String) (type : Value) : Outcome (Option String) :=
  match type with
  | .null => .ok none
  | .list ts => do
    ts.forM (checkTypeName place)
    match ts.filter (fun t => !t.isString "null") with
    | [t] => return t.str?
    | _ => return none
  | t => do
    checkTypeName place t
    return t.str?

/-- The values that a schema lists, without null. -/
def listedValues (m : List (Scalar × Value)) : List Value :=
  match Value.field m "enum" with
  | .list vs => vs.filter (!·.isNull)
  | _ => []

/-- The text of a literal: a text itself, and any other value as JSON. -/
def literalText (v : Value) : Outcome String :=
  match v with
  | .str s => .ok s
  | v => Outcome.expect (Json.oneLine.write? v)

/-- Literals of one kind. -/
def literals (kind : LiteralKind) (vs : List Value) : Outcome (List Literal) :=
  vs.mapM fun v => return ⟨kind, ← literalText v⟩

/-- The union of types: a single one stands for itself, and none is an object. -/
def unionOf : List ModelType → ModelType
  | [] => .object
  | [t] => t
  | ts => .union ts

/-- The primitive of a kind of literals. -/
def primitive : LiteralKind → ModelType
  | .string => .string
  | .number => .number

/-- The type of listed literals, or the primitive if none are listed. -/
def literalType (m : List (Scalar × Value)) (kind : LiteralKind) : Outcome ModelType :=
  match listedValues m with
  | [] => .ok (primitive kind)
  | vs => do return .union ((← literals kind vs).map .literal)

/-- The kind of literals that a type has. -/
def literalKind? (type : Option String) : Option LiteralKind :=
  match type with
  | some "string" => some .string
  | some "integer" | some "number" => some .number
  | _ => none

/-- The type of a schema that is no reference and no composition, by the type that it names;
`item` is the array of what it says of items. -/
def plainType (m : List (Scalar × Value)) (item : Outcome ModelType)
    (type : Option String) : Outcome ModelType :=
  match literalKind? type with
  | some kind => literalType m kind
  | none =>
    if type = some "boolean" then .ok .boolean
    else if type = some "array" then item
    else .ok .object

mutual

/-- The type of a schema by its list of types or its only one. -/
def typeByName (m : List (Scalar × Value)) (place : String) (item : Outcome ModelType) :
    Value → Outcome ModelType
  | .list ts => unionOf <$> typesByNames m place item ts
  | .endless => .unexpected
  | t => do plainType m item (← soleType place t)

/-- The types of a schema by each of its types but null. -/
def typesByNames (m : List (Scalar × Value)) (place : String) (item : Outcome ModelType) :
    List Value → Outcome (List ModelType)
  | [] => .ok []
  | t :: ts =>
    if t.isString "null" then typesByNames m place item ts
    else do
      let first ← typeByName m place item t
      return first :: (← typesByNames m place item ts)

end

/-- The alternatives of a schema, if it is made of alternatives. -/
def alternatives? (m : List (Scalar × Value)) : Option Value :=
  (Entries.get? m (.str "oneOf")).or (Entries.get? m (.str "anyOf"))

/-- What stands where a list of schemas should: nothing is allowed, and whatever it lists is no
schema. -/
def partsOfNoList (v : Value) : Outcome Nat :=
  if !v.isSet then .ok 0
  else do return (← Outcome.expect v.members?).length

theorem size_alternative {m : List (Scalar × Value)} {parts : List Value} {x : Value}
    (h : alternatives? m = some (.list parts)) (hx : x ∈ parts) :
    sizeOf x < sizeOf (Value.map m) := by
  simp only [alternatives?, Option.or_eq_some_iff] at h
  rcases h with h | ⟨_, h⟩ <;> exact Schema.size_item h hx

/-- The type of a schema at a place that messages name. A composition of several members is an
object, and one of a single member is that member. -/
def typeOf (schema : Value) (place : String) : Outcome ModelType :=
  match schema with
  | .map m =>
    match Entries.get? m (.str "$ref") with
    | some (.str ref) => .ok (.ref (Reference.targetName ref))
    | some _ => .unexpected
    | none =>
    match h : alternatives? m with
    | some (.list parts) =>
      unionOf <$> (parts.attach.filter fun x => !Nullable.isNullSchema x.1).mapM fun ⟨x, hx⟩ =>
        have := size_alternative h hx
        typeOf x place
    | some v => do
      if (← partsOfNoList v) = 0 then return .object else .fail (.shapeNotObject place)
    | none =>
    match h : Entries.get? m (.str "allOf") with
    | some (.list parts) =>
      match parts.attach.filter fun x => !Nullable.isNullSchema x.1 with
      | [⟨x, hx⟩] =>
        have := Schema.size_item h hx
        typeOf x place
      | _ => .ok .object
    | some v => do
      if (← partsOfNoList v) = 1 then .fail (.shapeNotObject place) else return .object
    | none =>
      let item := match h : Entries.get? m (.str "items") with
        | none => .ok (.array .object)
        | some .null => .ok (.array .object)
        | some v =>
          have := Value.sizeOf_lt_of_get? h
          ModelType.array <$> typeOf v (place ++ "[]")
      typeByName m place item (Value.field m "type")
  | _ => .fail (.shapeNotObject place)
termination_by sizeOf schema
decreasing_by all_goals exact this

/-- The properties of a schema, which may be absent. -/
def propertyEntries (m : List (Scalar × Value)) (owner : String) :
    Outcome (List (Scalar × Value)) :=
  match Value.field m "properties" with
  | .map ps => .ok ps
  | v => if v.isSet then .fail (.propertiesNotObject owner) else .ok []

/-- One property of the schema `owner`. -/
def property (document : Value) (owner : String) (required : List Scalar) (key : Scalar)
    (child : Value) : Outcome ModelProperty :=
  match child with
  | .map m => do
    let nullable ← Nullable.canBeNull document child
    let type ← typeOf child (owner ++ "." ++ key.display)
    ((fun name description =>
      ({ name, description, required := required.contains key, nullable, type } : ModelProperty))
      <$> Checked.under (.field "name") (Check.string (.scalar key))
      <*> Checked.under (.field "description")
        (Check.optional Check.string (Value.field m "description"))).toOutcome
  | _ => .fail (.propertyNotObject owner key.display)

/-- The properties of a schema in sorted order. -/
def properties (document : Value) (m : List (Scalar × Value)) (owner : String) :
    Outcome (List ModelProperty) := do
  let ps ← propertyEntries m owner
  let required ← Schema.nameSet (Value.field m "required")
  (← Scalar.sortOn (·.1) ps).mapM fun p => property document owner required p.1 p.2

/-- Enum members, named by their position until someone names them. -/
def members (kind : LiteralKind) (vs : List Value) : Outcome (List EnumMember) := do
  return (← literals kind vs).mapIdx fun i l => ⟨"Value" ++ toString (i + 1), l, none⟩

/-- What the schema of a name is. -/
def kindOf (document : Value) (m : List (Scalar × Value)) (place : String) :
    Outcome ModelKind := do
  let type ← soleType place (Value.field m "type")
  let aliased : Outcome ModelKind := do
    let target ← typeOf (.map m) place
    return .aliased target (← Nullable.canBeNull document (.map m))
  if Value.hasField m "$ref" || Nullable.isComposition m then aliased
  else if type = some "object" || (type = none && Value.hasField m "properties") then
    return .interface (← properties document m place)
  else match literalKind? type with
    | none => aliased
    | some kind =>
      match listedValues m with
      | [] => return .aliased (primitive kind) (← Nullable.canBeNull document (.map m))
      | vs => return .enum (← members kind vs)

/-- The model of a named schema. -/
def ofSchema (document : Value) (name : Scalar) (schema : Value) : Outcome Model :=
  match schema with
  | .map m => do
    let kind ← kindOf document m name.display
    ((fun name description => ({ name, description, kind } : Model))
      <$> Checked.under (.field "name") (Check.string (.scalar name))
      <*> Checked.under (.field "description")
        (Check.optional Check.string (Value.field m "description"))).toOutcome
  | _ => .fail (.schemaNotObject name.display)

/-- The item of a list at a number; numbers below zero count from the end. -/
def itemAt? {α : Type} (xs : List α) (n : Int) : Option α :=
  if 0 ≤ n then xs[n.toNat]?
  else if n.natAbs ≤ xs.length then xs[xs.length - n.natAbs]?
  else none

/-- The number that a name counts items out by. -/
def index? : Scalar → Option Int
  | .int n => some n
  | .bool b => some (if b then 1 else 0)
  | _ => none

/-- The items of a value that numbers count out. -/
def items? : Value → Option (List Value)
  | .list xs => some xs
  | .scalar (.bytes bs) => some (bs.map fun b => .int b.toNat)
  | _ => none

/-- The named schemas of a value, sorted by name: the entries of a map, or items by the numbers that
the value lists, as far as there are such items. -/
def namedSchemas (schemas : Value) : Outcome (List (Scalar × Outcome Value)) :=
  match schemas with
  | .map m => do return (← Scalar.sortOn (·.1) m).map fun p => (p.1, .ok p.2)
  | v => do return (← v.sortedMembers).map fun name =>
      (name, Outcome.expect do itemAt? (← items? v) (← index? name))

end Model

/-- The models of a document, sorted by name. -/
def ModelSet.ofDocument (document : Value) : Outcome ModelSet := do
  let schemas ← Schema.named document
  let models ← (← Model.namedSchemas schemas).mapM fun (name, schema) => do
    Model.ofSchema document name (← schema)
  return ⟨models⟩

end ApiScribe
