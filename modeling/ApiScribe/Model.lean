import ApiScribe.Checked

/-! Models: the named schemas of a document as interfaces, enums and aliases, sorted by name. -/
namespace ApiScribe

/-- Whether a literal is a text or a number. -/
inductive LiteralKind
  | string
  | number
  deriving Repr, DecidableEq, Inhabited

/-- A literal; a number keeps the text it was written with. -/
structure Literal where
  kind : LiteralKind
  value : String
  deriving Repr, DecidableEq, Inhabited

/-- The types of properties and aliases. -/
inductive ModelType
  | string
  | number
  | boolean
  | object
  | ref (name : String)
  | array (item : ModelType)
  | union (variants : List ModelType)
  | literal (value : Literal)
  deriving Repr, Inhabited

/-- A property of an interface. -/
structure ModelProperty where
  name : String
  description : Option String := none
  required : Bool := false
  nullable : Bool := false
  type : ModelType
  deriving Repr, Inhabited

/-- A member of an enum. -/
structure EnumMember where
  name : String
  value : Literal
  comment : Option String := none
  deriving Repr, DecidableEq, Inhabited

/-- What a model is. -/
inductive ModelKind
  | interface (properties : List ModelProperty)
  | enum (members : List EnumMember)
  | aliased (target : ModelType) (nullable : Bool)
  deriving Repr, Inhabited

/-- A named schema. -/
structure Model where
  name : String
  description : Option String := none
  kind : ModelKind
  deriving Repr, Inhabited

/-- The models of a document. -/
structure ModelSet where
  models : List Model := []
  deriving Repr, Inhabited

/-- The first model with a name. -/
def ModelSet.get? (s : ModelSet) (name : String) : Option Model :=
  s.models.find? (·.name = name)

/-- Whether a model is an enum. -/
def Model.isEnum (m : Model) : Bool :=
  match m.kind with
  | .enum _ => true
  | _ => false

open Check Checked

def LiteralKind.name : LiteralKind → String
  | string => "string"
  | number => "number"

/-- The record form of a literal. -/
def Literal.toValue (l : Literal) : Value :=
  .record [("kind", .str l.kind.name), ("value", .str l.value)]

/-- Reads a literal. -/
def Literal.check : Check Literal := record fun m =>
  Literal.mk <$> field m "kind"
      (oneOf .literal ([LiteralKind.string, .number].map fun k => (k.name, k)))
    <*> field m "value" Check.string

mutual

/-- The record form of a type. -/
def ModelType.toValue : ModelType → Value
  | .string => .record [("kind", .str "string")]
  | .number => .record [("kind", .str "number")]
  | .boolean => .record [("kind", .str "boolean")]
  | .object => .record [("kind", .str "object")]
  | .ref name => .record [("kind", .str "ref"), ("name", .str name)]
  | .array item => .record [("kind", .str "array"), ("item", item.toValue)]
  | .union variants => .record [("kind", .str "union"), ("variants", .list (typesValue variants))]
  | .literal l => .record [("kind", .str "literal"), ("value", l.toValue)]

/-- Type by type. -/
def typesValue : List ModelType → List Value
  | [] => []
  | t :: ts => t.toValue :: typesValue ts

end

/-- The variant of a tagged record: the map with the value of its tag. -/
def tagged {α : Type} (tag : String) (k : String → List (Scalar × Value) → Option (Checked α)) :
    Check α
  | .map m =>
    match Entries.get? m (.str tag) with
    | none => reject .tagMissing
    | some (.str name) => match k name m with
      | some c => under (.field name) c
      | none => reject .tagInvalid
    | some _ => reject .tagInvalid
  | _ => reject .modelAttributesType

mutual

/-- Reads a type, `fuel` levels deep at most. -/
def ModelType.checkWithin (fuel : Nat) : Check ModelType :=
  match fuel with
  | 0 => fun _ => reject .modelType
  | fuel + 1 => tagged "kind" fun name m => ModelType.variant? fuel name m

/-- Reads the variant of a type that its tag names. -/
def ModelType.variant? (fuel : Nat) (name : String) (m : List (Scalar × Value)) :
    Option (Checked ModelType) :=
  match name with
  | "string" => some (ok .string)
  | "number" => some (ok .number)
  | "boolean" => some (ok .boolean)
  | "object" => some (ok .object)
  | "ref" => some (ModelType.ref <$> field m "name" Check.string)
  | "array" => some (ModelType.array <$> field m "item" (ModelType.checkWithin fuel))
  | "union" => some (ModelType.union <$> field m "variants" (list (ModelType.checkWithin fuel)))
  | "literal" => some (ModelType.literal <$> field m "value" Literal.check)
  | _ => none

end

/-- Reads a type. -/
def ModelType.check : Check ModelType := fun v => ModelType.checkWithin v.depth v

/-- A record whose tag may be left out and must not be any other. -/
def withTag {α : Type} (tag name : String)
    (variant : List (Scalar × Value) → Option (Checked α)) : Check α := record fun m =>
  (fun (_ : Unit) a => a) <$> fieldOr m tag () (oneOf .literal [(name, ())])
    <*> (variant m).getD (reject .tagInvalid)

/-- Reads a type that is known to be the variant with a name. -/
def ModelType.checkAs (name : String) : Check ModelType := fun v =>
  withTag "kind" name (ModelType.variant? v.depth name) v

/-- The record form of a property. -/
def ModelProperty.toValue (p : ModelProperty) : Value :=
  .record [("name", .str p.name), ("description", .ofString? p.description),
    ("required", .bool p.required), ("nullable", .bool p.nullable), ("type", p.type.toValue)]

/-- Reads a property. -/
def ModelProperty.check : Check ModelProperty := record fun m =>
  ModelProperty.mk <$> field m "name" Check.string <*> field? m "description" Check.string
    <*> fieldOr m "required" false bool <*> fieldOr m "nullable" false bool
    <*> field m "type" ModelType.check

/-- The record form of an enum member. -/
def EnumMember.toValue (e : EnumMember) : Value :=
  .record [("name", .str e.name), ("value", e.value.toValue), ("comment", .ofString? e.comment)]

/-- Reads an enum member. -/
def EnumMember.check : Check EnumMember := record fun m =>
  EnumMember.mk <$> field m "name" Check.string <*> field m "value" Literal.check
    <*> field? m "comment" Check.string

/-- The record form of what a model is. -/
def ModelKind.toValue : ModelKind → Value
  | interface ps =>
    .record [("type", .str "interface"), ("properties", .list (ps.map ModelProperty.toValue))]
  | enum es => .record [("type", .str "enum"), ("members", .list (es.map EnumMember.toValue))]
  | aliased t nullable =>
    .record [("type", .str "alias"), ("target", t.toValue), ("nullable", .bool nullable)]

/-- The fields of an interface. -/
def checkInterface (m : List (Scalar × Value)) : Checked ModelKind :=
  ModelKind.interface <$> fieldOr m "properties" [] (list ModelProperty.check)

/-- The fields of an enum. -/
def checkEnum (m : List (Scalar × Value)) : Checked ModelKind :=
  ModelKind.enum <$> fieldOr m "members" [] (list EnumMember.check)

/-- The fields of an alias. -/
def checkAlias (m : List (Scalar × Value)) : Checked ModelKind :=
  ModelKind.aliased <$> field m "target" ModelType.check <*> fieldOr m "nullable" false bool

/-- Reads the variant of a model that its tag names. -/
def ModelKind.variant? (name : String) (m : List (Scalar × Value)) : Option (Checked ModelKind) :=
  match name with
  | "interface" => some (checkInterface m)
  | "enum" => some (checkEnum m)
  | "alias" => some (checkAlias m)
  | _ => none

/-- Reads what a model is. -/
def ModelKind.check : Check ModelKind := tagged "type" ModelKind.variant?

/-- Reads a model that is known to be the variant with a name. -/
def ModelKind.checkAs (name : String) : Check ModelKind :=
  withTag "type" name (ModelKind.variant? name)

/-- The record form of a model. -/
def Model.toValue (m : Model) : Value :=
  .record [("name", .str m.name), ("description", .ofString? m.description),
    ("kind", m.kind.toValue)]

/-- Reads a model. -/
def Model.check : Check Model := record fun m =>
  Model.mk <$> field m "name" Check.string <*> field? m "description" Check.string
    <*> field m "kind" ModelKind.check

/-- The record form of the models of a document. -/
def ModelSet.toValue (s : ModelSet) : Value :=
  .record [("models", .list (s.models.map Model.toValue))]

/-- Reads the models of a document. -/
def ModelSet.check : Check ModelSet := record fun m =>
  ModelSet.mk <$> fieldOr m "models" [] (list Model.check)

end ApiScribe
