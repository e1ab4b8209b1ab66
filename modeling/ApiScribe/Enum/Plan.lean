import ApiScribe.Enum.Source
import ApiScribe.Model
import ApiScribe.Naming
import ApiScribe.Text.Character

/-! Plans of enums: a listing of all enums with the names of their members, made anew on every
run. A name that someone chose by hand is kept: one that generating would not have produced. -/
namespace ApiScribe

/-- A member of a planned enum. -/
structure PlannedMember where
  name : String
  value : String
  comment : Option String := none
  deriving Repr, DecidableEq, Inhabited

/-- A planned enum. -/
structure PlannedEnum where
  enumName : String
  description : Option String := none
  source : String := "openapi"
  members : List PlannedMember := []
  deriving Repr, DecidableEq, Inhabited

/-- A plan of enums with the version of its form. -/
structure EnumPlan where
  schemaVersion : String := "1"
  enums : List PlannedEnum := []
  deriving Repr, DecidableEq, Inhabited

open Check

/-- The record form of a member. -/
def PlannedMember.toValue (p : PlannedMember) : Value :=
  .record [("name", .str p.name), ("value", .str p.value), ("comment", .ofString? p.comment)]

/-- Reads a member. -/
def PlannedMember.check : Check PlannedMember := record fun m =>
  PlannedMember.mk <$> field m "name" string <*> field m "value" string
    <*> field? m "comment" string

/-- The record form of a planned enum. -/
def PlannedEnum.toValue (p : PlannedEnum) : Value :=
  .record [("enum_name", .str p.enumName), ("description", .ofString? p.description),
    ("source", .str p.source), ("members", .list (p.members.map PlannedMember.toValue))]

/-- Reads a planned enum. -/
def PlannedEnum.check : Check PlannedEnum := record fun m =>
  PlannedEnum.mk <$> field m "enum_name" string <*> field? m "description" string
    <*> fieldOr m "source" "openapi" string <*> fieldOr m "members" [] (list PlannedMember.check)

/-- The record form of a plan. -/
def EnumPlan.toValue (p : EnumPlan) : Value :=
  .record [("schema_version", .str p.schemaVersion),
    ("enums", .list (p.enums.map PlannedEnum.toValue))]

/-- Reads a plan. -/
def EnumPlan.check : Check EnumPlan := record fun m =>
  EnumPlan.mk <$> fieldOr m "schema_version" "1" string
    <*> fieldOr m "enums" [] (list PlannedEnum.check)

namespace EnumPlan

/-- The name that generating derives from a value, or from a position if there is nothing to use in
the value. -/
def defaultName (value : String) (position : Int) : String :=
  match Naming.pascalChars value.toList with
  | [] => "Value" ++ toString position
  | c :: cs => if c.isDigit then "Value" ++ String.ofList (c :: cs) else String.ofList (c :: cs)

/-- Whether a name is `Value` with a number, in digits of any script; one line feed may follow. -/
def isNumbered (name : String) : Bool :=
  match Text.after? "Value".toList (TypeText.chomp name.toList) with
  | some digits => !digits.isEmpty && digits.all Text.isDecimal
  | none => false

/-- Whether generating would have produced a name for a value, counting positions from zero. -/
def isGenerated (name value : String) (index : Int) : Bool :=
  isNumbered name || name = "Value" ++ toString (index + 1) || name = defaultName value (index + 1)

/-- The planned member of an enum member, given what a source file says of its value. -/
def memberOf (previous : Entries String SourceMember) (index : Nat) (m : EnumMember) :
    PlannedMember :=
  match previous.get? m.value.value with
  | none => ⟨m.name, m.value.value, m.comment⟩
  | some old =>
    { name := if isGenerated old.name m.value.value index then m.name else old.name
      value := m.value.value
      comment := m.comment.or old.comment }

/-- The planned enum of a model, if it is an enum. -/
def enumOf (existing : SourceEnums) (m : Model) : Option PlannedEnum :=
  match m.kind with
  | .enum ms =>
    let previous := (existing.get? m.name).getD []
    some { enumName := m.name, description := m.description,
           members := ms.mapIdx (memberOf previous) }
  | _ => none

/-- The plan of all enums, with the names that existing source files hold. -/
def ofModels (existing : SourceEnums) (s : ModelSet) : EnumPlan :=
  { enums := s.models.filterMap (enumOf existing) }

end EnumPlan
end ApiScribe
