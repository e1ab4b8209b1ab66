import ApiScribe.Model
import ApiScribe.Naming
import ApiScribe.Options
import ApiScribe.TypeText

/-! Patches of enums: names and comments that someone chose for the values of an enum. A patch is
matched to the members of the enum by the text of their values; it never adds a member. -/
namespace ApiScribe

/-- What a patch says of one value. -/
structure PatchMember where
  value : String
  suggestedName : Option String := none
  comment : Option String := none
  deriving Repr, DecidableEq, Inhabited

/-- What is known of one enum. -/
structure EnumPatch where
  enumName : String
  members : List PatchMember := []
  source : Option String := none
  confidence : Option Float := none
  deriving Repr, Inhabited

/-- Patches with the version of their form. -/
structure PatchDocument where
  schemaVersion : String := "1"
  patches : List EnumPatch := []
  deriving Repr, Inhabited

open Check

/-- The record form of a member. -/
def PatchMember.toValue (p : PatchMember) : Value :=
  .record [("value", .str p.value), ("suggested_name", .ofString? p.suggestedName),
    ("comment", .ofString? p.comment)]

/-- Reads a member. -/
def PatchMember.check : Check PatchMember := record fun m =>
  PatchMember.mk <$> field m "value" string <*> field? m "suggested_name" string
    <*> field? m "comment" string

/-- The record form of a patch. -/
def EnumPatch.toValue (p : EnumPatch) : Value :=
  .record [("enum_name", .str p.enumName), ("members", .list (p.members.map PatchMember.toValue)),
    ("source", .ofString? p.source), ("confidence", (p.confidence.map Value.float).getD .null)]

/-- Reads a patch. -/
def EnumPatch.check : Check EnumPatch := record fun m =>
  EnumPatch.mk <$> field m "enum_name" string <*> fieldOr m "members" [] (list PatchMember.check)
    <*> field? m "source" string <*> field? m "confidence" float

/-- The record form of a patch document. -/
def PatchDocument.toValue (d : PatchDocument) : Value :=
  .record [("schema_version", .str d.schemaVersion),
    ("patches", .list (d.patches.map EnumPatch.toValue))]

/-- Reads a patch document. -/
def PatchDocument.check : Check PatchDocument := record fun m =>
  PatchDocument.mk <$> fieldOr m "schema_version" "1" string
    <*> fieldOr m "patches" [] (list EnumPatch.check)

namespace EnumPatch

/-- A suggested name as an identifier; empty if nothing of it can be used. -/
def identifier (suggested : Option String) : String :=
  let text := Text.trimmed (suggested.getD "")
  if text = "" || TypeText.isIdentifier text then text else Naming.identifierOf text

/-- The first entry for a value. -/
def entry? (entries : List PatchMember) (value : String) : Option PatchMember :=
  entries.find? (·.value = value)

/-- A member with what an entry says of it. With the patch first its name and comment count unless
they are empty; with the schema first only a comment, and only where there is none. -/
def merge (policy : ConflictPolicy) (p : PatchMember) (m : EnumMember) : EnumMember :=
  let name := identifier p.suggestedName
  let comment := Text.trimmed (p.comment.getD "")
  match policy with
  | .patchFirst =>
    { m with
      name := if name = "" then m.name else name
      comment := if comment = "" then m.comment else some comment }
  | .schemaFirst =>
    if comment ≠ "" && m.comment.getD "" = "" then { m with comment := some comment } else m

/-- A member with what the entries say of its value. -/
def mergeInto (policy : ConflictPolicy) (entries : List PatchMember) (m : EnumMember) :
    EnumMember :=
  match entry? entries m.value.value with
  | some p => merge policy p m
  | none => m

/-- Members with names that differ from those before. -/
def withUniqueNames (ms : List EnumMember) : List EnumMember :=
  ms.zipWith (fun m name => { m with name }) (Naming.uniqueNames [] (ms.map EnumMember.name)).1

/-- The members of an enum after a patch. -/
def applyToMembers (policy : ConflictPolicy) (entries : List PatchMember)
    (ms : List EnumMember) : List EnumMember :=
  withUniqueNames (ms.map (mergeInto policy entries))

/-- Changes the first model with a name. -/
def changeFirst (name : String) (f : Model → Model) : List Model → List Model
  | [] => []
  | m :: ms => if m.name = name then f m :: ms else m :: changeFirst name f ms

/-- The models after a patch, and a warning if there is no such enum. -/
def apply (policy : ConflictPolicy) (p : EnumPatch) (s : ModelSet) : ModelSet × List String :=
  match s.get? p.enumName with
  | none => (s, ["Enum patch for '" ++ p.enumName ++ "' skipped: no such schema"])
  | some m => match m.kind with
    | .enum _ =>
      let change (m : Model) : Model := match m.kind with
        | .enum ms => { m with kind := .enum (applyToMembers policy p.members ms) }
        | _ => m
      (⟨changeFirst p.enumName change s.models⟩, [])
    | _ => (s, ["Enum patch for '" ++ p.enumName ++ "' skipped: schema is not an enum"])

/-- The models after patches, one on top of the other, and all warnings. -/
def applyAll (policy : ConflictPolicy) : List EnumPatch → ModelSet → ModelSet × List String
  | [], s => (s, [])
  | p :: ps, s =>
    let (s, here) := p.apply policy s
    let (s, later) := applyAll policy ps s
    (s, here ++ later)

end EnumPatch
end ApiScribe
