import ApiScribe.Enum.Patch
import ApiScribe.Schema
import ApiScribe.Value.Order

/-! Listings of enums: some backends list the values of an enum with a label each, at a path that
names the enum. A listing becomes a patch, with names made of the labels. -/
namespace ApiScribe

/-- A path that lists the values of an enum. -/
structure EnumListing where
  enumName : String
  path : String
  deriving Repr, DecidableEq

namespace EnumListing

/-- What stands in front of the name of an enum in a path. -/
def marker : List Char := "/Enums/GetAll".toList

/-- The enum that a path names, if it names one. -/
def enumName? (path : String) : Option String := do
  let (_, rest) ← Text.cut? marker path.toList
  let name := Text.trim (rest.takeWhile (· ≠ '/'))
  if name.isEmpty then none else some (String.ofList name)

/-- Whether a name is that of a schema. -/
def isSchemaName (schemas : Value) (name : String) : Outcome Bool :=
  match schemas with
  | .map m => .ok (Value.hasField m name)
  | .list xs => .ok (xs.any (·.isString name))
  | .set members => .ok (members.contains (.str name))
  | .str s => .ok (Text.cut? name.toList s.toList).isSome
  | _ => .unexpected

/-- The listings among paths whose enum is a named schema. -/
def among (schemas : Value) : List Scalar → Outcome (List EnumListing)
  | [] => .ok []
  | p :: ps => do
    let path ← Outcome.expect p.str?
    match enumName? path with
    | none => among schemas ps
    | some name =>
      if ← isSchemaName schemas name then
        return ⟨name, path⟩ :: (← among schemas ps)
      else among schemas ps

/-- The listings of a document, sorted by path. -/
def ofDocument (document : Value) : Outcome (List EnumListing) := do
  let root ← Outcome.expect document.entries?
  let paths := Value.field root "paths"
  let schemas ← Schema.named document
  among schemas (← (if paths.isSet then paths else .map []).sortedMembers)

/-- The name made of a label, or of the value if the label has nothing to use. -/
def baseName (enumName value label : String) : String :=
  let ofLabel := Naming.identifierOf (Text.trimmed label)
  if ofLabel ≠ "" then ofLabel
  else
    let ofValue := Naming.identifierOf value
    enumName ++ (if ofValue = "" then "Value" else ofValue)

/-- The comment made of a label, unless it is blank. -/
def commentOf (label : String) : Option String :=
  let text := Text.trimmed label
  if text = "" then none else some text

/-- The names for values and labels, each different from those before; none if names are not
asked for. -/
def names (enumName : String) (strategy : NamingStrategy) (values : List (String × String)) :
    List (Option String) :=
  match strategy with
  | .none => values.map fun _ => none
  | .auto =>
    (Naming.uniqueNames [] (values.map fun p => baseName enumName p.1 p.2)).1.map some

/-- What a patch says of listed values. -/
def patchMembers (enumName : String) (strategy : NamingStrategy)
    (values : List (String × String)) : List PatchMember :=
  values.zipWith (fun p name => ⟨p.1, name, commentOf p.2⟩) (names enumName strategy values)

/-- The patch made of a listing. -/
def patch (enumName : String) (strategy : NamingStrategy) (values : List (String × String)) :
    EnumPatch :=
  { enumName, members := patchMembers enumName strategy values, source := some "materal-api",
    confidence := some 0.7 }

end EnumListing
end ApiScribe
