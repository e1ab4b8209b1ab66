import ApiScribe.Checked

/-! The options with a fixed set of values, each value with the word that users write. -/
namespace ApiScribe

/-- How an option is called and what its values are called, in the order in which they are
listed. -/
structure Choices (α : Type) where
  label : String
  named : List (String × α)

namespace Choices
variable {α : Type}

/-- The value with a name. -/
def parse (c : Choices α) (name : String) : Outcome α :=
  match c.named.lookup name with
  | some a => .ok a
  | none => .fail (.unknownOption c.label name (c.named.map (·.1)))

/-- A value in a record. -/
def check (c : Choices α) : Check α := Check.oneOf .enumMember c.named

end Choices

/-- Where generated functions import the API client from. -/
inductive ClientImportMode
  | global
  | localPath
  | package
  deriving Repr, DecidableEq, Inhabited

/-- How generated files import model types. -/
inductive ModelImportType
  | package
  | relative
  deriving Repr, DecidableEq, Inhabited

/-- Whether models are ambient declarations or modules. -/
inductive ModelStyle
  | declarations
  | modules
  deriving Repr, DecidableEq, Inhabited

/-- Which source wins when a schema and a patch disagree about an enum member. -/
inductive ConflictPolicy
  | patchFirst
  | schemaFirst
  deriving Repr, DecidableEq, Inhabited

/-- Whether names are proposed for fetched enum members. -/
inductive NamingStrategy
  | auto
  | none
  deriving Repr, DecidableEq, Inhabited

namespace ClientImportMode

def name : ClientImportMode → String
  | global => "global"
  | localPath => "local"
  | package => "package"

def choices : Choices ClientImportMode :=
  ⟨"client import mode", [global, localPath, package].map fun m => (m.name, m)⟩

end ClientImportMode

namespace ModelImportType

def name : ModelImportType → String
  | package => "package"
  | relative => "relative"

def choices : Choices ModelImportType :=
  ⟨"model import type", [package, relative].map fun t => (t.name, t)⟩

end ModelImportType

namespace ModelStyle

def name : ModelStyle → String
  | declarations => "declaration"
  | modules => "module"

def choices : Choices ModelStyle :=
  ⟨"model style", [declarations, modules].map fun s => (s.name, s)⟩

end ModelStyle

namespace ConflictPolicy

def name : ConflictPolicy → String
  | patchFirst => "patch-first"
  | schemaFirst => "schema-first"

def choices : Choices ConflictPolicy :=
  ⟨"conflict policy", [patchFirst, schemaFirst].map fun p => (p.name, p)⟩

end ConflictPolicy

namespace NamingStrategy

def name : NamingStrategy → String
  | auto => "auto"
  | none => "none"

def choices : Choices NamingStrategy :=
  ⟨"naming strategy", [auto, none].map fun s => (s.name, s)⟩

end NamingStrategy
end ApiScribe
