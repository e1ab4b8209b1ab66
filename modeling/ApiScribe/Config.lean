import ApiScribe.Options

/-! Settings of a project: what to read, what to generate and where the generated code finds its
client and its model types. Every field has a default, so a stored project file holds only what
the project chose. -/
namespace ApiScribe

/-- Where generated functions get the API client. -/
structure ClientImport where
  mode : ClientImportMode := .global
  clientPath : Option String := none
  clientPackage : Option String := none
  importName : Option String := none
  deriving Repr, DecidableEq, Inhabited

/-- Where generated files get model types. -/
structure ModelImport where
  importType : ModelImportType := .relative
  packagePath : Option String := none
  relativePath : Option String := none
  deriving Repr, DecidableEq, Inhabited

/-- How enum labels are fetched. -/
structure EnumFetch where
  baseUrl : Option String := none
  output : String := "enum-patch.json"
  maxRetries : Int := 3
  timeoutMs : Int := 10000
  namingStrategy : NamingStrategy := .auto
  deriving Repr, DecidableEq, Inhabited

/-- The settings of a project. -/
structure Config where
  input : Option String := none
  output : String := "generated"
  renderers : List String := ["functions"]
  passes : List String := ["query-classification", "refresh-token-meta"]
  barrelRoots : List String := []
  clientImport : ClientImport := {}
  modelImport : ModelImport := {}
  modelOutput : Option String := none
  modelStyle : ModelStyle := .declarations
  enumPatch : Option String := none
  conflictPolicy : ConflictPolicy := .patchFirst
  formatter : Option (List String) := none
  enumFetch : EnumFetch := {}
  deriving Repr, DecidableEq, Inhabited

open Check

/-- The record form of client import settings. -/
def ClientImport.toValue (c : ClientImport) : Value :=
  .record [("mode", .str c.mode.name), ("client_path", .ofString? c.clientPath),
    ("client_package", .ofString? c.clientPackage), ("import_name", .ofString? c.importName)]

/-- Reads client import settings. -/
def ClientImport.check : Check ClientImport := record fun m =>
  ClientImport.mk <$> fieldOr m "mode" .global ClientImportMode.choices.check
    <*> field? m "client_path" string
    <*> field? m "client_package" string
    <*> field? m "import_name" string

/-- The record form of model import settings. -/
def ModelImport.toValue (c : ModelImport) : Value :=
  .record [("import_type", .str c.importType.name), ("package_path", .ofString? c.packagePath),
    ("relative_path", .ofString? c.relativePath)]

/-- Reads model import settings. -/
def ModelImport.check : Check ModelImport := record fun m =>
  ModelImport.mk <$> fieldOr m "import_type" .relative ModelImportType.choices.check
    <*> field? m "package_path" string
    <*> field? m "relative_path" string

/-- The record form of fetch settings. -/
def EnumFetch.toValue (c : EnumFetch) : Value :=
  .record [("base_url", .ofString? c.baseUrl), ("output", .str c.output),
    ("max_retries", .int c.maxRetries), ("timeout_ms", .int c.timeoutMs),
    ("naming_strategy", .str c.namingStrategy.name)]

/-- Reads fetch settings: no negative number of retries, and a timeout above zero. -/
def EnumFetch.check : Check EnumFetch := record fun m =>
  EnumFetch.mk <$> field? m "base_url" string
    <*> fieldOr m "output" "enum-patch.json" string
    <*> fieldOr m "max_retries" 3 (intAtLeast 0)
    <*> fieldOr m "timeout_ms" 10000 (intAbove 0)
    <*> fieldOr m "naming_strategy" .auto NamingStrategy.choices.check

namespace Config

/-- The record form of the settings. -/
def toValue (c : Config) : Value :=
  .record [("input", .ofString? c.input), ("output", .str c.output),
    ("renderers", .ofStrings c.renderers), ("passes", .ofStrings c.passes),
    ("barrel_roots", .ofStrings c.barrelRoots), ("client_import", c.clientImport.toValue),
    ("model_import", c.modelImport.toValue), ("model_output", .ofString? c.modelOutput),
    ("model_style", .str c.modelStyle.name), ("enum_patch", .ofString? c.enumPatch),
    ("conflict_policy", .str c.conflictPolicy.name),
    ("formatter", (c.formatter.map Value.ofStrings).getD .null),
    ("enum_fetch", c.enumFetch.toValue)]

/-- The names of the fields. -/
def fieldNames : List String :=
  ["input", "output", "renderers", "passes", "barrel_roots", "client_import", "model_import",
   "model_output", "model_style", "enum_patch", "conflict_policy", "formatter", "enum_fetch"]

/-- Reads settings; a field that is not declared is an error here. -/
def check : Check Config := record fun m =>
  (fun c (_ : Unit) => c) <$> (Config.mk <$> field? m "input" string
    <*> fieldOr m "output" "generated" string
    <*> fieldOr m "renderers" ["functions"] (list string)
    <*> fieldOr m "passes" ["query-classification", "refresh-token-meta"] (list string)
    <*> fieldOr m "barrel_roots" [] (list string)
    <*> fieldOr m "client_import" {} ClientImport.check
    <*> fieldOr m "model_import" {} ModelImport.check
    <*> field? m "model_output" string
    <*> fieldOr m "model_style" .declarations ModelStyle.choices.check
    <*> field? m "enum_patch" string
    <*> fieldOr m "conflict_policy" .patchFirst ConflictPolicy.choices.check
    <*> field? m "formatter" (list string)
    <*> fieldOr m "enum_fetch" {} EnumFetch.check) <*> onlyFields fieldNames m

/-- The entries of a record that differ from those of another with the same fields. -/
def differing : List (Scalar × Value) → List (Scalar × Value) → List (Scalar × Value)
  | (k, v) :: m, (_, d) :: n => if v.same d then differing m n else (k, v) :: differing m n
  | m, _ => m

/-- What differs from the defaults, down to the fields of the records inside. -/
def overrides (c : Config) : Value :=
  let fields := (c.toValue.entries?.getD []).zip (({} : Config).toValue.entries?.getD [])
  .map (fields.filterMap fun (p, d) =>
    if p.2.same d.2 then none
    else match p.2, d.2 with
      | .map m, .map n => some (p.1, .map (differing m n))
      | v, _ => some (p.1, v))

end Config
end ApiScribe
