import ApiScribe.Endpoint
import ApiScribe.Path
import ApiScribe.Text.Character

/-! Where generated files import from: the API client, the model types, and each other. A source
that is a path starts with a point and has no file ending. -/
namespace ApiScribe
namespace Import

/-- The package of the API client unless the project names another. -/
def clientPackage : String := "@aptx/api-client"

/-- The import lines of the API client, and the expression that gets it. -/
structure Client where
  lines : List String
  call : String
  deriving Repr, DecidableEq

/-- A text, or a default in place of an absent or empty one. -/
def orElse (text : Option String) (default : String) : String :=
  match text with
  | some t => if t = "" then default else t
  | none => default

/-- Imports of the options type and of the function that gets the client. -/
def clientLines (name types client : String) : List String :=
  ["import type \x7b PerCallOptions \x7d from \"" ++ types ++ "\";",
   "import \x7b " ++ name ++ " \x7d from \"" ++ client ++ "\";"]

/-- The API client that settings choose. -/
def client (settings : Option ClientImport) : Client :=
  let c := settings.getD {}
  let name := orElse c.importName "getApiClient"
  let below (base : String) : List String := clientLines name (base ++ "/types") (base ++ "/client")
  let lines := match c.mode with
    | .global => clientLines name clientPackage clientPackage
    | .localPath => below (orElse c.clientPath "../../api/client")
    | .package => below (orElse c.clientPackage "@my-org/api-client")
  ⟨lines, name ++ "()"⟩

/-- Whether model types come from a package as a whole. -/
def fromPackage (settings : Option ModelImport) : Bool :=
  settings.any fun s => s.importType = .package

/-- A relative path as a source. -/
def source (path : String) : String :=
  if path = "" || path = "." then "./"
  else if path.startsWith "./" || path.startsWith "../" || path = ".." then path
  else "./" ++ path

/-- A directory, with a point for the empty one. -/
def directoryOf (path : String) : String :=
  let d := Path.directory path
  if d = "" then "." else d

/-- The source by which one file imports another. -/
def relative? (importing imported : String) : Option String :=
  (Path.relative? (Path.withoutSuffix imported) (directoryOf importing)).map source

/-- The source of model types unless settings say otherwise. -/
def defaultModels : String := "../../../spec/types"

/-- With slashes only. -/
def withSlashes (path : String) : String := path.map fun c => if c = '\\' then '/' else c

/-- The source of model types in a generated file. A directory of models is named from where the
tool runs; if the output root is known too, the source leads there from the file. -/
def modelBase (settings : Option ModelImport) (outputRoot : Option String) (file : String) :
    String :=
  match settings with
  | none => defaultModels
  | some s =>
    match s.importType with
    | .package => orElse s.packagePath "@my-org/models"
    | .relative =>
      let models := withSlashes (Text.trimmed (s.relativePath.getD ""))
      let root := withSlashes (Text.trimmed (outputRoot.getD ""))
      if models = "" then defaultModels
      else if root = "" then models
      else
        let here := directoryOf (Path.normal (Path.join root file))
        source ((Path.relative? (Path.normal models) here).getD ".")

end Import

/-- The source of model types in a file generated for an API. -/
def Api.modelBase (a : Api) (file : String) : String :=
  Import.modelBase a.modelImport a.outputRoot file

end ApiScribe
