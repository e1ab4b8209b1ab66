import ApiScribe.Config
import ApiScribe.Document
import ApiScribe.Json.Writer
import ApiScribe.Workspace

/-! The settings of a project in its workspace. What a user passes wins over the environment, the
environment over the project file, and the file over the defaults. A stored file holds only what
differs from the defaults. -/
namespace ApiScribe

/-- What a user passes to a run in place of settings. -/
structure Overrides where
  input : Option String := none
  output : Option String := none
  baseUrl : Option String := none
  deriving Repr, DecidableEq, Inhabited

namespace Job

/-- The name of project files. -/
def projectFileName : String := "clientgen.json"

/-- The location of the project file: as stated, or in the current directory. -/
def projectFile (stated : Option Location) : Job Location := do
  match stated with
  | some l => return l
  | none => return (← current).below projectFileName

/-- The stored settings, if there is a file. -/
def loadSettings (stated : Option Location) : Job (Option Config) := do
  let l ← projectFile stated
  if !(← isFile l) then return none
  let v ← ofOutcome (Document.readJson (.invalidConfigJson l.text) (← readText l))
  match Config.check v with
  | .ok c => return some c
  | .bad issues => fail (.invalidConfig l.text issues)

/-- Stores settings, and tells where. -/
def saveSettings (c : Config) (stated : Option Location) : Job Location := do
  let l ← projectFile stated
  replace l (Text.utf8 (Json.stored.write c.overrides ++ "\n"))
  return l

/-- The first choice that is made: by the user, by the environment unless empty, or before. -/
def pick (passed : Option String) (name : String) (stored : Option String) :
    Job (Option String) := do
  match passed with
  | some s => return some s
  | none => match ← environment? name with
    | some s => return if s = "" then stored else some s
    | none => return stored

/-- The settings of a run. -/
def settings (passed : Overrides) (stated : Option Location) : Job Config := do
  let c := (← loadSettings stated).getD {}
  let input ← pick passed.input "CLIENTGEN_INPUT" c.input
  let output ← pick passed.output "CLIENTGEN_OUTPUT" (some c.output)
  let baseUrl ← pick passed.baseUrl "CLIENTGEN_BASE_URL" c.enumFetch.baseUrl
  return { c with
    input
    output := output.getD c.output
    enumFetch := { c.enumFetch with baseUrl } }

/-- Whether data directories follow the desktop convention on a system. -/
def hasDesktopDirectories (system : String) : Bool := system = "Linux" || system.endsWith "BSD"

/-- The home directory; an empty name is that of the root. -/
def home : Job Location := do
  match ← environment? "HOME" with
  | some "" => return Location.ofPath "/"
  | some path => return Location.ofPath path
  | none => return Location.ofPath "/root"

/-- The directory for data of the tool on a system, made if need be. -/
def dataDirectory (system : String) : Job Location := do
  let l ←
    if hasDesktopDirectories system then do
      match ← environment? "XDG_DATA_HOME" with
      | none | some "" => pure ((← home).below ".local/share/clientgen")
      | some root => pure ((Location.ofPath root).below "clientgen")
    else pure ((← home).below ".clientgen")
  makePath l
  return l

end Job
end ApiScribe
