import ApiScribe.Command.Line
import ApiScribe.Location

/-! The commands of the tool, and how command lines name them. Commands stand in groups; settings
for all commands come before the group. -/
namespace ApiScribe

/-- Settings for all commands. -/
structure CommonSettings where
  config : Option Location := none
  json : Bool := false
  quiet : Bool := false
  verbose : Bool := false
  deriving Repr, DecidableEq, Inhabited

/-- What to generate from the endpoints of a document, and how. -/
structure GenerateOptions where
  input : Option String := none
  output : Option String := none
  renderers : List String := []
  barrels : List String := []
  passes : List String := []
  clientMode : Option String := none
  clientPath : Option String := none
  clientPackage : Option String := none
  clientName : Option String := none
  modelImport : Option String := none
  modelPath : Option String := none
  formatter : Option String := none
  dryRun : Bool := false
  report : Bool := false
  deriving Repr, DecidableEq, Inhabited

/-- What to generate from the schemas of a document, and how. -/
structure ModelOptions where
  input : Option String := none
  output : Option String := none
  style : Option String := none
  names : List String := []
  enumPatch : Option String := none
  conflictPolicy : Option String := none
  formatter : Option String := none
  dryRun : Bool := false
  deriving Repr, DecidableEq, Inhabited

/-- How to fetch enum listings. -/
structure FetchOptions where
  input : Option String := none
  baseUrl : Option String := none
  output : Option String := none
  maxRetries : Option Int := none
  timeoutMs : Option Int := none
  namingStrategy : Option String := none
  deriving Repr, DecidableEq, Inhabited

/-- What to put into a new project file. -/
structure InitOptions where
  input : Option String := none
  output : Option String := none
  renderers : List String := []
  force : Bool := false
  deriving Repr, DecidableEq, Inhabited

/-- The commands. -/
inductive Command
  | generate (o : GenerateOptions)
  | endpoints (input : Option String) (passes : List String)
  | renderers
  | models (o : ModelOptions)
  | modelSet (input enumPatch conflictPolicy : Option String)
  | enumPlan (input : Option String) (directory out : Option Location)
  | barrels (roots : List Location) (dryRun : Bool)
  | fetchEnums (o : FetchOptions)
  | showSettings
  | initSettings (o : InitOptions)
  deriving Repr, Inhabited

/-- What a command line asks for. -/
inductive Invocation
  /-- Help, because it is asked for or because there is nothing else. -/
  | help (asked : Bool)
  | version
  /-- A line that makes no sense. -/
  | misuse
  | command (common : CommonSettings) (c : Command)
  deriving Repr, Inhabited

namespace Command
open CommandLine

/-- An option that takes a value. -/
def valued (key : String) (names : List String) : OptionRule := ⟨key, names, none⟩

/-- An option that stands for itself. -/
def flag (key : String) (names : List String) : OptionRule := ⟨key, names, some ""⟩

/-- The option that asks for help. -/
def helpRule : OptionRule := flag "help" ["--help"]

/-- The option for the document. -/
def inputRule : OptionRule := valued "input" ["--input", "-i"]

/-- The option for the output. -/
def outputRule : OptionRule := valued "output" ["--output", "-o"]

/-- The option for a run that changes nothing. -/
def dryRunRule : OptionRule := flag "dry-run" ["--dry-run", "-n"]

/-- The option for renderers. -/
def rendererRule : OptionRule := valued "renderer" ["--renderer", "-r"]

/-- The option for passes. -/
def passRule : OptionRule := valued "pass" ["--pass"]

/-- The option for the formatter. -/
def formatterRule : OptionRule := valued "formatter" ["--formatter"]

/-- The options for enum patches. -/
def patchRules : List OptionRule :=
  [valued "enum-patch" ["--enum-patch"], valued "conflict-policy" ["--conflict-policy"]]

/-- How a command is called: its options, and the command that a line makes. A line that makes
none makes no sense. -/
structure Form where
  rules : List OptionRule
  build : CommandLine → Option Command

/-- Options only. -/
def wordless (f : CommandLine → Option Command) : CommandLine → Option Command := fun l =>
  if l.words.isEmpty then f l else none

/-- Generating from endpoints. -/
def generateForm : Form where
  rules := [inputRule, outputRule, rendererRule, valued "barrel" ["--barrel"], passRule,
    valued "client-mode" ["--client-mode"], valued "client-path" ["--client-path"],
    valued "client-package" ["--client-package"],
    valued "client-import-name" ["--client-import-name"],
    valued "model-import" ["--model-import"], valued "model-path" ["--model-path"],
    formatterRule, flag "discover" ["--discover"], dryRunRule, flag "report" ["--report"]]
  build := wordless fun l => some <| .generate {
    input := l.last? "input", output := l.last? "output", renderers := l.all "renderer"
    barrels := l.all "barrel", passes := l.all "pass", clientMode := l.last? "client-mode"
    clientPath := l.last? "client-path", clientPackage := l.last? "client-package"
    clientName := l.last? "client-import-name", modelImport := l.last? "model-import"
    modelPath := l.last? "model-path", formatter := l.last? "formatter"
    dryRun := l.has "dry-run", report := l.has "report" }

/-- Showing endpoints. -/
def endpointsForm : Form where
  rules := [inputRule, passRule]
  build := wordless fun l => some (.endpoints (l.last? "input") (l.all "pass"))

/-- Listing renderers. -/
def renderersForm : Form where
  rules := [flag "discover" ["--discover", "--no-discover"]]
  build := wordless fun _ => some .renderers

/-- Generating from schemas. -/
def modelsForm : Form where
  rules := [inputRule, outputRule, valued "style" ["--style"], valued "name" ["--name"]]
    ++ patchRules ++ [formatterRule, dryRunRule]
  build := wordless fun l => some <| .models {
    input := l.last? "input", output := l.last? "output", style := l.last? "style"
    names := l.all "name", enumPatch := l.last? "enum-patch"
    conflictPolicy := l.last? "conflict-policy", formatter := l.last? "formatter"
    dryRun := l.has "dry-run" }

/-- Showing models. -/
def modelSetForm : Form where
  rules := inputRule :: patchRules
  build := wordless fun l =>
    some (.modelSet (l.last? "input") (l.last? "enum-patch") (l.last? "conflict-policy"))

/-- Planning enums. -/
def enumPlanForm : Form where
  rules := [inputRule, valued "model-dir" ["--model-dir"], valued "out" ["--out"]]
  build := wordless fun l => some (.enumPlan (l.last? "input")
    ((l.last? "model-dir").map Location.ofPath) ((l.last? "out").map Location.ofPath))

/-- Making barrels. -/
def barrelsForm : Form where
  rules := [dryRunRule]
  build l :=
    if l.words.isEmpty then none
    else some (.barrels (l.words.map Location.ofPath) (l.has "dry-run"))

/-- Fetching enum listings. -/
def fetchForm : Form where
  rules := [inputRule, valued "base-url" ["--base-url"], outputRule,
    valued "max-retries" ["--max-retries"], valued "timeout-ms" ["--timeout-ms"],
    valued "naming-strategy" ["--naming-strategy"]]
  build := wordless fun l => do
    some <| .fetchEnums {
      input := l.last? "input", baseUrl := l.last? "base-url", output := l.last? "output"
      maxRetries := ← l.integerAtLeast? "max-retries" 0
      timeoutMs := ← l.integerAtLeast? "timeout-ms" 1
      namingStrategy := l.last? "naming-strategy" }

/-- Showing settings. -/
def showForm : Form where
  rules := []
  build := wordless fun _ => some .showSettings

/-- Starting a project file. -/
def initForm : Form where
  rules := [inputRule, outputRule, rendererRule, flag "force" ["--force", "-f"]]
  build := wordless fun l => some <| .initSettings {
    input := l.last? "input", output := l.last? "output", renderers := l.all "renderer"
    force := l.has "force" }

/-- The commands by group and name. -/
def groups : List (String × List (String × Form)) :=
  [("codegen", [("run", generateForm), ("ir", endpointsForm), ("renderers", renderersForm)]),
   ("model", [("gen", modelsForm), ("ir", modelSetForm), ("enum-plan", enumPlanForm)]),
   ("barrel", [("gen", barrelsForm)]),
   ("enum-patch", [("export", fetchForm)]),
   ("config", [("show", showForm), ("init", initForm)])]

/-- The options in front of the group. -/
def commonRules : List OptionRule :=
  [flag "version" ["--version"], valued "config" ["--config", "-c"], flag "json" ["--json"],
   flag "plain" ["--plain"], flag "no-color" ["--no-color"], flag "quiet" ["--quiet", "-q"],
   flag "verbose" ["--verbose", "-v"], helpRule]

/-- The settings for all commands that a line makes. -/
def common (l : CommandLine) : CommonSettings where
  config := (l.last? "config").map Location.ofPath
  json := l.has "json"
  quiet := l.has "quiet"
  verbose := l.has "verbose"

/-- What a line asks for by itself, whatever else it says: the first wish for help or the
version. -/
def wish? (l : CommandLine) : Option Invocation :=
  l.settings.findSome? fun s =>
    if s.1 = "help" then some (.help true)
    else if s.1 = "version" then some .version
    else none

/-- Reads the words of a command. -/
def readForm (settings : CommonSettings) (f : Form) (words : List String) : Invocation :=
  match CommandLine.read (f.rules ++ [helpRule]) true words with
  | none => .misuse
  | some l => (wish? l).getD <| match f.build l with
    | some c => .command settings c
    | none => .misuse

/-- Reads words with nothing but options in front, up to the name of what follows. -/
def readNamed (rules : List OptionRule) (words : List String)
    (follow : CommandLine → String → List String → Invocation) : Invocation :=
  if words.isEmpty then .help false
  else match CommandLine.read rules false words with
    | none => .misuse
    | some l => (wish? l).getD <| match l.words with
      | [] => .misuse
      | name :: rest => follow l name rest

/-- Reads the words of a group. -/
def readGroup (settings : CommonSettings) (forms : List (String × Form)) (words : List String) :
    Invocation :=
  readNamed [helpRule] words fun _ name rest =>
    match forms.lookup name with
    | some f => readForm settings f rest
    | none => .misuse

end Command

/-- What the words of a command line ask for. -/
def Invocation.ofWords (words : List String) : Invocation :=
  Command.readNamed Command.commonRules words fun l name rest =>
    match Command.groups.lookup name with
    | some forms => Command.readGroup (Command.common l) forms rest
    | none => .misuse

end ApiScribe
