import ApiScribe.Command
import ApiScribe.Enum.Plan
import ApiScribe.Fault.Report
import ApiScribe.Model.Extract
import ApiScribe.Model.Text
import ApiScribe.Workspace.Barrels
import ApiScribe.Workspace.Enums
import ApiScribe.Workspace.Settings
import ApiScribe.Workspace.Write

/-! Running commands. Whatever a command finds goes to the results, and whatever it tells the user
goes to the notes; how a run ends is decided by what failed, if anything. -/
namespace ApiScribe
namespace Job

/-- The document that settings name. -/
def inputDocument (c : Config) : Job Value := do
  match c.input with
  | none | some "" => fail .noInput
  | some name => Job.document (.ofName name)

/-- The choice of a user, or what the settings say. -/
def chosen {α : Type} (choices : Choices α) (choice : Option String) (stored : α) : Outcome α :=
  match choice with
  | some name => choices.parse name
  | none => .ok stored

/-- A list that a user gives, or what the settings say. -/
def given (passed stored : List String) : List String := if passed.isEmpty then stored else passed

/-- The client import with what a user passes. -/
def clientImport (o : GenerateOptions) (c : ClientImport) : Outcome ClientImport := do
  return {
    mode := ← chosen ClientImportMode.choices o.clientMode c.mode
    clientPath := o.clientPath.or c.clientPath
    clientPackage := o.clientPackage.or c.clientPackage
    importName := o.clientName.or c.importName }

/-- The model import with what a user passes; a path counts for the kind of import in force. -/
def modelImport (o : GenerateOptions) (c : ModelImport) : Outcome ModelImport := do
  let importType ← chosen ModelImportType.choices o.modelImport c.importType
  return match importType with
    | .package => { c with importType, packagePath := o.modelPath.or c.packagePath }
    | .relative => { c with importType, relativePath := o.modelPath.or c.relativePath }

/-- The formatter that a user passes, or that of the settings. -/
def formatterCommand (line : Option String) (c : Config) : Outcome (Option (List String)) :=
  match line with
  | some line => some <$> Formatter.splitCommand line
  | none => .ok c.formatter

/-- The settings with what a user passes. -/
def generateSettings (o : GenerateOptions) (c : Config) : Outcome Config := do
  let formatter ← formatterCommand o.formatter c
  let clientImport ← clientImport o c.clientImport
  let modelImport ← modelImport o c.modelImport
  return { c with
    renderers := given o.renderers c.renderers
    barrelRoots := given o.barrels c.barrelRoots
    passes := given o.passes c.passes
    formatter, clientImport, modelImport }

/-- Passes on the warnings of a renderer. -/
def noteWarnings (r : RendererReport) : Job Unit :=
  r.warnings.forM fun w => note .warning ("[" ++ r.rendererId ++ "] " ++ w)

/-- Generates from the endpoints of a document. -/
def generate (common : CommonSettings) (o : GenerateOptions) : Job Unit := do
  let c ← settings { input := o.input, output := o.output } common.config
  let c ← ofOutcome (generateSettings o c)
  let document ← inputDocument c
  let p ← ofOutcome (Pipeline.ofConfig .builtin o.dryRun c)
  let plan ← p.plan document
  plan.rendererReports.forM noteWarnings
  if o.report then print (.json (Json.stored.write plan.toValue))
  else if o.dryRun then print (.paths (plan.plannedFiles.map PlannedFile.path))
  if o.dryRun then
    note .info ("Dry run: " ++ toString plan.layoutFiles ++ " files planned for "
      ++ toString plan.endpointCount ++ " endpoints")
  else
    note .success ("Generated " ++ toString plan.plannedFiles.length ++ " files in " ++ c.output
      ++ " (" ++ toString plan.skippedFiles ++ " unchanged, " ++ toString plan.endpointCount
      ++ " endpoints)")

/-- Shows the endpoints of a document after all passes. -/
def showEndpoints (common : CommonSettings) (input : Option String) (passes : List String) :
    Job Unit := do
  let c ← settings { input } common.config
  let c := { c with passes := given passes c.passes, renderers := [] }
  let document ← inputDocument c
  let p ← ofOutcome (Pipeline.ofConfig .builtin true c)
  print (.json (← ofOutcome (p.snapshot document)))

/-- Lists the renderers. -/
def listRenderers : Job Unit :=
  print (.table ["Renderer", "Source"] (Registry.builtin.ids.map fun id => [id, "built-in"]))

/-- The path of the patches to apply, if there is any: the user's, or that of the settings. -/
def patchPath? (passed stored : Option String) : Option String :=
  (passed.filter (· ≠ "")).or (stored.filter (· ≠ ""))

/-- The models of a document after patches. -/
def patchedModels (c : Config) (enumPatch conflictPolicy : Option String) : Job ModelSet := do
  let s ← ofOutcome (ModelSet.ofDocument (← inputDocument c))
  match patchPath? enumPatch c.enumPatch with
  | none => return s
  | some path =>
    let policy ← ofOutcome (chosen ConflictPolicy.choices conflictPolicy c.conflictPolicy)
    let patches ← readPatches path
    let (s, warnings) := EnumPatch.applyAll policy patches s
    warnings.forM (note .warning)
    return s

/-- The output directory of models: the first that is named. -/
def modelTarget (output : Option String) (c : Config) : String :=
  ((output.filter (· ≠ "")).or (c.modelOutput.filter (· ≠ ""))).getD c.output

/-- Generates from the schemas of a document. -/
def generateModels (common : CommonSettings) (o : ModelOptions) : Job Unit := do
  let c ← settings { input := o.input } common.config
  let style ← ofOutcome (chosen ModelStyle.choices o.style c.modelStyle)
  let target := modelTarget o.output c
  let s ← patchedModels c o.enumPatch o.conflictPolicy
  let files := s.files style o.names
  let formatter ← ofOutcome (formatterCommand o.formatter c)
  let files ← ofOutcome ((Formatter.ofCommand formatter).formatAll files)
  if o.dryRun then
    print (.paths (files.map PlannedFile.path))
    note .info ("Dry run: " ++ toString files.length ++ " model files planned")
  else
    let r ← writeFiles (Location.ofPath target) files
    note .success ("Generated " ++ toString r.filesWritten.length ++ " model files in " ++ target
      ++ " (" ++ toString r.skippedFiles ++ " unchanged)")

/-- Shows the models of a document. -/
def showModels (common : CommonSettings) (input enumPatch conflictPolicy : Option String) :
    Job Unit := do
  let c ← settings { input } common.config
  let s ← patchedModels c enumPatch conflictPolicy
  print (.json (Json.stored.write s.toValue))

/-- Plans the enums of a document. -/
def planEnums (common : CommonSettings) (input : Option String) (directory out : Option Location) :
    Job Unit := do
  let c ← settings { input } common.config
  let s ← ofOutcome (ModelSet.ofDocument (← inputDocument c))
  let existing ← match directory with
    | some d => sourceEnums d
    | none => pure []
  let plan := EnumPlan.ofModels existing s
  let text := Json.stored.write plan.toValue
  match out with
  | none => print (.json text)
  | some out =>
    replace out (Text.utf8 (text ++ "\n"))
    note .success ("Wrote enum plan for " ++ toString plan.enums.length ++ " enums to " ++ out.text)

/-- Makes barrels for directories one after the other. -/
def makeBarrels (dryRun : Bool) : List Location → Job Unit
  | [] => pure ()
  | root :: roots => do
    if !(← isDirectory root) then fail (.notADirectory root.text)
    let files ← planBarrels root
    if dryRun then
      print (.paths (files.map fun f => (root.below f.path).text))
      note .info ("Dry run: " ++ toString files.length ++ " barrels planned under " ++ root.text)
    else
      let r ← writeFiles root files
      note .success (root.text ++ ": " ++ toString r.filesWritten.length ++ " barrels written, "
        ++ toString r.skippedFiles ++ " unchanged")
    makeBarrels dryRun roots

/-- The fetch settings with what a user passes. -/
def fetchSettings (o : FetchOptions) (f : EnumFetch) : Outcome EnumFetch := do
  let namingStrategy ← chosen NamingStrategy.choices o.namingStrategy f.namingStrategy
  return { f with
    output := o.output.getD f.output
    maxRetries := o.maxRetries.getD f.maxRetries
    timeoutMs := o.timeoutMs.getD f.timeoutMs
    namingStrategy }

/-- Fetches enum listings into a patch file. -/
def fetchEnums (common : CommonSettings) (o : FetchOptions) : Job Unit := do
  let c ← settings { input := o.input, baseUrl := o.baseUrl } common.config
  let options ← ofOutcome (fetchSettings o c.enumFetch)
  let d ← exportPatches (← inputDocument c) options
  note .success ("Wrote " ++ toString d.patches.length ++ " enum patches to " ++ options.output)

/-- Shows the settings in force. -/
def showSettings (common : CommonSettings) : Job Unit := do
  let l ← projectFile common.config
  let found ← isFile l
  note .info ("Config file: " ++ l.text ++ (if found then "" else " (not found, using defaults)"))
  let c ← settings {} common.config
  print (.json (Json.stored.write c.toValue))

/-- Starts a project file. -/
def startProject (common : CommonSettings) (o : InitOptions) : Job Unit := do
  let l ← projectFile common.config
  if (← exists? l) && !o.force then fail (.settingsExist l.text)
  let c : Config := {}
  let c := { c with
    input := o.input
    output := o.output.getD c.output
    renderers := given o.renderers c.renderers }
  let l ← saveSettings c common.config
  note .success ("Wrote " ++ l.text)

/-- Stores a log of a failure that no rule covers, and tells where. -/
def storeLog : Job Location := do
  let logs := (← dataDirectory "Linux").below "logs"
  makePath logs
  let file := logs.below ("crash-" ++ (← get).time ++ ".log")
  replace file (Text.utf8 "Unexpected error\n")
  return file

/-- Tells what failed; the exit code of the run. -/
def settle (e : Failure) : Job Int := do
  match e with
  | .fault f =>
    note .error f.report.message
    return f.report.exitCode
  | .invalid _ | .unexpected =>
    note .error ("Unexpected error. Debug log: " ++ (← storeLog).text)
    return 1

end Job

namespace Command

/-- Runs a command. -/
def run (common : CommonSettings) : Command → Job Unit
  | .generate o => Job.generate common o
  | .endpoints input passes => Job.showEndpoints common input passes
  | .renderers => Job.listRenderers
  | .models o => Job.generateModels common o
  | .modelSet input enumPatch conflictPolicy => Job.showModels common input enumPatch conflictPolicy
  | .enumPlan input directory out => Job.planEnums common input directory out
  | .barrels roots dryRun => Job.makeBarrels dryRun roots
  | .fetchEnums o => Job.fetchEnums common o
  | .showSettings => Job.showSettings common
  | .initSettings o => Job.startProject common o

/-- Runs a command to its exit code, and to what failed if anything. -/
def finish (common : CommonSettings) (c : Command) : StateM Workspace (Int × Option Failure) := do
  match ← (run common c).run with
  | .ok () => return (0, none)
  | .error e => match ← (Job.settle e).run with
    | .ok code => return (code, some e)
    | .error _ => return (1, some e)

end Command

/-- How a run ends: its exit code, what it writes to the two streams, and what failed. -/
structure Response where
  code : Int := 0
  out : String := ""
  err : String := ""
  failure : Option Failure := none

namespace Response

/-- The name and version of the tool. -/
def versionText : String := "clientgen 0.1.0\n"

/-- How the tool is called. -/
def usageText : String :=
  "Usage: clientgen [OPTIONS] GROUP COMMAND [ARGS]...\n" ++ String.join (Command.groups.map fun g =>
    "  " ++ g.1 ++ ": " ++ ", ".intercalate (g.2.map (·.1)) ++ "\n")

/-- What a workspace came to say, on a console. -/
def ofWorkspace (console : Console) (code : Int) (failure : Option Failure) (w : Workspace) :
    Response where
  code := code
  out := String.join (w.printouts.map console.printed)
  err := String.join (w.notes.map console.shown)
  failure := failure

end Response

/-- Does what a command line asks for. -/
def Invocation.run (i : Invocation) (w : Workspace) : Response × Workspace :=
  match i with
  | .help asked => ({ code := if asked then 0 else 2, out := Response.usageText }, w)
  | .version => ({ out := Response.versionText }, w)
  | .misuse => ({ code := 2, err := Response.usageText }, w)
  | .command common c =>
    let ((code, failure), w) := (Command.finish common c).run w
    let console : Console := ⟨common.json, common.quiet, common.verbose⟩
    (.ofWorkspace console code failure w, w)

end ApiScribe
