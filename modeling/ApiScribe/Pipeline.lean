import ApiScribe.Barrel
import ApiScribe.Endpoint.Extract
import ApiScribe.Formatter
import ApiScribe.Json.Writer
import ApiScribe.Renderer

/-! Pipelines from a document to planned files: endpoints are extracted, passes change them,
renderers plan files, and the files are laid out and formatted. The first stage that fails ends
the run, and nothing is written before all stages are through. -/
namespace ApiScribe

/-- The settings of a run. Without a target directory a run only reports what it would write. -/
structure Pipeline where
  passes : List Pass := [.normalize]
  renderers : List Renderer := [.noop]
  layout : Layout := .plain
  formatter : Formatter := .none
  clientImport : Option ClientImport := none
  modelImport : Option ModelImport := none
  outputRoot : Option String := none
  target : Option String := none

/-- Files to write, with what a run says about how they came about. -/
structure Draft where
  endpointCount : Nat
  steps : List String
  reports : List RendererReport
  files : List PlannedFile

/-- A planned file and the renderer that planned it first. -/
structure OwnedFile where
  file : PlannedFile
  owner : String

namespace Pipeline

/-- Adds a pass behind the others. -/
def withPass (p : Pipeline) (pass : Pass) : Pipeline := { p with passes := p.passes ++ [pass] }

/-- Adds a renderer; the first one takes the place of the placeholder. -/
def withRenderer (p : Pipeline) (r : Renderer) : Pipeline :=
  match p.renderers with
  | [only] => { p with renderers := if only.isPlaceholder then [r] else [only, r] }
  | rs => { p with renderers := rs ++ [r] }

/-- The names of the renderers. -/
def rendererIds (p : Pipeline) : List String := p.renderers.map Renderer.id

/-- The directory that model imports are computed against: as stated, or the target. -/
def root (p : Pipeline) : Option String :=
  match p.outputRoot with
  | some r => some r
  | none => p.target.map fun t => (Location.ofPath t).text

/-- The endpoints of a document with the settings of the run. -/
def extract (p : Pipeline) (document : Value) : Outcome Api := do
  let a ← Endpoint.ofDocument document
  return { a with
    clientImport := p.clientImport.or a.clientImport
    modelImport := p.modelImport.or a.modelImport
    outputRoot := p.root }

/-- The endpoints after all passes. -/
def transformed (p : Pipeline) (document : Value) : Outcome Api := do
  let a ← p.extract document
  return { a with endpoints := ← Pass.applyAll p.passes a.endpoints }

/-- The endpoints after all passes as text. -/
def snapshot (p : Pipeline) (document : Value) : Outcome String :=
  (fun a => Json.stored.write a.toValue) <$> p.transformed document

/-- Adds a file that a renderer plans. A path can be planned again only with the same content. -/
def addFile (owner : String) (owned : Entries String OwnedFile) (f : PlannedFile) :
    Outcome (Entries String OwnedFile) :=
  match owned.get? f.path with
  | none => .ok (owned ++ [(f.path, ⟨f, owner⟩)])
  | some c =>
    if c.file.content = f.content then .ok owned
    else .fail (.conflictingFiles c.owner owner f.path)

/-- Runs renderers one after the other, adding their files to those planned before. -/
def renderOnto (a : Api) (owned : Entries String OwnedFile) :
    List Renderer → Outcome (List RendererReport × Entries String OwnedFile)
  | [] => .ok ([], owned)
  | r :: rs => do
    let output := r.render a
    let owned ← output.files.foldlM (addFile r.id) owned
    let (reports, owned) ← renderOnto a owned rs
    return (⟨r.id, output.files.length, output.warnings⟩ :: reports, owned)

/-- Runs all renderers: their reports, and their files, each path once. -/
def render (p : Pipeline) (a : Api) : Outcome (List RendererReport × List PlannedFile) := do
  let (reports, owned) ← renderOnto a [] p.renderers
  return (reports, owned.map fun c => c.2.file)

/-- Everything before writing. -/
def draft (p : Pipeline) (document : Value) : Outcome Draft := do
  let a ← p.transformed document
  let (reports, files) ← p.render a
  let files ← p.formatter.formatAll (p.layout.apply files)
  return ⟨a.endpoints.length, p.passes.map Pass.name, reports, files⟩

end Pipeline

/-- The record of a run that wrote its files, except those that were there already. -/
def Draft.plan (d : Draft) (r : WriteResult) : ExecutionPlan :=
  { endpointCount := d.endpointCount
    transformSteps := d.steps
    rendererReports := d.reports
    plannedFiles := r.filesWritten
    skippedFiles := r.skippedFiles
    layoutFiles := d.files.length }

/-- The record of a run that only reports. -/
def Draft.dryPlan (d : Draft) : ExecutionPlan := d.plan ⟨d.files, 0⟩

namespace Pipeline

/-- The passes with names, without the one that every run starts with. -/
def passesNamed (names : List String) : Outcome (List Pass) :=
  (names.filter (· ≠ Pass.normalize.name)).mapM Pass.ofName

/-- Adds renderers by name. Two different ones must not share a slot; `slots` holds the slots taken
so far with the renderer of each. -/
def addRenderers (registry : Registry) (slots : Entries String String) (p : Pipeline) :
    List String → Outcome Pipeline
  | [] => .ok p
  | id :: ids => do
    let r ← registry.create id
    let slots ← match r.slot with
      | none => pure slots
      | some slot => match slots.get? slot with
        | none => pure (slots.put slot r.id)
        | some other =>
          if other = r.id then pure slots else Outcome.fail (.sharedSlot other r.id slot)
    addRenderers registry slots (p.withRenderer r) ids

/-- The pipeline that settings describe. -/
def ofConfig (registry : Registry) (dry : Bool) (c : Config) : Outcome Pipeline := do
  let passes ← passesNamed c.passes
  let p ← addRenderers registry [] { passes := Pass.normalize :: passes } c.renderers
  return { p with
    layout := if c.barrelRoots.isEmpty then .plain else .barrels c.barrelRoots
    formatter := .ofCommand c.formatter
    clientImport := some c.clientImport
    modelImport := some c.modelImport
    outputRoot := some c.output
    target := if dry then none else some c.output }

end Pipeline
end ApiScribe
