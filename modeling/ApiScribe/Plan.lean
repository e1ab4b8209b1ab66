import ApiScribe.Checked

/-! Planned files, and the records of what became of them. -/
namespace ApiScribe

/-- A file that should exist, with its path below the output root. -/
structure PlannedFile where
  path : String
  content : String
  deriving Repr, DecidableEq, Inhabited

/-- What a renderer returns. -/
structure RenderOutput where
  files : List PlannedFile := []
  warnings : List String := []
  deriving Repr, DecidableEq, Inhabited

/-- What a writer did: the files it wrote, and how many were there already. -/
structure WriteResult where
  filesWritten : List PlannedFile := []
  skippedFiles : Int := 0
  deriving Repr, DecidableEq, Inhabited

/-- What a run says about one renderer. -/
structure RendererReport where
  rendererId : String
  plannedFiles : Int
  warnings : List String := []
  deriving Repr, DecidableEq, Inhabited

/-- The durations of the phases of a run in milliseconds. -/
structure Metrics where
  parse : Float := 0
  transform : Float := 0
  render : Float := 0
  layout : Float := 0
  format : Float := 0
  write : Float := 0
  total : Float := 0
  deriving Repr, Inhabited

/-- The record of a run. -/
structure ExecutionPlan where
  endpointCount : Int
  transformSteps : List String := []
  rendererReports : List RendererReport := []
  plannedFiles : List PlannedFile := []
  skippedFiles : Int := 0
  layoutFiles : Int := 0
  metrics : Metrics := {}
  deriving Repr, Inhabited

open Check

/-- The record form of a planned file. -/
def PlannedFile.toValue (f : PlannedFile) : Value :=
  .record [("path", .str f.path), ("content", .str f.content)]

/-- Reads a planned file. -/
def PlannedFile.check : Check PlannedFile := record fun m =>
  PlannedFile.mk <$> field m "path" string <*> field m "content" string

/-- The record form of planned files. -/
def filesValue (fs : List PlannedFile) : Value := .list (fs.map PlannedFile.toValue)

/-- The record form of a renderer's output. -/
def RenderOutput.toValue (o : RenderOutput) : Value :=
  .record [("files", filesValue o.files), ("warnings", .ofStrings o.warnings)]

/-- Reads a renderer's output. -/
def RenderOutput.check : Check RenderOutput := record fun m =>
  RenderOutput.mk <$> fieldOr m "files" [] (list PlannedFile.check)
    <*> fieldOr m "warnings" [] (list string)

/-- The record form of a writer's result. -/
def WriteResult.toValue (r : WriteResult) : Value :=
  .record [("files_written", filesValue r.filesWritten), ("skipped_files", .int r.skippedFiles)]

/-- Reads a writer's result. -/
def WriteResult.check : Check WriteResult := record fun m =>
  WriteResult.mk <$> fieldOr m "files_written" [] (list PlannedFile.check)
    <*> fieldOr m "skipped_files" 0 int

/-- The record form of a renderer's report. -/
def RendererReport.toValue (r : RendererReport) : Value :=
  .record [("renderer_id", .str r.rendererId), ("planned_files", .int r.plannedFiles),
    ("warnings", .ofStrings r.warnings)]

/-- Reads a renderer's report. -/
def RendererReport.check : Check RendererReport := record fun m =>
  RendererReport.mk <$> field m "renderer_id" string <*> field m "planned_files" int
    <*> fieldOr m "warnings" [] (list string)

/-- The record form of durations. -/
def Metrics.toValue (t : Metrics) : Value :=
  .record [("parse_ms", .float t.parse), ("transform_ms", .float t.transform),
    ("render_ms", .float t.render), ("layout_ms", .float t.layout),
    ("format_ms", .float t.format), ("write_ms", .float t.write), ("total_ms", .float t.total)]

/-- Reads durations. -/
def Metrics.check : Check Metrics := record fun m =>
  Metrics.mk <$> fieldOr m "parse_ms" 0 float <*> fieldOr m "transform_ms" 0 float
    <*> fieldOr m "render_ms" 0 float <*> fieldOr m "layout_ms" 0 float
    <*> fieldOr m "format_ms" 0 float <*> fieldOr m "write_ms" 0 float
    <*> fieldOr m "total_ms" 0 float

/-- The fields of the record of a run, without its durations. -/
def ExecutionPlan.fields (p : ExecutionPlan) : List (String × Value) :=
  [("endpoint_count", .int p.endpointCount), ("transform_steps", .ofStrings p.transformSteps),
    ("renderer_reports", .list (p.rendererReports.map RendererReport.toValue)),
    ("planned_files", filesValue p.plannedFiles), ("skipped_files", .int p.skippedFiles),
    ("layout_files", .int p.layoutFiles)]

/-- The record form of a run, with its durations at the end. -/
def ExecutionPlan.toValue (p : ExecutionPlan) : Value :=
  .record (p.fields ++ [("metrics", p.metrics.toValue)])

/-- Reads the record of a run. -/
def ExecutionPlan.check : Check ExecutionPlan := record fun m =>
  ExecutionPlan.mk <$> field m "endpoint_count" int
    <*> fieldOr m "transform_steps" [] (list string)
    <*> fieldOr m "renderer_reports" [] (list RendererReport.check)
    <*> fieldOr m "planned_files" [] (list PlannedFile.check)
    <*> fieldOr m "skipped_files" 0 int <*> fieldOr m "layout_files" 0 int
    <*> fieldOr m "metrics" {} Metrics.check

end ApiScribe
