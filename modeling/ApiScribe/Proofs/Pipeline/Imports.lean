import ApiScribe.Proofs.Path
import ApiScribe.Proofs.Pipeline.Areas
import ApiScribe.Proofs.Render.ServiceFiles
import ApiScribe.Proofs.Text.Lines
import ApiScribe.Proofs.Text.Standing

/-! Imports of request builders. Call functions and hooks import the builder of their endpoint by a
source that leads to a file of the same run, and what this file exports is the builder. Model types
are imported by a source that leads to the directory of the models, wherever the tool runs. -/
namespace ApiScribe
namespace Pass

open Endpoint

/-- Once endpoints have passed normalizing they have operation names. -/
theorem operationName_of_applyAll {ps : List Pass} {es fs : List Endpoint} (hp : normalize ∈ ps)
    (hs : ∀ e ∈ es, e.scope ≠ []) (h : applyAll ps es = .ok fs) :
    ∀ f ∈ fs, f.operationName ≠ "" := by
  induction ps generalizing es with
  | nil => cases hp
  | cons p ps ih =>
    have hperm := identity_apply_perm hs p
    rw [applyAll] at h
    split at h
    · next ds hds =>
      rw [hds] at hperm
      have hscope := scope_ne_nil_of_identity_perm hperm hs
      rcases List.mem_cons.1 hp with rfl | hp
      · intro f hf
        obtain ⟨d, hd, hi⟩ := List.mem_map.1
          ((identity_applyAll_perm hscope h).mem_iff.1 (List.mem_map_of_mem hf))
        have hname : d.operationName = f.operationName := congrArg Identity.operationName hi
        exact hname ▸ operationName_of_normalizeEach hds d hd
      · exact ih hp hscope h
    · exact absurd h Outcome.fail_ne_ok

end Pass

namespace Path

open Location

/-- A text with some character that is no point is a name, if it has no slash. -/
theorem isDown_singleton {s : String} {c : Char} (hc : c ∈ s.toList) (hdot : c ≠ '.')
    (hslash : '/' ∉ s.toList) : IsDown [s] := by
  have hne : ∀ t : String, c ∉ t.toList → s ≠ t := by
    rintro t ht rfl
    exact ht hc
  have hstep : isStep s = true := by
    simp [isStep, hne "" (by simp), hne "." (by simpa using hdot)]
  have hup : s ≠ ".." := hne ".." (by simpa using hdot)
  exact ⟨List.forall_mem_singleton.2 ⟨hstep, hslash⟩, by simpa using hup.symm⟩

end Path

namespace Endpoint

open Naming Path

/-- Segments in `get-order-list` style are steps that go down. -/
theorem HasKebabScope.isDown {e : Endpoint} (h : e.HasKebabScope) : IsDown e.scope := by
  have hsegment : ∀ s ∈ e.scope, IsDown [s] := by
    intro s hs
    have hkebab := h.2 s hs
    obtain ⟨c, hc⟩ := List.exists_mem_of_ne_nil _ hkebab.ne_nil
    have hdot : '.' ∉ s.toList := not_mem_of_isKebabFrom (by decide) (by decide) hkebab
    exact isDown_singleton hc (ne_of_mem_of_not_mem hc hdot)
      (not_mem_of_isKebabFrom (by decide) (by decide) hkebab)
  exact ⟨fun s hs => (hsegment s hs).plain s (List.mem_singleton_self s),
    fun hmem => (hsegment ".." hmem).up (List.mem_singleton_self _)⟩

/-- A text that files can be named after: it holds a letter or digit, and no slash. -/
structure IsFileName (s : String) : Prop where
  word : ∃ c ∈ s.toList, isWordChar c = true
  slash : '/' ∉ s.toList

theorem IsFileName.isDown {s ending : String} (h : IsFileName s) (hending : '/' ∉ ending.toList) :
    IsDown [s ++ ending] := by
  obtain ⟨c, hc, hword⟩ := h.word
  refine isDown_singleton (c := c) (by simp [hc]) ?_ ?_
  · rintro rfl
    exact absurd hword (by decide)
  · rw [String.toList_append, List.mem_append, not_or]
    exact ⟨h.slash, hending⟩

variable {es : List Endpoint} {e : Endpoint}

theorem isFileName_operationName (h : e.IsNamed) (hop : e.operationName ≠ "") :
    IsFileName e.operationName := by
  obtain ⟨c, hc⟩ := List.exists_mem_of_ne_nil e.operationName.toList (by simpa using hop)
  exact ⟨⟨c, hc, h.operation c hc⟩, slash_not_mem_of_isWordText h.operation⟩

theorem isFileName_exportName (h : e.IsNamed) : IsFileName e.exportName := by
  obtain ⟨hslash, hcount⟩ := h.outgrows
  have hpos : 0 < e.exportName.toList.countP isWordChar := by omega
  obtain ⟨c, hc, hword⟩ := List.countP_pos_iff.1 hpos
  exact ⟨⟨c, hc, hword⟩, hslash⟩

/-- The files of an endpoint are named after its export or operation, or after that of another one
at its place. -/
theorem isFileName_stemOr (h : ∀ e ∈ es, e.IsNamed) (hop : ∀ e ∈ es, e.operationName ≠ "")
    (he : e ∈ es) : IsFileName (e.stemOr (stem es e)) := by
  obtain ⟨f, hf, hname | hname⟩ := exists_stemOr es he
  · rw [hname]
    exact isFileName_operationName (h f hf) (hop f hf)
  · rw [hname]
    exact isFileName_exportName (h f hf)

/-- The path of an endpoint's file in steps. -/
theorem filePath_eq {tops : List String} (htops : tops ≠ []) (hscope : e.scope ≠ [])
    (s ending : String) : e.filePath ("/".intercalate tops) s ending =
      "/".intercalate (tops ++ e.scope ++ [e.stemOr s]) ++ ending := by
  rw [String.intercalate_append_of_ne_nil (by simp [htops]) (by simp),
    String.intercalate_append_of_ne_nil htops hscope, String.intercalate_singleton, filePath]

theorem intercalate_concat (ss : List String) (s ending : String) :
    "/".intercalate (ss ++ [s]) ++ ending = "/".intercalate (ss ++ [s ++ ending]) := by
  cases ss with
  | nil => simp
  | cons t ss =>
    rw [String.intercalate_append_of_ne_nil (by simp) (by simp),
      String.intercalate_append_of_ne_nil (by simp) (by simp), String.intercalate_singleton,
      String.intercalate_singleton, String.append_assoc]

end Endpoint
namespace Render

open Endpoint Path

/-- Whether a line exports something. -/
def isExport (line : String) : Bool := Text.startsWith "export ".toList line.toList

/-- The name of the function that a line exports, if it exports a function. -/
def exportedName? (line : String) : Option String :=
  (Text.after? "export function ".toList line.toList).map fun cs =>
    String.ofList (cs.takeWhile (· ≠ '('))

/-- What lines export. -/
def exportsOf (lines : List String) : List (Option String) :=
  (lines.filter isExport).map exportedName?

/-- The paths of the files that may call the builder of an endpoint. -/
def callerPaths (a : Api) (e : Endpoint) : List String :=
  functionPath e (stem a.endpoints e) :: [reactHooks, vueHooks].flatMap fun library =>
    [HookKind.query, .mutation].map fun kind => hookPath library kind e (stem a.endpoints e)

/-- A call function or a hook of an endpoint, with a line that imports the builder of the endpoint
from a source. -/
structure ImportsBuilder (a : Api) (e : Endpoint) (f : PlannedFile) (source : String) : Prop where
  path : f.path ∈ callerPaths a e
  line : ∃ before after, f.content = fileText (before ++ importOf e.builderName source :: after)

variable {a : Api} {e : Endpoint}

theorem isExport_eq_false {line : String} (h : line.toList.head? ≠ some 'e') :
    isExport line = false := by
  rw [isExport, ← Bool.not_eq_true, Text.startsWith_iff]
  rintro ⟨rest, hrest⟩
  exact h (by rw [← hrest]; rfl)

theorem exportedName?_eq {name : String} (h : '(' ∉ name.toList) (rest : String) :
    exportedName? ("export function " ++ name ++ "(" ++ rest) = some name := by
  have hafter : Text.after? "export function ".toList
      ("export function " ++ name ++ "(" ++ rest).toList =
        some (name.toList ++ '(' :: rest.toList) := by
    rw [Text.after?_eq_some_iff]
    simp
  rw [exportedName?, hafter, Option.map_some, Text.takeWhile_ne_append_cons h, String.ofList_toList]

/-- Among lines that do not start like it, a line is the only one that exports. -/
theorem exportsOf_append_cons {front back : List String} {line : String}
    (h : ∀ l ∈ front ++ back, l.toList.head? ≠ some 'e') (hline : isExport line = true) :
    exportsOf (front ++ line :: back) = [exportedName? line] := by
  have hnone : ∀ ls ⊆ front ++ back, ls.filter isExport = [] := fun ls hls =>
    List.filter_eq_nil_iff.2 fun l hl => by simp [isExport_eq_false (h l (hls hl))]
  rw [exportsOf, List.filter_append, List.filter_cons_of_pos hline,
    hnone front (List.subset_append_left _ _), hnone back (List.subset_append_right _ _)]
  rfl

/-- A builder exports the function that it is named after, and nothing else. -/
theorem exportsOf_builderLines (h : e.IsNamed) (modelBase : String) (package : Bool) :
    exportsOf (builderLines e modelBase package) = [some e.builderName] := by
  have hname : '(' ∉ e.builderName.toList := by
    have hword : Naming.IsWordText e.builderName.toList := by
      rw [h.builder, String.toList_append, String.toList_append]
      exact .append (.append (by decide) (isWordText_pascal _)) (by decide)
    exact fun hmem => absurd (hword _ hmem) (by decide)
  let line := "export function " ++ e.builderName ++ "(" ++ signature e ++ ") \x7b"
  have hline : isExport line = true := by
    rw [isExport, Text.startsWith_iff]
    exact ⟨("function " ++ e.builderName ++ "(" ++ signature e ++ ") \x7b").toList, by simp [line]⟩
  have hfield : ∀ name value, ∀ l ∈ fieldLine name value, l.toList.head? ≠ some 'e' := by
    intro name value l hl
    obtain ⟨v, -, -, rfl⟩ := mem_fieldLine.1 hl
    simp
  have himport : ∀ types, ∀ l ∈ TypeText.importLines types modelBase package,
      l.toList.head? ≠ some 'e' := by
    intro types l hl
    obtain ⟨name, -, rfl⟩ := List.mem_map.1 hl
    show ("import type \x7b " ++ name ++ " \x7d from \"" ++ _ ++ "\";").toList.head? ≠ some 'e'
    simp
  let types := if e.hasInput then [e.inputType] else []
  let imports := TypeText.importLines types modelBase package
  have hlines : builderLines e modelBase package =
      (imports ++ if imports.isEmpty then [] else [""]) ++ line :: (["  return \x7b",
        "    method: \"" ++ e.method ++ "\",", "    path: " ++ e.url false ++ ","]
        ++ fieldLine "query" (e.query? false)
        ++ fieldLine "body" (if e.hasInput then e.body? false else none) ++ ["  \x7d;", "\x7d"]) := by
    rw [builderLines]
    simp only [line, imports, types, List.append_assoc, List.cons_append, List.nil_append]
  have hexported : exportedName? line = some e.builderName := by
    rw [show line = _ from String.append_assoc, exportedName?_eq hname]
  rw [hlines, exportsOf_append_cons ?_ hline, hexported]
  simp only [List.forall_mem_append]
  refine ⟨⟨himport types, ?_⟩, ⟨⟨?_, hfield _ _⟩, hfield _ _⟩, ?_⟩
  · split <;> simp
  · simp
  · simp

/-- From any directory of the run the source of a builder leads to the builder. -/
theorem builderSource_leads {s ending : String} {tops : List String} (hscope : e.HasKebabScope)
    (hname : IsFileName (e.stemOr s)) (htops : IsDown tops) (hne : tops ≠ [])
    (hending : '/' ∉ ending.toList) :
    let path := e.filePath ("/".intercalate tops) s ending
    normal (join (directory path) (builderSource path (builderPath e s))) ++ ".ts" =
      builderPath e s := by
  have hspec : builderPath e s =
      "/".intercalate (["spec", "endpoints"] ++ e.scope ++ [e.stemOr s]) ++ ".ts" := by
    have htop : ("spec/endpoints" : String) = "/".intercalate ["spec", "endpoints"] := by decide
    rw [builderPath, htop, filePath_eq (by simp) hscope.1]
  have hdown : ∀ {tops : List String} {ending : String}, IsDown tops → '/' ∉ ending.toList →
      IsDown (tops ++ e.scope ++ [e.stemOr s ++ ending]) := fun htops hending =>
    isDown_append.2 ⟨isDown_append.2 ⟨htops, hscope.isDown⟩, hname.isDown hending⟩
  have hspecs : IsDown ["spec", "endpoints"] := by decide
  obtain ⟨c, hc, hword⟩ := hname.word
  have hdot : ∃ c ∈ (e.stemOr s).toList, c ≠ '.' :=
    ⟨c, hc, by rintro rfl; exact absurd hword (by decide)⟩
  have hstem : IsDown (["spec", "endpoints"] ++ e.scope ++ [e.stemOr s]) := by
    have hempty : '/' ∉ ("" : String).toList := by simp
    have h := hdown hspecs hempty
    rwa [String.append_empty] at h
  obtain ⟨source, hsource, hleads⟩ := Import.relative?_leads (hdown htops hending)
    (by simp [hne]) hstem hdot
  dsimp only
  rw [filePath_eq hne hscope.1, intercalate_concat, builderSource, hspec, hsource, Option.getD_some,
    hleads]

theorem importOf_mem_functionLines (e : Endpoint) (client : Import.Client)
    (builder modelBase : String) (package : Bool) :
    importOf e.builderName builder ∈ functionLines e client builder modelBase package := by
  simp [functionLines]

theorem importOf_mem_hookLines (library : HookLibrary) (kind : HookKind) (e : Endpoint)
    (client : Import.Client) (builder modelBase : String) (package : Bool) :
    importOf e.builderName builder ∈ hookLines library kind e client builder modelBase package := by
  cases kind <;> simp [hookLines, queryLines, mutationLines, hookImports]

/-- No builder is at the path of a call function or a hook. -/
theorem not_mem_builders_of_path {f : PlannedFile} (h : f.path ∈ callerPaths a e) :
    f ∉ builders a := by
  intro hf
  have hspec := areaOf_of_mem_builders hf
  have hother : ∀ library ∈ [reactHooks, vueHooks], library.directory ≠ "spec" := by decide
  rcases List.mem_cons.1 h with h | h
  · rw [h, areaOf_functionPath] at hspec
    exact absurd hspec (by decide)
  · obtain ⟨library, hlibrary, h⟩ := List.mem_flatMap.1 h
    obtain ⟨kind, -, h⟩ := List.mem_map.1 h
    rw [← h, areaOf_hookPath hlibrary] at hspec
    exact hother library hlibrary hspec

/-- Some line of a text stands between the others. -/
theorem exists_fileText_of_mem {line : String} {lines : List String} (h : line ∈ lines) :
    ∃ before after, fileText lines = fileText (before ++ line :: after) := by
  obtain ⟨before, after, rfl⟩ := List.append_of_mem h
  exact ⟨before, after, rfl⟩

/-- The files of one endpoint that one renderer plans. -/
def AreFilesOf (a : Api) (e : Endpoint) (files : List PlannedFile) : Prop :=
  files = functionFiles a e ∨ ∃ library ∈ [reactHooks, vueHooks], files = hookFiles library a e

/-- With every file of an endpoint its builder is planned, and a file that is not the builder imports
it. -/
theorem AreFilesOf.cases {files : List PlannedFile} (h : AreFilesOf a e files) {f : PlannedFile}
    (hf : f ∈ files) : let s := stem a.endpoints e
    builderFile a e (builderPath e s) ∈ files ∧ (f = builderFile a e (builderPath e s) ∨
      ImportsBuilder a e f (builderSource f.path (builderPath e s)) ∧
      ∃ tops ending, IsDown tops ∧ tops ≠ [] ∧ '/' ∉ ending.toList ∧
        f.path = e.filePath ("/".intercalate tops) s ending) := by
  rcases h with rfl | ⟨library, hlibrary, rfl⟩
  · refine ⟨List.mem_cons_self, ?_⟩
    rcases List.mem_pair.1 hf with rfl | rfl
    · exact .inl rfl
    · have htop : ("functions/api" : String) = "/".intercalate ["functions", "api"] := by decide
      refine .inr ⟨⟨List.mem_cons_self, exists_fileText_of_mem (importOf_mem_functionLines ..)⟩,
        ["functions", "api"], ".ts", by decide, by decide, by decide, htop ▸ rfl⟩
  · obtain ⟨hbuilder, rfl | ⟨kind, rfl⟩⟩ := hookFiles_cases hf
    · exact ⟨hbuilder, .inl rfl⟩
    · have hdown : ∀ library ∈ [reactHooks, vueHooks], IsDown [library.directory] := by decide
      have hpath : hookPath library kind e (stem a.endpoints e) ∈ callerPaths a e := by
        refine List.mem_cons_of_mem _ (List.mem_flatMap.2 ⟨library, hlibrary, ?_⟩)
        cases kind <;> simp
      have hending : '/' ∉ kind.ending.toList := by cases kind <;> decide
      refine ⟨hbuilder, .inr ⟨⟨hpath, exists_fileText_of_mem (importOf_mem_hookLines ..)⟩,
        [library.directory], kind.ending, hdown library hlibrary, by simp, hending, ?_⟩⟩
      rw [String.intercalate_singleton]
      rfl

end Render

namespace Pipeline

open Endpoint Render

/-- With normalizing among the passes all operations of a document have names. -/
theorem operationName_transformed {p : Pipeline} (hp : Pass.normalize ∈ p.passes)
    {document : Value} {a : Api} (h : p.transformed document = .ok a) :
    ∀ e ∈ a.endpoints, e.operationName ≠ "" := by
  obtain ⟨c, es, hc, hes, rfl⟩ := transformed_eq_ok.1 h
  obtain ⟨ds, hds, hx⟩ := exists_extracted hc
  have hscope : ∀ e ∈ c.endpoints, e.scope ≠ [] := fun e he =>
    (isNamed_nameAll hx e (hds ▸ he)).scope.1
  exact Pass.operationName_of_applyAll hp hscope hes

/-- Every call function and every hook of a run imports the builder of its endpoint by a source that
leads, from the directory of the file, to a file of the same run, and this file exports the builder
and nothing else. -/
theorem builder_imports_closed (p : Pipeline) {document : Value} {a : Api}
    {reports : List RendererReport} {files : List PlannedFile} (hp : Pass.normalize ∈ p.passes)
    (h : p.transformed document = .ok a)
    (hrenderers : ∀ r ∈ p.renderers,
      r = .noop ∨ ∃ id ∈ endpointRenderers, Registry.builtin.create id = .ok r)
    (hrender : p.render a = .ok (reports, files)) :
    ∀ f ∈ files, ∀ d ∈ a.endpoints, f.path ∈ callerPaths a d →
      ∃ e ∈ a.endpoints, ∃ source, ImportsBuilder a e f source ∧
      ∃ g ∈ files, Path.normal (Path.join (Path.directory f.path) source) ++ ".ts" = g.path ∧
        g = builderFile a e g.path ∧
        exportsOf (builderLines e (a.modelBase g.path) (Import.fromPackage a.modelImport)) =
          [some e.builderName] := by
  have hnamed := isNamed_transformed h
  have hoperation := operationName_transformed hp h
  intro f hf d hd hcaller
  obtain ⟨r, hr, hfr⟩ := (mem_render_iff hrender).1 hf
  obtain ⟨planned, hplanned, hfiles⟩ : ∃ planned, (∀ e, AreFilesOf a e (planned e)) ∧
      (r.render a).files = a.endpoints.flatMap planned := by
    rcases hrenderers r hr with rfl | ⟨id, hid, hcreate⟩
    · cases hfr
    rcases files_of_endpointRenderer hid hcreate a with hfiles | ⟨library, hlibrary, hfiles⟩
    · exact ⟨_, fun _ => .inl rfl, hfiles⟩
    · exact ⟨_, fun _ => .inr ⟨library, hlibrary, rfl⟩, hfiles⟩
  rw [hfiles] at hfr
  obtain ⟨e, he, hfe⟩ := List.mem_flatMap.1 hfr
  obtain ⟨hbuilder, rfl | ⟨himports, tops, ending, htops, hne, hending, hpath⟩⟩ :=
    (hplanned e).cases hfe
  · exact absurd (List.mem_map.2 ⟨e, he, rfl⟩) (not_mem_builders_of_path hcaller)
  · have hmem := (mem_render_iff hrender).2
      ⟨r, hr, hfiles ▸ List.mem_flatMap.2 ⟨e, he, hbuilder⟩⟩
    refine ⟨e, he, _, himports, _, hmem, ?_, rfl, exportsOf_builderLines (hnamed e he) _ _⟩
    rw [hpath]
    exact builderSource_leads (hasKebabScope_transformed h he)
      (isFileName_stemOr hnamed hoperation he) htops hne hending

theorem exists_render_sharedPipeline : ∃ reports files,
    sharedPipeline.render sharedApi = .ok (reports, files) ∧ files.map (·.path) =
      ["spec/endpoints/pets/index.ts", "react-query/pets/index.query.ts",
        "spec/endpoints/pets/add.ts", "react-query/pets/add.mutation.ts",
        "functions/api/pets/index.ts", "functions/api/pets/add.ts"] := by
  have hpaths : (sharedPipeline.render sharedApi).map (·.2.map (·.path)) = .ok
      ["spec/endpoints/pets/index.ts", "react-query/pets/index.query.ts",
        "spec/endpoints/pets/add.ts", "react-query/pets/add.mutation.ts",
        "functions/api/pets/index.ts", "functions/api/pets/add.ts"] := by
    decide +kernel
  cases hrender : sharedPipeline.render sharedApi with
  | error e =>
    rw [hrender] at hpaths
    cases hpaths
  | ok result =>
    rw [hrender] at hpaths
    exact ⟨result.1, result.2, rfl, Except.ok.inj hpaths⟩

/-- The call function of `index` and its hook import the one builder that both renderers plan. -/
theorem builder_imports_sharedPipeline : sharedPipeline.transformed indexDocument = .ok sharedApi ∧
    ∃ reports files, sharedPipeline.render sharedApi = .ok (reports, files) ∧
      ∀ path ∈ ["functions/api/pets/index.ts", "react-query/pets/index.query.ts"],
        path ∈ callerPaths sharedApi indexEndpoint ∧ ∃ f ∈ files, f.path = path ∧
          ∃ e ∈ sharedApi.endpoints, ∃ source, ImportsBuilder sharedApi e f source ∧ ∃ g ∈ files,
            Path.normal (Path.join (Path.directory f.path) source) ++ ".ts" = g.path := by
  have hrenderers : ∀ r ∈ sharedPipeline.renderers,
      r = .noop ∨ ∃ id ∈ endpointRenderers, Registry.builtin.create id = .ok r := by
    intro r hr
    simp only [sharedPipeline, List.mem_cons, List.not_mem_nil, or_false] at hr
    rcases hr with rfl | rfl | rfl
    · exact .inr ⟨"react-query", by decide, rfl⟩
    · exact .inr ⟨"functions", by decide, rfl⟩
    · exact .inr ⟨"react-query", by decide, rfl⟩
  obtain ⟨reports, files, hrender, hplanned⟩ := exists_render_sharedPipeline
  have hclosed := builder_imports_closed sharedPipeline List.mem_cons_self
    transformed_sharedPipeline hrenderers hrender
  have hcallers : ∀ path ∈ ["functions/api/pets/index.ts", "react-query/pets/index.query.ts"],
      path ∈ callerPaths sharedApi indexEndpoint ∧ path ∈ files.map (·.path) := by
    rw [hplanned]
    decide
  refine ⟨transformed_sharedPipeline, reports, files, hrender, fun path hpath => ?_⟩
  obtain ⟨hcaller, hfile⟩ := hcallers path hpath
  obtain ⟨f, hf, rfl⟩ := List.mem_map.1 hfile
  obtain ⟨e, he, source, himports, g, hg, hleads, -⟩ :=
    hclosed f hf indexEndpoint List.mem_cons_self hcaller
  exact ⟨hcaller, f, hf, rfl, e, he, source, himports, g, hg, hleads⟩

end Pipeline

namespace Path

variable {p : String}

/-- A path that settings can name: it is not empty, it starts, if at the root, with one slash only,
and its normal form does not start with two points. -/
structure IsPlaced (p : String) : Prop where
  given : p ≠ ""
  single : p.startsWith "//" = false
  below : (normal p).startsWith ".." = false

instance (p : String) : Decidable (IsPlaced p) :=
  decidable_of_iff (p ≠ "" ∧ ¬ "//".toList <+: p.toList ∧ ¬ "..".toList <+: (normal p).toList)
    ⟨fun ⟨hgiven, hsingle, hbelow⟩ => ⟨hgiven, Bool.eq_false_iff.2 (mt startsWith_iff.1 hsingle),
        Bool.eq_false_iff.2 (mt startsWith_iff.1 hbelow)⟩,
      fun h => ⟨h.given, mt startsWith_iff.2 (Bool.eq_false_iff.1 h.single),
        mt startsWith_iff.2 (Bool.eq_false_iff.1 h.below)⟩⟩

theorem IsPlaced.isSingle (h : IsPlaced p) : IsSingle p := isSingle_iff.2 h.single

theorem IsPlaced.up (h : IsPlaced p) : ".." ∉ way p := by
  intro hmem
  obtain ⟨hrelative, hhead⟩ := head?_way hmem
  obtain ⟨rest, hway⟩ := List.head?_eq_some_iff.1 hhead
  have hplain : ∀ s ∈ way p, Location.IsPlainStep s := fun s => isPlainStep_of_mem_way
  have hstart : ("..".toList : List Char) <+: (normal p).toList := by
    rw [normal_of_relative hrelative, Location.text_of_ne_nil (by simp [hway]) hplain, hway]
    cases rest with
    | nil => rw [String.intercalate_singleton]
    | cons s rest =>
      rw [String.intercalate_cons_of_ne_nil (by simp), String.append_assoc, String.toList_append]
      exact List.prefix_append _ _
  exact Bool.eq_false_iff.1 h.below (startsWith_iff.2 hstart)

end Path

namespace Import

open Path Location

/-- A path from the settings, without white space around it and with slashes only. -/
def given (p : Option String) : String := withSlashes (Text.trimmed (p.getD ""))

/-- `modelBase` for a tool that runs in a given directory. -/
def modelBaseFrom (working : List String) (settings : Option ModelImport)
    (outputRoot : Option String) (file : String) : String :=
  match settings with
  | none => defaultModels
  | some s =>
    match s.importType with
    | .package => orElse s.packagePath "@my-org/models"
    | .relative =>
      if given s.relativePath = "" then defaultModels
      else if given outputRoot = "" then given s.relativePath
      else
        let here := directoryOf (Path.normal (Path.join (given outputRoot) file))
        source ((Path.relativeFrom? working (Path.normal (given s.relativePath)) here).getD ".")

theorem modelBaseFrom_base : modelBaseFrom base = modelBase := rfl

theorem source_starts (p : String) : (source p).startsWith "./" = true ∨
    (source p).startsWith "../" = true ∨ source p = ".." := by
  unfold source
  split
  · exact .inl (startsWith_iff.2 List.prefix_rfl)
  · split
    · next h => simpa [or_assoc] using h
    · refine .inl (startsWith_iff.2 ?_)
      rw [String.toList_append]
      exact List.prefix_append _ _

/-- The point for an empty directory leads to the same place. -/
theorem directoryOf_spec (p : String) : isAbsolute (directoryOf p) = isAbsolute (directory p) ∧
    way (directoryOf p) = way (directory p) := by
  unfold directoryOf
  by_cases h : directory p = ""
  · rw [h]
    decide +kernel
  · rw [if_neg h]
    exact ⟨rfl, rfl⟩

section
variable {s : ModelImport} {outputRoot : Option String} {file : String}

/-- The source of the models is the way to them from the directory of the file. -/
theorem modelBaseFrom_eq (working : List String) (htype : s.importType = .relative)
    (hmodels : IsPlaced (given s.relativePath)) (hroot : IsPlaced (given outputRoot))
    (halike : isAbsolute (given s.relativePath) = isAbsolute (given outputRoot))
    (hfile : isAbsolute file = false) (hup : ".." ∉ Path.steps file) :
    modelBaseFrom working (some s) outputRoot file = source (text ⟨"",
      between (way (join (given outputRoot) file)).dropLast (way (given s.relativePath))⟩) := by
  let generated := join (given outputRoot) file
  obtain ⟨hjoinStart, hjoin, -, -⟩ := join_spec (given outputRoot) hfile
  have hsingle : IsSingle generated := hjoin hroot.isSingle
  have hgenerated : ".." ∉ way generated := up_not_mem_way_join hroot.up hfile hup
  have hhere : way (directoryOf (normal generated)) = (way generated).dropLast :=
    (directoryOf_spec _).2.trans (way_directory_normal hsingle hgenerated)
  have hhereUp : ".." ∉ way (directoryOf (normal generated)) := by
    rw [hhere]
    exact fun hmem => hgenerated (List.mem_of_mem_dropLast hmem)
  have hmodelsWay := way_normal hmodels.isSingle hmodels.up
  have hmodelsUp : ".." ∉ way (normal (given s.relativePath)) := by
    rw [hmodelsWay]
    exact hmodels.up
  have hstart : isAbsolute (directoryOf (normal generated)) =
      isAbsolute (normal (given s.relativePath)) :=
    calc isAbsolute (directoryOf (normal generated))
      _ = isAbsolute (directory (normal generated)) := (directoryOf_spec _).1
      _ = isAbsolute (normal generated) := (directory_spec _).1
      _ = isAbsolute generated := (normal_spec hsingle).1
      _ = isAbsolute (given outputRoot) := hjoinStart
      _ = isAbsolute (given s.relativePath) := halike.symm
      _ = isAbsolute (normal (given s.relativePath)) := (normal_spec hmodels.isSingle).1.symm
  have hrelative := relativeFrom?_eq working (normal_ne (given s.relativePath)) hstart hhereUp
    hmodelsUp
  rw [hhere, hmodelsWay] at hrelative
  unfold modelBaseFrom
  simp only [htype]
  rw [if_neg hmodels.given, if_neg hroot.given, hrelative, Option.getD_some]

/-- A way between two places leads, as a source, from the one to the other. -/
theorem normal_join_between {here models : String} (hhere : IsSingle here)
    (hmodels : IsSingle models) (hstart : isAbsolute here = isAbsolute models)
    (hhereUp : ".." ∉ way here) (hmodelsUp : ".." ∉ way models) :
    normal (join here (source (text ⟨"", between (way here) (way models)⟩))) = normal models := by
  have hplain : IsPlain ⟨"", between (way here) (way models)⟩ :=
    ⟨rfl, isPlainStep_of_mem_between (isDown_way hmodelsUp).plain⟩
  obtain ⟨hjoin, hsingle, hsteps, -⟩ := join_spec here (isAbsolute_source (isAbsolute_text hplain))
  rw [steps_source, ofPath_text hplain] at hsteps
  refine normal_congr (hsingle hhere) hmodels (hjoin.trans hstart) ?_
  rw [way_of_steps hjoin hsteps, foldl_step_between hhereUp (isDown_way hmodelsUp),
    List.reverse_reverse]

/-- Joined to the directory of a file below the output root, be it cut from the path or from its
normal form, the source of the models leads to the models. It is the same in whatever directory the
tool runs, and it starts with a point and a slash or leads up. -/
theorem modelBase_leads (working : List String) (htype : s.importType = .relative)
    (hmodels : IsPlaced (given s.relativePath)) (hroot : IsPlaced (given outputRoot))
    (halike : isAbsolute (given s.relativePath) = isAbsolute (given outputRoot))
    (hfile : isAbsolute file = false) (hup : ".." ∉ Path.steps file) :
    normal (join (directory (normal (join (given outputRoot) file)))
        (modelBaseFrom working (some s) outputRoot file)) = normal (given s.relativePath) ∧
      ((∀ name ∈ (Path.steps file).getLast?, isStep name = true) →
        normal (join (directory (join (given outputRoot) file))
          (modelBaseFrom working (some s) outputRoot file)) = normal (given s.relativePath)) ∧
      modelBaseFrom working (some s) outputRoot file = modelBase (some s) outputRoot file ∧
      ((modelBase (some s) outputRoot file).startsWith "./" = true ∨
        (modelBase (some s) outputRoot file).startsWith "../" = true ∨
        modelBase (some s) outputRoot file = "..") := by
  have hbase := fun working => modelBaseFrom_eq working htype hmodels hroot halike hfile hup
  have hsame := hbase Path.base
  rw [modelBaseFrom_base] at hsame
  rw [hbase working, hsame]
  obtain ⟨hjoinStart, hjoin, -, hjoinLast⟩ := join_spec (given outputRoot) hfile
  have hsingle := hjoin hroot.isSingle
  have hgenerated := up_not_mem_way_join hroot.up hfile hup
  have hfront : ".." ∉ (way (join (given outputRoot) file)).dropLast := fun hmem =>
    hgenerated (List.mem_of_mem_dropLast hmem)
  -- both directories start where the file starts and go its way without the last step
  have hleads : ∀ here, IsSingle here → isAbsolute here = isAbsolute (join (given outputRoot) file) →
      way here = (way (join (given outputRoot) file)).dropLast →
      normal (join here (source (text ⟨"", between (way (join (given outputRoot) file)).dropLast
        (way (given s.relativePath))⟩))) = normal (given s.relativePath) := by
    intro here hhere hstart hway
    rw [← hway] at hfront ⊢
    exact normal_join_between hhere hmodels.isSingle
      (hstart.trans (hjoinStart.trans halike.symm)) hfront hmodels.up
  refine ⟨?_, fun hname => ?_, rfl, source_starts _⟩
  · obtain ⟨hnormalStart, hnormalSingle, -⟩ := normal_spec hsingle
    obtain ⟨hdirectoryStart, hdirectorySingle, -⟩ :=
      directory_spec (normal (join (given outputRoot) file))
    exact hleads _ (hdirectorySingle hnormalSingle) (hdirectoryStart.trans hnormalStart)
      (way_directory_normal hsingle hgenerated)
  · obtain ⟨hdirectoryStart, hdirectorySingle, -⟩ := directory_spec (join (given outputRoot) file)
    obtain ⟨name, hlast⟩ := Option.isSome_iff_exists.1 (List.getLast?_isSome.2 (steps_ne_nil file))
    have hne : name ≠ ".." := by
      rintro rfl
      exact hup (List.mem_of_getLast? hlast)
    exact hleads _ (hdirectorySingle hsingle) hdirectoryStart
      (way_directory (hjoinLast.trans hlast) (by simp [isName, hname name hlast, hne]))

/-- Backslashes, repeated slashes, points and a step back in the settings make no difference. -/
theorem modelBase_leads_sibling :
    let s : ModelImport := { relativePath := some " src\\old/..//models " }
    let outputRoot := some "./src/api//"
    let base := modelBaseFrom ["", "tmp"] (some s) outputRoot "functions/api/pets/add.ts"
    normal (join (directory (join (given outputRoot) "functions/api/pets/add.ts")) base) =
      "src/models" ∧ base = "../../../../models" := by
  intro s outputRoot base
  have hleads := @modelBase_leads s outputRoot "functions/api/pets/add.ts" ["", "tmp"] rfl
    (by decide +kernel) (by decide +kernel) (by decide +kernel) (by decide +kernel) (by decide)
  have hnormal : normal (given s.relativePath) = "src/models" := by decide +kernel
  exact ⟨(hleads.2.1 (by decide)).trans hnormal, hleads.2.2.1.trans (by decide +kernel)⟩

end
end Import
end ApiScribe
