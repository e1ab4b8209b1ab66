import ApiScribe.Proofs.Barrel.Layout
import ApiScribe.Proofs.Pipeline.FunctionPaths

/-! Rendered files after layout. A barrel takes the place of a rendered file only if the file is an
index file of a directory that gets a barrel, and the files that are called so are the builder and
the call function of an operation with the name `index`. All other files stay as they are
rendered. -/
namespace ApiScribe
namespace Render

open Endpoint

/-- The names of the renderers that plan files for endpoints one by one. -/
def endpointRenderers : List String := ["functions", "react-query", "vue-query"]

/-- What these renderers plan are the files of one endpoint after the other. -/
theorem files_of_endpointRenderer {id : String} {r : Renderer} (hid : id ∈ endpointRenderers)
    (hr : Registry.builtin.create id = .ok r) (a : Api) :
    (r.render a).files = a.endpoints.flatMap (functionFiles a) ∨
      ∃ library ∈ [reactHooks, vueHooks],
        (r.render a).files = a.endpoints.flatMap (hookFiles library a) := by
  simp only [endpointRenderers, List.mem_cons, List.not_mem_nil, or_false] at hid
  rcases hid with rfl | rfl | rfl
  · cases hr
    exact .inl rfl
  · cases hr
    exact .inr ⟨reactHooks, by simp, rfl⟩
  · cases hr
    exact .inr ⟨vueHooks, by simp, rfl⟩

/-- An endpoint with hooks has its builder besides them. -/
theorem hookFiles_cases {library : HookLibrary} {a : Api} {e : Endpoint} {f : PlannedFile}
    (hf : f ∈ hookFiles library a e) :
    builderFile a e (builderPath e (stem a.endpoints e)) ∈ hookFiles library a e ∧
      (f = builderFile a e (builderPath e (stem a.endpoints e)) ∨ ∃ kind : HookKind,
        f = hookFile library a e (stem a.endpoints e) (builderPath e (stem a.endpoints e)) kind) := by
  unfold hookFiles at hf ⊢
  dsimp only at hf ⊢
  split at hf
  · cases hf
  · refine ⟨List.mem_cons_self, ?_⟩
    rcases List.mem_cons.1 hf with rfl | hf
    · exact .inl rfl
    · obtain ⟨kind, -, rfl⟩ := List.mem_map.1 hf
      exact .inr ⟨kind, rfl⟩

/-- What these renderers plan are the builders and call functions of endpoints, and hooks. -/
theorem exists_of_mem_render {id : String} {r : Renderer} (hid : id ∈ endpointRenderers)
    (hr : Registry.builtin.create id = .ok r) {a : Api} {f : PlannedFile}
    (hf : f ∈ (r.render a).files) :
    ∃ e ∈ a.endpoints, f ∈ functionFiles a e ∨
      ∃ library ∈ [reactHooks, vueHooks], ∃ kind : HookKind,
        f.path = hookPath library kind e (stem a.endpoints e) := by
  rcases files_of_endpointRenderer hid hr a with hfiles | ⟨library, hlibrary, hfiles⟩
  · rw [hfiles] at hf
    obtain ⟨e, he, hf⟩ := List.mem_flatMap.1 hf
    exact ⟨e, he, .inl hf⟩
  · rw [hfiles] at hf
    obtain ⟨e, he, hf⟩ := List.mem_flatMap.1 hf
    refine ⟨e, he, ?_⟩
    rcases (hookFiles_cases hf).2 with rfl | ⟨kind, rfl⟩
    · exact .inl List.mem_cons_self
    · exact .inr ⟨library, hlibrary, kind, rfl⟩

theorem lead_filePath (e : Endpoint) {top : String} (h : top.toList.head? ≠ some '/')
    (hne : top.toList ≠ []) (s ending : String) :
    (Location.ofPath (e.filePath top s ending)).lead = "" := by
  refine Location.lead_of_head? ?_
  simp only [filePath, String.toList_append, List.append_assoc]
  rwa [List.head?_append_of_ne_nil _ hne]

/-- Rendered files are relative. -/
theorem lead_of_mem_render {id : String} {r : Renderer} (hid : id ∈ endpointRenderers)
    (hr : Registry.builtin.create id = .ok r) {a : Api} {f : PlannedFile}
    (hf : f ∈ (r.render a).files) : (Location.ofPath f.path).lead = "" := by
  obtain ⟨e, -, hf | ⟨library, hlibrary, kind, hpath⟩⟩ := exists_of_mem_render hid hr hf
  · simp only [functionFiles, List.mem_cons, List.not_mem_nil, or_false] at hf
    rcases hf with rfl | rfl
    · exact lead_filePath e (by decide) (by decide) _ _
    · exact lead_filePath e (by decide) (by decide) _ _
  · have htop : ∀ library ∈ [reactHooks, vueHooks],
        library.directory.toList.head? ≠ some '/' ∧ library.directory.toList ≠ [] := by decide
    obtain ⟨hslash, hne⟩ := htop library hlibrary
    rw [hpath]
    exact lead_filePath e hslash hne _ _

/-- The last step of the path of an endpoint's file. -/
theorem getLast?_steps_filePath {es : List Endpoint} (h : AreNamed es) {e : Endpoint} (he : e ∈ es)
    (top : String) {ending : String} (hending : '/' ∉ ending.toList) :
    (Path.steps (e.filePath top (stem es e) ending)).getLast? = some (ownStem es e ++ ending) := by
  have hslash : '/' ∉ (ownStem es e ++ ending).toList := by
    rw [String.toList_append, List.mem_append, not_or]
    exact ⟨slash_not_mem_ownStem es (h.named e he), hending⟩
  rw [filePath, stemOr_stem h he, String.append_assoc]
  exact Location.getLast?_steps_append _ hslash

/-- A rendered index file belongs to an operation with the name `index`. -/
theorem exists_of_index {id : String} {r : Renderer} (hid : id ∈ endpointRenderers)
    (hr : Registry.builtin.create id = .ok r) {a : Api} (h : AreNamed a.endpoints)
    {f : PlannedFile} (hf : f ∈ (r.render a).files)
    (hindex : (Path.steps f.path).getLast? = some Barrel.indexName) :
    ∃ e ∈ a.endpoints, e.operationName = "index" ∧ f ∈ functionFiles a e := by
  obtain ⟨e, he, hf⟩ := exists_of_mem_render hid hr hf
  have hname : ownStem a.endpoints e ++ ".ts" = Barrel.indexName → e.operationName = "index" := by
    intro hstem
    have hsame : ownStem a.endpoints e ++ ".ts" = "index" ++ ".ts" := hstem
    exact operationName_of_ownStem (h.named e he) (by decide) ((String.append_left_inj ".ts").1 hsame)
  rcases hf with hf | ⟨library, -, kind, hpath⟩
  · have hfile := hf
    simp only [functionFiles, List.mem_cons, List.not_mem_nil, or_false] at hfile
    refine ⟨e, he, hname ?_, hf⟩
    rcases hfile with rfl | rfl
    · exact Option.some.inj ((getLast?_steps_filePath h he _ (by decide)).symm.trans hindex)
    · exact Option.some.inj ((getLast?_steps_filePath h he _ (by decide)).symm.trans hindex)
  · -- the ending of a hook alone is longer than the name of an index file
    have hslash : '/' ∉ kind.ending.toList := by cases kind <;> decide
    rw [hpath, hookPath, getLast?_steps_filePath h he _ hslash] at hindex
    have hlength := congrArg String.length (Option.some.inj hindex)
    have hlong : Barrel.indexName.length < kind.ending.length := by cases kind <;> decide
    rw [String.length_append] at hlength
    omega

theorem getLast?_builderLines (e : Endpoint) (modelBase : String) (package : Bool) :
    (builderLines e modelBase package).getLast? = some "\x7d" := by
  unfold builderLines
  exact List.getLast?_append_of_ne_nil _ (by simp)

theorem getLast?_functionLines (e : Endpoint) (client : Import.Client) (builder modelBase : String)
    (package : Bool) : (functionLines e client builder modelBase package).getLast? = some "\x7d" := by
  unfold functionLines
  exact List.getLast?_append_of_ne_nil _ (by simp)

theorem exists_fileText {lines : List String} (h : lines.getLast? = some "\x7d") :
    ∃ front, (fileText lines).toList = front ++ ['\x7d', '\n'] := by
  obtain ⟨front, rfl⟩ := List.getLast?_eq_some_iff.1 h
  exact ⟨(fileText front).toList, by simp [fileText]⟩

/-- Builders and call functions end with a bracket. -/
theorem exists_content_functionFiles {a : Api} {e : Endpoint} {f : PlannedFile}
    (hf : f ∈ functionFiles a e) : ∃ front, f.content.toList = front ++ ['\x7d', '\n'] := by
  simp only [functionFiles, List.mem_cons, List.not_mem_nil, or_false] at hf
  rcases hf with rfl | rfl
  · unfold builderFile
    dsimp only
    exact exists_fileText (getLast?_builderLines _ _ _)
  · unfold functionFile
    dsimp only
    exact exists_fileText (getLast?_functionLines _ _ _ _ _)

end Render

namespace Barrel

/-- Barrels end with a semicolon. -/
theorem exists_text {names : List String} (h : names ≠ []) :
    ∃ front, (text names).toList = front ++ [';', '\n'] := by
  have hsorted : names.eraseDups.mergeSort (fun a b => decide (a ≤ b)) ≠ [] := by
    obtain ⟨name, hname⟩ := List.exists_mem_of_ne_nil _ h
    exact List.ne_nil_of_mem (List.mem_mergeSort.2 (List.mem_eraseDups.2 hname))
  obtain ⟨front, last, hfront⟩ : ∃ front last,
      names.eraseDups.mergeSort (fun a b => decide (a ≤ b)) = front ++ [last] :=
    ⟨_, _, (List.dropLast_append_getLast hsorted).symm⟩
  have hline : ∃ start, (exportLine last).toList = start ++ [';', '\n'] := by
    unfold exportLine
    exact ⟨("export * from \"./" ++ last ++ "\"").toList, by simp⟩
  obtain ⟨start, hstart⟩ := hline
  rw [text, hfront]
  exact ⟨(String.join (front.map exportLine)).toList ++ start, by simp [hstart]⟩

/-- The last step of the path of a barrel. -/
theorem getLast?_steps_path {d : Location} (h : d.IsPlain) :
    (Path.steps (path d)).getLast? = some indexName := by
  have hplain := isPlain_index h
  rw [path_eq, h.lead, Location.getLast?_steps_text (by simp) hplain.steps, List.getLast?_concat]

end Barrel

namespace Layout

variable {roots : List String} {files : List PlannedFile} {d : Location}

/-- No builder or call function reads like a barrel. -/
theorem ne_barrelOf (hrel : AreRelative files) (hd : GetsBarrel roots files d) {a : Api}
    {e : Endpoint} {f : PlannedFile} (hf : f ∈ Render.functionFiles a e) :
    f ≠ barrelOf roots files d := by
  rintro rfl
  obtain ⟨name, hname⟩ := (getsBarrel_iff hrel).1 hd
  have hnames : namesIn roots files d ≠ [] := List.ne_nil_of_mem (Entries.mem_valuesOf.2 hname)
  obtain ⟨front, hfront⟩ := Render.exists_content_functionFiles hf
  obtain ⟨start, hstart⟩ := Barrel.exists_text hnames
  have hends : start ++ [';', '\n'] = front ++ ['\x7d', '\n'] := hstart.symm.trans hfront
  exact absurd (List.append_inj_right' hends rfl) (by decide)

end Layout

namespace Pipeline

open Endpoint

/-- Merged files of these renderers are relative. -/
theorem areRelative_render {p : Pipeline} {a : Api} {reports : List RendererReport}
    {files : List PlannedFile}
    (hrenderers : ∀ r ∈ p.renderers,
      ∃ id ∈ Render.endpointRenderers, Registry.builtin.create id = .ok r)
    (hrender : p.render a = .ok (reports, files)) : Layout.AreRelative files := by
  intro f hf _
  obtain ⟨r, hr, hfr⟩ := (mem_render_iff hrender).1 hf
  obtain ⟨id, hid, hcreate⟩ := hrenderers r hr
  exact Render.lead_of_mem_render hid hcreate hfr

/-- Every file that renderers plan for the endpoints of a document stays as it is exactly if no
barrel takes its path. Where one does, it stands in the place of the builder or the call function of
an operation with the name `index`. -/
theorem rendered_mem_barrels_iff (p : Pipeline) {document : Value} {a : Api}
    {reports : List RendererReport} {files : List PlannedFile} (hd : HasDistinctPaths document)
    (h : p.transformed document = .ok a)
    (hrenderers : ∀ r ∈ p.renderers,
      ∃ id ∈ Render.endpointRenderers, Registry.builtin.create id = .ok r)
    (hrender : p.render a = .ok (reports, files)) (roots : List String) {r : Renderer}
    (hr : r ∈ p.renderers) {f : PlannedFile} (hf : f ∈ (r.render a).files) :
    (f ∈ (Layout.barrels roots).apply files ↔
      ∀ d, Layout.GetsBarrel roots files d → Barrel.path d ≠ f.path) ∧
    ∀ d, Layout.GetsBarrel roots files d → Barrel.path d = f.path →
      Layout.barrelOf roots files d ∈ (Layout.barrels roots).apply files ∧
      ∃ e ∈ a.endpoints, e.operationName = "index" ∧ f ∈ Render.functionFiles a e := by
  have hrel := areRelative_render hrenderers hrender
  have hindex : ∀ d, Layout.GetsBarrel roots files d → Barrel.path d = f.path →
      ∃ e ∈ a.endpoints, e.operationName = "index" ∧ f ∈ Render.functionFiles a e := by
    intro d hbarrel hpath
    obtain ⟨id, hid, hcreate⟩ := hrenderers r hr
    refine Render.exists_of_index hid hcreate (areNamed_transformed hd h) hf ?_
    rw [← hpath]
    exact Barrel.getLast?_steps_path (hbarrel.isPlain hrel)
  refine ⟨?_, fun d hbarrel hpath => ⟨Layout.barrelOf_mem hrel hbarrel, hindex d hbarrel hpath⟩⟩
  have hmem := (mem_render_iff hrender).2 ⟨r, hr, hf⟩
  rw [Layout.apply, Layout.mem_withBarrels_iff hrel hmem]
  refine forall_congr' fun d => forall_congr' fun hbarrel => ?_
  refine ⟨fun hsame hpath => ?_, fun hne hpath => absurd hpath hne⟩
  obtain ⟨e, -, -, hfile⟩ := hindex d hbarrel hpath
  exact Layout.ne_barrelOf hrel hbarrel hfile (hsame hpath)

/-- An operation with the name `index` and another one of its scope. -/
def indexDocument : Value :=
  .record [("paths", .record [("/a", .record [("get", taggedOperation "index"),
    ("post", taggedOperation "add")])])]

def indexEndpoint : Endpoint :=
  { scope := ["pets"], operationName := "index", exportName := "petsIndex",
    builderName := "buildPetsIndexSpec", method := "GET", path := "/a", supportsQuery := true,
    supportsMutation := false }

def addEndpoint : Endpoint :=
  { scope := ["pets"], operationName := "add", exportName := "petsAdd",
    builderName := "buildPetsAddSpec", method := "POST", path := "/a" }

def indexApi : Api := { endpoints := [indexEndpoint, addEndpoint] }

theorem transformed_indexDocument : ({} : Pipeline).functionsOnly.transformed indexDocument =
    .ok indexApi := by
  have hsort : indexApi.endpoints.mergeSort precedes = indexApi.endpoints :=
    List.mergeSort_of_pairwise (by decide)
  have hpasses : Pass.applyAll [.normalize] indexApi.endpoints = .ok indexApi.endpoints := by
    rw [Pass.applyAll, Pass.apply, hsort]
    rfl
  have hdocument : ofDocument indexDocument = .ok indexApi := by decide +kernel
  exact transformed_eq_ok.2 ⟨_, _, hdocument, hpasses, rfl⟩

theorem render_indexApi : ∃ reports files,
    ({} : Pipeline).functionsOnly.render indexApi = .ok (reports, files) := by
  refine render_functionsOnly_of_agree {} (agree_of_nodup ?_)
  rw [Render.map_path_functions]
  decide

theorem endpointRenderers_functionsOnly (p : Pipeline) : ∀ r ∈ p.functionsOnly.renderers,
    ∃ id ∈ Render.endpointRenderers, Registry.builtin.create id = .ok r := by
  intro r hr
  rw [List.mem_singleton.1 hr]
  exact ⟨"functions", List.mem_cons_self, create_functions⟩

theorem hasDistinctPaths_indexDocument : HasDistinctPaths indexDocument := by
  intro root paths hroot hpaths
  cases hroot
  cases hpaths
  exact List.pairwise_singleton _ _

/-- The builder of the operation `index` stays if builders get no barrels. -/
theorem mem_barrels_indexBuilder : ∃ reports files,
    ({} : Pipeline).functionsOnly.render indexApi = .ok (reports, files) ∧
    Render.builderFile indexApi indexEndpoint "spec/endpoints/pets/index.ts" ∈
      (Layout.barrels ["functions"]).apply files := by
  obtain ⟨reports, files, hrender⟩ := render_indexApi
  refine ⟨reports, files, hrender, ?_⟩
  have hfile : Render.builderFile indexApi indexEndpoint "spec/endpoints/pets/index.ts" ∈
      (functionsRenderer.render indexApi).files := by
    have hpath : Render.builderPath indexEndpoint (stem indexApi.endpoints indexEndpoint) =
        "spec/endpoints/pets/index.ts" := by decide
    refine List.mem_flatMap.2 ⟨indexEndpoint, List.mem_cons_self, ?_⟩
    rw [Render.functionFiles, hpath]
    exact List.mem_cons_self
  have hkept := rendered_mem_barrels_iff ({} : Pipeline).functionsOnly
    hasDistinctPaths_indexDocument transformed_indexDocument (endpointRenderers_functionsOnly {})
    hrender ["functions"] (List.mem_singleton_self functionsRenderer) hfile
  refine hkept.1.2 fun d hd hpath => ?_
  have hplain := hd.isPlain (areRelative_render (endpointRenderers_functionsOnly {}) hrender)
  obtain ⟨root, hroot, hbelow⟩ := hd.exists_root
  have hroots : Layout.rootsOf ["functions"] = [⟨"", ["functions"]⟩] := by decide +kernel
  rw [hroots, List.mem_singleton] at hroot
  have hspec : Location.ofPath "spec/endpoints/pets/index.ts" =
      ⟨"", ["spec", "endpoints", "pets", "index.ts"]⟩ := by decide +kernel
  have hlocation := (Barrel.ofPath_path hplain).symm.trans ((congrArg Location.ofPath hpath).trans hspec)
  have hprefix : ["functions"] <+: ["spec", "endpoints", "pets", "index.ts"] := by
    rw [← (Location.mk.inj hlocation).2]
    exact (hroot ▸ hbelow).trans (List.prefix_append _ _)
  exact absurd hprefix (by decide)

/-- The call function of the operation `index` is lost to the barrel of its scope. -/
theorem not_mem_barrels_indexFunction :
    ({} : Pipeline).functionsOnly.transformed indexDocument = .ok indexApi ∧
    ∃ reports files, ({} : Pipeline).functionsOnly.render indexApi = .ok (reports, files) ∧
      Render.functionFile indexApi indexEndpoint "functions/api/pets/index.ts"
        "spec/endpoints/pets/index.ts" ∈ files ∧
      Render.functionFile indexApi indexEndpoint "functions/api/pets/index.ts"
        "spec/endpoints/pets/index.ts" ∉ (Layout.barrels ["functions"]).apply files := by
  obtain ⟨reports, files, hrender⟩ := render_indexApi
  refine ⟨transformed_indexDocument, reports, files, hrender, ?_⟩
  have hrel := areRelative_render (endpointRenderers_functionsOnly {}) hrender
  have hfiles : ∀ e ∈ indexApi.endpoints, ∀ f ∈ Render.functionFiles indexApi e, f ∈ files :=
    fun e he f hf => (mem_render_iff hrender).2
      ⟨functionsRenderer, List.mem_singleton_self _, List.mem_flatMap.2 ⟨e, he, hf⟩⟩
  have hindex : Render.functionFile indexApi indexEndpoint "functions/api/pets/index.ts"
      "spec/endpoints/pets/index.ts" ∈ Render.functionFiles indexApi indexEndpoint := by
    have hbuilder : Render.builderPath indexEndpoint (stem indexApi.endpoints indexEndpoint) =
        "spec/endpoints/pets/index.ts" := by decide +kernel
    have hfunction : Render.functionPath indexEndpoint (stem indexApi.endpoints indexEndpoint) =
        "functions/api/pets/index.ts" := by decide +kernel
    rw [Render.functionFiles, hbuilder, hfunction]
    exact List.mem_cons_of_mem _ (List.mem_singleton_self _)
  have hmem := hfiles indexEndpoint List.mem_cons_self _ hindex
  refine ⟨hmem, fun hkept => ?_⟩
  -- the other call function of the scope makes its directory get a barrel
  obtain ⟨g, hg, hpath⟩ : ∃ g ∈ files, g.path = "functions/api/pets/add.ts" := by
    refine ⟨_, hfiles addEndpoint (by simp [indexApi]) _
      (List.mem_cons_of_mem _ (List.mem_singleton_self _)), ?_⟩
    show Render.functionPath addEndpoint (stem indexApi.endpoints addEndpoint) = _
    decide +kernel
  have hroot : Barrel.IsNearestRoot (Layout.rootsOf ["functions"])
      (Location.ofPath "functions/api/pets/add.ts") ⟨"", ["functions"]⟩ :=
    (Barrel.nearestRoot_eq_some_iff (fun _ => Layout.lead_of_mem_rootsOf) (by decide +kernel)).1 (by decide +kernel)
  have hbarrel : Layout.GetsBarrel ["functions"] files ⟨"", ["functions", "api", "pets"]⟩ := by
    refine ⟨g, hg, by rw [hpath]; decide +kernel, ⟨"", ["functions"]⟩, hpath ▸ hroot, ?_⟩
    rw [hpath]
    exact ⟨by decide +kernel, by decide +kernel, by decide +kernel⟩
  have hsame := (Layout.mem_withBarrels_iff hrel hmem).1 hkept _ hbarrel (by decide +kernel)
  exact Layout.ne_barrelOf hrel hbarrel hindex hsame

end Pipeline
end ApiScribe
