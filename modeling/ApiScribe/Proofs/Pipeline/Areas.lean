import ApiScribe.Proofs.Endpoint.Marks
import ApiScribe.Proofs.Pipeline.Kept
import ApiScribe.Proofs.Pipeline.Settings

/-! Areas of renderers. Every renderer that comes with the tool plans files in an area of its own;
only the request builders are planned by several, and these plan the same ones. So of renderers that
go together no two different ones get into each other's way: a merge fails only if one renderer by
itself plans two contents for one path. -/
namespace ApiScribe
namespace Render

open Endpoint

/-- The area that a path is in: the step that it starts with, or the kind of a file with no
directory. -/
def areaOf (path : String) : String :=
  if '/' ∈ path.toList then String.ofList (path.toList.takeWhile (· ≠ '/'))
  else if path = "index.js" then "axios-js"
  else Renderer.serviceSlot

theorem areaOf_append {path : String} (h : '/' ∈ path.toList) (rest : String) :
    areaOf (path ++ rest) = areaOf path := by
  have hmem : '/' ∈ (path ++ rest).toList := by simp [h]
  have hstop : ¬ ∀ c ∈ path.toList, decide (c ≠ '/') = true := fun hall => by
    simpa using hall '/' h
  rw [areaOf, areaOf, if_pos h, if_pos hmem, String.toList_append, List.takeWhile_append, if_neg]
  intro hlength
  refine hstop (List.takeWhile_eq_self_iff.1 (List.IsPrefix.eq_of_length ?_ hlength))
  exact List.takeWhile_prefix _

theorem areaOf_filePath (e : Endpoint) (top s ending : String) :
    areaOf (e.filePath top s ending) = areaOf (top ++ "/") := by
  have hslash : '/' ∈ (top ++ "/").toList := by simp
  rw [filePath]
  simp only [String.append_assoc]
  rw [← String.append_assoc, areaOf_append hslash]

theorem areaOf_builderPath (e : Endpoint) (s : String) : areaOf (builderPath e s) = "spec" := by
  rw [builderPath, areaOf_filePath]
  decide

theorem areaOf_functionPath (e : Endpoint) (s : String) :
    areaOf (functionPath e s) = "functions" := by
  rw [functionPath, areaOf_filePath]
  decide

theorem areaOf_hookPath {library : HookLibrary} (h : library ∈ [reactHooks, vueHooks])
    (kind : HookKind) (e : Endpoint) (s : String) :
    areaOf (hookPath library kind e s) = library.directory := by
  have hall : ∀ library ∈ [reactHooks, vueHooks],
      areaOf (library.directory ++ "/") = library.directory := by decide
  rw [hookPath, areaOf_filePath, hall library h]

theorem slash_not_mem_classPath (group : String) : '/' ∉ (className group ++ ".ts").toList := by
  have hword : Naming.IsWordText (className group).toList := by
    rw [className, nonEmptyOr, String.toList_append]
    refine Naming.IsWordText.append ?_ (by decide)
    split
    · decide
    · exact isWordText_pascal group
  rw [String.toList_append, List.mem_append, not_or]
  exact ⟨slash_not_mem_of_isWordText hword, by decide⟩

theorem areaOf_classPath (group : String) :
    areaOf (className group ++ ".ts") = Renderer.serviceSlot := by
  have hscript : className group ++ ".ts" ≠ "index.js" := by
    intro h
    have hending := congrArg (fun s => s.toList.reverse.take 2) h
    simp at hending
  rw [areaOf, if_neg (slash_not_mem_classPath group), if_neg hscript]

/-- The request builders of all endpoints. -/
def builders (a : Api) : List PlannedFile :=
  a.endpoints.map fun e => builderFile a e (builderPath e (stem a.endpoints e))

theorem areaOf_of_mem_builders {a : Api} {f : PlannedFile} (h : f ∈ builders a) :
    areaOf f.path = "spec" := by
  obtain ⟨e, -, rfl⟩ := List.mem_map.1 h
  exact areaOf_builderPath e _

/-- Endpoints one by one: each has its builder first, and then files in one area. -/
structure PlansEach (a : Api) (area : String) (files : Endpoint → List PlannedFile) : Prop where
  each : ∀ e ∈ a.endpoints, ∃ own : List PlannedFile,
    files e = builderFile a e (builderPath e (stem a.endpoints e)) :: own ∧
      ∀ f ∈ own, areaOf f.path = area

variable {a : Api} {area : String} {files : Endpoint → List PlannedFile}

theorem PlansEach.builders_subset (h : PlansEach a area files) :
    builders a ⊆ a.endpoints.flatMap files := by
  intro f hf
  obtain ⟨e, he, rfl⟩ := List.mem_map.1 hf
  obtain ⟨own, hfiles, -⟩ := h.each e he
  exact List.mem_flatMap.2 ⟨e, he, hfiles ▸ List.mem_cons_self⟩

theorem PlansEach.cases (h : PlansEach a area files) {f : PlannedFile}
    (hf : f ∈ a.endpoints.flatMap files) : f ∈ builders a ∨ areaOf f.path = area := by
  obtain ⟨e, he, hf⟩ := List.mem_flatMap.1 hf
  obtain ⟨own, hfiles, hown⟩ := h.each e he
  rw [hfiles] at hf
  rcases List.mem_cons.1 hf with rfl | hf
  · exact .inl (List.mem_map.2 ⟨e, he, rfl⟩)
  · exact .inr (hown f hf)

/-- Of the files planned for endpoints one by one, those at paths of builders are the builders. -/
theorem PlansEach.filter_eq (h : PlansEach a area files) (harea : area ≠ "spec") :
    ((a.endpoints.flatMap files).filter fun f => f.path ∈ (builders a).map (·.path)) =
      builders a := by
  have heach : ∀ e ∈ a.endpoints, (files e).filter (fun f => f.path ∈ (builders a).map (·.path)) =
      [builderFile a e (builderPath e (stem a.endpoints e))] := by
    intro e he
    obtain ⟨own, hfiles, hown⟩ := h.each e he
    have hbuilder : (builderFile a e (builderPath e (stem a.endpoints e))).path ∈
        (builders a).map (·.path) := List.mem_map_of_mem (List.mem_map.2 ⟨e, he, rfl⟩)
    have hnone : own.filter (fun f => f.path ∈ (builders a).map (·.path)) = [] := by
      rw [List.filter_eq_nil_iff]
      intro f hf hmem
      obtain ⟨g, hg, hpath⟩ := List.mem_map.1 (of_decide_eq_true hmem)
      have hspec := areaOf_of_mem_builders hg
      rw [hpath, hown f hf] at hspec
      exact harea hspec
    rw [hfiles, List.filter_cons, if_pos (decide_eq_true hbuilder), hnone]
  rw [List.filter_flatMap, List.flatMap_congr heach]
  exact List.map_eq_flatMap.symm

theorem ofEndpoint_ne_nil {e : Endpoint} (h : hasHooks e = true) : HookKind.ofEndpoint e ≠ [] := by
  unfold hasHooks at h
  unfold HookKind.ofEndpoint
  cases hq : e.supportsQuery <;> cases hm : e.supportsMutation <;> simp_all

theorem plansEach_functionFiles (a : Api) : PlansEach a "functions" (functionFiles a) where
  each e _ := by
    refine ⟨[functionFile a e (functionPath e (stem a.endpoints e)) _], rfl, fun f hf => ?_⟩
    rw [List.mem_singleton.1 hf]
    exact areaOf_functionPath e _

theorem plansEach_hookFiles {library : HookLibrary} (hlibrary : library ∈ [reactHooks, vueHooks])
    (h : ∀ e ∈ a.endpoints, hasHooks e = true) :
    PlansEach a library.directory (hookFiles library a) where
  each e he := by
    have hkinds := ofEndpoint_ne_nil (h e he)
    refine ⟨(HookKind.ofEndpoint e).map (hookFile library a e (stem a.endpoints e)
      (builderPath e (stem a.endpoints e))), ?_, fun f hf => ?_⟩
    · unfold hookFiles
      dsimp only
      split
      · next hnone => exact absurd hnone hkinds
      · rfl
    · obtain ⟨kind, -, rfl⟩ := List.mem_map.1 hf
      exact areaOf_hookPath hlibrary kind e _

/-- The renderers that plan files for endpoints one by one. -/
theorem exists_plansEach {r : Renderer} (hr : r ∈ Renderer.builtins)
    (hid : r.id ∈ endpointRenderers) (h : ∀ e ∈ a.endpoints, hasHooks e = true) :
    ∃ files, (r.render a).files = a.endpoints.flatMap files ∧ PlansEach a r.id files := by
  simp only [Renderer.builtins, List.mem_cons, List.not_mem_nil, or_false] at hr
  rcases hr with rfl | rfl | rfl | rfl | rfl | rfl
  · exact ⟨_, rfl, plansEach_functionFiles a⟩
  · exact ⟨_, rfl, plansEach_hookFiles List.mem_cons_self h⟩
  · exact ⟨_, rfl, plansEach_hookFiles (List.mem_cons_of_mem _ List.mem_cons_self) h⟩
  all_goals exact absurd hid (by decide)

end Render

namespace Renderer

open Render

/-- The area of a renderer: that of its slot, or its own. -/
def area (r : Renderer) : String := r.slot.getD r.id

/-- A renderer that does not plan files for endpoints one by one plans classes or one script. -/
theorem path_of_mem_render {a : Api} {r : Renderer} (hr : r ∈ builtins)
    (hid : r.id ∉ endpointRenderers) {f : PlannedFile} (hf : f ∈ (r.render a).files) :
    (r.area = serviceSlot ∧ ∃ group, f.path = className group ++ ".ts") ∨
      r.area = "axios-js" ∧ f.path = "index.js" := by
  have hservices : ∀ style, f ∈ (services style a).files →
      ∃ group, f.path = className group ++ ".ts" := by
    intro style hf
    obtain ⟨g, -, rfl⟩ := List.mem_map.1 hf
    exact ⟨g.1, rfl⟩
  simp only [builtins, List.mem_cons, List.not_mem_nil, or_false] at hr
  rcases hr with rfl | rfl | rfl | rfl | rfl | rfl
  · exact absurd (by decide) hid
  · exact absurd (by decide) hid
  · exact absurd (by decide) hid
  · exact .inl ⟨rfl, hservices _ hf⟩
  · exact .inr ⟨rfl, by rw [List.mem_singleton.1 hf]⟩
  · exact .inl ⟨rfl, hservices _ hf⟩

/-- A renderer plans files in its area, and builders if it plans files for endpoints one by one. -/
theorem areaOf_of_mem_render {a : Api} (h : ∀ e ∈ a.endpoints, hasHooks e = true) {r : Renderer}
    (hr : r ∈ builtins) {f : PlannedFile} (hf : f ∈ (r.render a).files) :
    (r.id ∈ endpointRenderers ∧ f ∈ builders a) ∨ areaOf f.path = r.area := by
  by_cases hid : r.id ∈ endpointRenderers
  · obtain ⟨files, hfiles, hplans⟩ := exists_plansEach hr hid h
    have harea : ∀ r ∈ builtins, r.id ∈ endpointRenderers → r.area = r.id := by decide
    rw [hfiles] at hf
    rw [harea r hr hid]
    exact (hplans.cases hf).imp_left fun hf => ⟨hid, hf⟩
  · right
    rcases path_of_mem_render hr hid hf with ⟨harea, group, hpath⟩ | ⟨harea, hpath⟩
    · rw [harea, hpath, areaOf_classPath]
    · rw [harea, hpath]
      decide

/-- Renderers that go together and plan files at one path are the same, or the file is a builder. -/
theorem id_eq_or_of_path_eq {a : Api} (h : ∀ e ∈ a.endpoints, hasHooks e = true) {r s : Renderer}
    (hr : r ∈ builtins) (hs : s ∈ builtins) (hslot : r.slot.isSome → r.slot = s.slot → r.id = s.id)
    {f g : PlannedFile} (hf : f ∈ (r.render a).files) (hg : g ∈ (s.render a).files)
    (hpath : f.path = g.path) :
    r.id = s.id ∨
      (r.id ∈ endpointRenderers ∧ f ∈ builders a) ∧ s.id ∈ endpointRenderers ∧ g ∈ builders a := by
  have hareas : ∀ r ∈ builtins, ∀ s ∈ builtins, r.area = s.area →
      r.id = s.id ∨ r.slot.isSome ∧ r.slot = s.slot := by decide
  have hspec : ∀ r ∈ builtins, r.area ≠ "spec" := by decide
  rcases areaOf_of_mem_render h hr hf with hbuilder | harea <;>
    rcases areaOf_of_mem_render h hs hg with hbuilder' | harea'
  · exact .inr ⟨hbuilder, hbuilder'⟩
  · refine absurd ?_ (hspec s hs)
    rw [← harea', ← hpath, areaOf_of_mem_builders hbuilder.2]
  · refine absurd ?_ (hspec r hr)
    rw [← harea, hpath, areaOf_of_mem_builders hbuilder'.2]
  · left
    rcases hareas r hr s hs (by rw [← harea, ← harea', hpath]) with hid | ⟨hsome, hsame⟩
    · exact hid
    · exact hslot hsome hsame

end Renderer

namespace Pipeline

open Endpoint Render

/-- After the passes of settings every endpoint is a query or a mutation. -/
theorem hasHooks_transformed {dry : Bool} {c : Config} {p : Pipeline}
    (hp : ofConfig .builtin dry c = .ok p) {document : Value} {a : Api}
    (ha : p.transformed document = .ok a) : ∀ e ∈ a.endpoints, hasHooks e = true := by
  obtain ⟨ps, rs, hps, -, -, rfl⟩ := ofConfig_eq_ok.1 hp
  obtain ⟨b, fs, -, hfs, rfl⟩ := transformed_eq_ok.1 ha
  have hoptional : Pass.normalize ∉ ps := fun hmem => ((mem_of_passesNamed hps).1 hmem).1 rfl
  obtain ⟨ds, hds, rfl⟩ := (Pass.applyAll_normalize_eq_ok hoptional).1 hfs
  intro f hf
  rw [withSettings, normalizeEach_eq hds] at hf
  obtain ⟨d, hd, rfl⟩ := List.mem_map.1 hf
  obtain ⟨e, -, rfl⟩ := List.mem_map.1 hd
  exact Pass.hasHooks_marks ps (hasHooks_withCapabilities _)

/-- The renderers of settings go together, and each comes with the tool or is the placeholder. -/
theorem renderers_ofConfig {dry : Bool} {c : Config} {p : Pipeline}
    (hp : ofConfig .builtin dry c = .ok p) :
    Compatible p.renderers ∧ ∀ r ∈ p.renderers, r ∈ Renderer.builtins ∨ r = .noop := by
  obtain ⟨ps, rs, -, hrs, hcompatible, rfl⟩ := ofConfig_eq_ok.1 hp
  by_cases hnil : rs = []
  · subst hnil
    refine ⟨?_, fun r hr => .inr (List.mem_singleton.1 hr)⟩
    intro r hr s hs hsome
    rw [List.mem_singleton.1 hr] at hsome
    cases hsome
  · rw [show orPlaceholder rs = rs from if_neg hnil]
    exact ⟨hcompatible, fun r hr => .inl ((mem_of_mapM_create hrs).1 hr).1⟩

/-- Renderers that go together come through, or one of them plans two contents for one path. -/
theorem render_cases_of_compatible {p : Pipeline} {a : Api}
    (hhooks : ∀ e ∈ a.endpoints, hasHooks e = true) (hcompatible : Compatible p.renderers)
    (hbuiltin : ∀ r ∈ p.renderers, r ∈ Renderer.builtins ∨ r = .noop) :
    (∃ reports files, p.render a = .ok (reports, files)) ∨
      ∃ r ∈ p.renderers, ∃ f ∈ (r.render a).files, ∃ g ∈ (r.render a).files, f.path = g.path ∧
        f.content ≠ g.content ∧ p.render a = .fail (.conflictingFiles r.id r.id f.path) := by
  rcases render_cases p a with hok |
    ⟨before, r, after, hsplit, hagree, f, hf, other, hother, g, hg, hpath, hcontent, hfail⟩
  · exact .inl hok
  right
  have hmem : ∀ s ∈ before ++ [r], s ∈ p.renderers := by
    intro s hs
    rw [hsplit]
    simp only [List.mem_append, List.mem_cons] at hs ⊢
    tauto
  have hplans : ∀ s ∈ before ++ [r], ∀ d ∈ (s.render a).files, s ∈ Renderer.builtins := by
    intro s hs d hd
    rcases hbuiltin s (hmem s hs) with hs | rfl
    · exact hs
    · cases hd
  have hr : r ∈ before ++ [r] := by simp
  by_cases hsame : other = r
  · subst hsame
    exact ⟨other, hmem other hr, f, hf, g, hg, hpath.symm, hcontent.symm, hfail⟩
  -- a different renderer plans the builder at this path too, so there was no other content before
  have hbefore : other ∈ before := by
    rcases List.mem_append.1 hother with h | h
    · exact h
    · exact absurd (List.mem_singleton.1 h) hsame
  have hrb := hplans r hr f hf
  have hob := hplans other hother g hg
  rcases Renderer.id_eq_or_of_path_eq hhooks hob hrb
    (hcompatible other (hmem other hother) r (hmem r hr)) hg hf hpath with hid | ⟨⟨hid, -⟩, -, hfb⟩
  · exact absurd (Registry.eq_of_id_eq hob hrb hid) hsame
  · obtain ⟨files, hfiles, hplans⟩ := exists_plansEach hob hid hhooks
    have hfo : f ∈ (other.render a).files := hfiles ▸ hplans.builders_subset hfb
    exact absurd (hagree g (List.mem_flatMap.2 ⟨other, hbefore, hg⟩) f
      (List.mem_flatMap.2 ⟨other, hbefore, hfo⟩) hpath) hcontent

/-- For the endpoints of a document and any passes and renderers that settings can name, a merge
fails exactly if one renderer by itself plans two contents for one path, and then it names this
renderer twice. The request builders are the same whichever renderer plans them, and a merge holds
each of their paths once. -/
theorem merge_fails_iff_renderer_disagrees {dry : Bool} {c : Config} {p : Pipeline}
    (hp : ofConfig .builtin dry c = .ok p) {document : Value} {a : Api}
    (ha : p.transformed document = .ok a) :
    ((∃ reports files, p.render a = .ok (reports, files)) ↔
      ∀ r ∈ p.renderers, Agree (r.render a).files) ∧
    (∀ failure, p.render a = .error failure → ∃ r ∈ p.renderers, ∃ f ∈ (r.render a).files,
      ∃ g ∈ (r.render a).files, f.path = g.path ∧ f.content ≠ g.content ∧
        failure = .fault (.conflictingFiles r.id r.id f.path)) ∧
    (∀ id ∈ endpointRenderers, ∃ r, Registry.builtin.create id = .ok r ∧
      (r.render a).files.filter (fun f => f.path ∈ (builders a).map (·.path)) = builders a) ∧
    ∀ reports files, p.render a = .ok (reports, files) →
      (∃ r ∈ p.renderers, r.id ∈ endpointRenderers) → ∀ b ∈ builders a,
        b ∈ files ∧ (files.map (·.path)).count b.path = 1 := by
  have hhooks := hasHooks_transformed hp ha
  obtain ⟨hcompatible, hbuiltin⟩ := renderers_ofConfig hp
  have hcases := render_cases_of_compatible hhooks hcompatible hbuiltin
  refine ⟨⟨?_, ?_⟩, ?_, ?_, ?_⟩
  · rintro hok r hr
    exact ((exists_render_iff p a).1 hok).mono fun f hf => List.mem_flatMap.2 ⟨r, hr, hf⟩
  · intro hagree
    rcases hcases with hok | ⟨r, hr, f, hf, g, hg, hpath, hcontent, -⟩
    · exact hok
    · exact absurd (hagree r hr f hf g hg hpath) hcontent
  · intro failure hfailure
    rcases hcases with ⟨reports, files, hok⟩ | ⟨r, hr, f, hf, g, hg, hpath, hcontent, hfail⟩
    · rw [hok] at hfailure
      cases hfailure
    · rw [hfail] at hfailure
      exact ⟨r, hr, f, hf, g, hg, hpath, hcontent, (Except.error.inj hfailure).symm⟩
  · intro id hid
    have hall : ∀ id ∈ endpointRenderers, id ≠ "spec" ∧ id ∈ Renderer.builtins.map Renderer.id := by
      decide
    obtain ⟨hspec, hmem⟩ := hall id hid
    obtain ⟨r, hr, rfl⟩ := List.mem_map.1 hmem
    obtain ⟨files, hfiles, hplans⟩ := exists_plansEach hr hid hhooks
    exact ⟨r, Registry.create_builtin_eq_ok.2 ⟨hr, rfl⟩, hfiles ▸ hplans.filter_eq hspec⟩
  · rintro reports files hok ⟨r, hr, hid⟩ b hb
    obtain ⟨hnodup, hmem⟩ := merged_render hok
    have hrb : r ∈ Renderer.builtins := by
      rcases hbuiltin r hr with hrb | rfl
      · exact hrb
      · exact absurd hid (by decide)
    obtain ⟨planned, hplanned, hplans⟩ := exists_plansEach hrb hid hhooks
    have hfile := (hmem b).2 ⟨r, hr, hplanned ▸ hplans.builders_subset hb⟩
    exact ⟨hfile, List.count_eq_one_of_mem hnodup (List.mem_map_of_mem hfile)⟩

/-- Settings for two renderers that share their builders, one of them twice. -/
def sharedConfig : Config := { renderers := ["react-query", "functions", "react-query"] }

def sharedPipeline : Pipeline :=
  { passes := [.normalize, .classifyQueries, .markRefreshToken]
    renderers := [{ id := "react-query", render := hooks reactHooks }, functionsRenderer,
      { id := "react-query", render := hooks reactHooks }]
    clientImport := some {}, modelImport := some {}, outputRoot := some "generated" }

def sharedApi : Api :=
  { indexApi with clientImport := some {}, modelImport := some {}, outputRoot := some "generated" }

theorem transformed_sharedPipeline : sharedPipeline.transformed indexDocument = .ok sharedApi := by
  have hsort : indexApi.endpoints.mergeSort precedes = indexApi.endpoints :=
    List.mergeSort_of_pairwise (by decide)
  have hpasses : Pass.applyAll sharedPipeline.passes indexApi.endpoints = .ok indexApi.endpoints := by
    show Pass.applyAll [.normalize, .classifyQueries, .markRefreshToken] indexApi.endpoints = _
    rw [Pass.applyAll, Pass.apply, hsort]
    decide +kernel
  have hdocument : ofDocument indexDocument = .ok indexApi := by decide +kernel
  exact transformed_eq_ok.2 ⟨_, _, hdocument, hpasses, rfl⟩

/-- The two renderers are merged, with each builder once. -/
theorem merge_sharedPipeline : ofConfig .builtin true sharedConfig = .ok sharedPipeline ∧
    sharedPipeline.transformed indexDocument = .ok sharedApi ∧
    ∃ reports files, sharedPipeline.render sharedApi = .ok (reports, files) ∧
      ∀ b ∈ builders sharedApi, b ∈ files ∧ (files.map (·.path)).count b.path = 1 := by
  have hp : ofConfig .builtin true sharedConfig = .ok sharedPipeline := rfl
  obtain ⟨hok, -, -, honce⟩ := merge_fails_iff_renderer_disagrees hp transformed_sharedPipeline
  have hpaths : ∀ r ∈ sharedPipeline.renderers,
      ((r.render sharedApi).files.map (·.path)).Nodup := by
    decide +kernel
  obtain ⟨reports, files, hrender⟩ := hok.2 fun r hr => agree_of_nodup (hpaths r hr)
  exact ⟨hp, transformed_sharedPipeline, reports, files, hrender,
    honce reports files hrender ⟨functionsRenderer, by simp [sharedPipeline], by decide⟩⟩

end Pipeline
end ApiScribe
