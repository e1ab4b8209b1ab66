import ApiScribe.Renderer
import ApiScribe.Workspace.Write
import ApiScribe.Proofs.Barrel.Layout
import ApiScribe.Proofs.Endpoint.Marks
import ApiScribe.Proofs.Pipeline.Areas
import ApiScribe.Proofs.Render.ServiceFiles
import ApiScribe.Proofs.Workspace.Write

/-! Flags in rendered files. Renderers ask of the flags of an endpoint only whether its calls must
not refresh the authorization. So they plan the same files for endpoints with other flags that give
the same answer, and the order of flags does not tell. -/
namespace ApiScribe
namespace Endpoint

/-- An endpoint with other flags. -/
def withFlags (flags : Entries String String) (e : Endpoint) : Endpoint := { e with flags }

/-- Flags that tell a renderer the same. -/
def TellSame (flags flags' : Entries String String) : Prop :=
  isFlagged flags skipRefreshFlag = isFlagged flags' skipRefreshFlag

section
variable (flags : Entries String String) (e : Endpoint)

theorem mentionedTypes_withFlags : (e.withFlags flags).mentionedTypes = e.mentionedTypes := rfl

theorem callOptions_withFlags (h : TellSame flags e.flags) :
    (e.withFlags flags).callOptions = e.callOptions := by
  unfold callOptions
  rw [show (e.withFlags flags).flags = flags from rfl, h]

end

section
variable (flags : Endpoint → Entries String String) (es : List Endpoint)

/-- Endpoints, each with other flags. -/
def withFlagsAll : List Endpoint := es.map fun e => e.withFlags (flags e)

theorem keepsNames_withFlags : KeepsNames fun e => e.withFlags (flags e) :=
  ⟨fun _ => rfl, fun _ => rfl, fun _ => rfl, fun _ => rfl, fun _ => rfl⟩

end

end Endpoint

namespace Render

open Endpoint

section
variable {flags : Entries String String} {e : Endpoint}

theorem builderFile_withFlags (a : Api) (es : List Endpoint) (path : String) :
    builderFile { a with endpoints := es } (e.withFlags flags) path = builderFile a e path := rfl

theorem functionFile_withFlags (h : TellSame flags e.flags) (a : Api) (es : List Endpoint)
    (path builder : String) :
    functionFile { a with endpoints := es } (e.withFlags flags) path builder =
      functionFile a e path builder := by
  unfold functionFile functionLines
  rw [callOptions_withFlags flags e h]
  rfl

theorem hookFile_withFlags (h : TellSame flags e.flags) (library : HookLibrary) (a : Api)
    (es : List Endpoint) (stem builder : String) (kind : HookKind) :
    hookFile library { a with endpoints := es } (e.withFlags flags) stem builder kind =
      hookFile library a e stem builder kind := by
  unfold hookFile hookLines
  cases kind with
  | query =>
    dsimp only
    unfold queryLines
    rw [show (e.withFlags flags).flags = flags from rfl, h]
    rfl
  | mutation =>
    dsimp only
    unfold mutationLines
    rw [callOptions_withFlags flags e h]
    rfl

theorem scriptFunction_withFlags : scriptFunction (e.withFlags flags) = scriptFunction e := rfl

theorem methodLines_withFlags (style : CallStyle) (name : String) :
    methodLines style name (e.withFlags flags) = methodLines style name e := rfl

end

section
variable {flags : Endpoint → Entries String String} (a : Api)

/-- The endpoints of a document with other flags. -/
def otherFlags (flags : Endpoint → Entries String String) (a : Api) : Api :=
  { a with endpoints := withFlagsAll flags a.endpoints }

theorem endpoints_otherFlags : (otherFlags flags a).endpoints = withFlagsAll flags a.endpoints := rfl

theorem functionFiles_otherFlags {e : Endpoint} (h : TellSame (flags e) e.flags) :
    functionFiles (otherFlags flags a) (e.withFlags (flags e)) = functionFiles a e := by
  unfold functionFiles
  rw [endpoints_otherFlags, withFlagsAll, (keepsNames_withFlags flags).stem_map]
  exact congrArg₂ (fun f g => [f, g]) (builderFile_withFlags a _ _)
    (functionFile_withFlags h a _ _ _)

theorem hookFiles_otherFlags (library : HookLibrary) {e : Endpoint}
    (h : TellSame (flags e) e.flags) :
    hookFiles library (otherFlags flags a) (e.withFlags (flags e)) = hookFiles library a e := by
  have hkinds : HookKind.ofEndpoint (e.withFlags (flags e)) = HookKind.ofEndpoint e := rfl
  unfold hookFiles
  rw [endpoints_otherFlags, withFlagsAll, (keepsNames_withFlags flags).stem_map, hkinds]
  cases HookKind.ofEndpoint e with
  | nil => rfl
  | cons kind kinds =>
    exact congrArg₂ List.cons (builderFile_withFlags a _ _)
      (List.map_congr_left fun kind _ => hookFile_withFlags h library a _ _ _ kind)

theorem classFile_otherFlags (style : CallStyle) (group : String) (es : List Endpoint) :
    classFile style (otherFlags flags a) group (withFlagsAll flags es) =
      classFile style a group es := by
  have htypes : (withFlagsAll flags es).flatMap Endpoint.mentionedTypes =
      es.flatMap Endpoint.mentionedTypes := by
    rw [withFlagsAll, List.flatMap_map]
    exact List.flatMap_congr fun e _ => mentionedTypes_withFlags _ e
  have hnames : methodNames (withFlagsAll flags es) = methodNames es :=
    methodNames_map (keepsNames_withFlags flags) es
  have hmethods : methodsLines style ((methodNames es).zip (withFlagsAll flags es)) =
      methodsLines style ((methodNames es).zip es) := by
    unfold methodsLines withFlagsAll
    rw [List.zip_map_right, List.map_map]
    exact congrArg _ (List.map_congr_left fun p _ => methodLines_withFlags style p.1)
  unfold classFile classLines
  rw [htypes, hnames, hmethods]
  rfl

/-- Renderers plan the same files for endpoints whose flags tell them the same. -/
theorem files_otherFlags {r : Renderer} (hr : r ∈ Renderer.builtins)
    (h : ∀ e ∈ a.endpoints, TellSame (flags e) e.flags) :
    (r.render (otherFlags flags a)).files = (r.render a).files := by
  have hservices : ∀ style, (services style (otherFlags flags a)).files =
      (services style a).files := by
    intro style
    unfold services
    rw [endpoints_otherFlags, withFlagsAll, groups_map (keepsNames_withFlags flags),
      Entries.mapValues, List.map_map]
    exact List.map_congr_left fun g _ => classFile_otherFlags a style g.1 g.2
  have hhooks : ∀ library, (hooks library (otherFlags flags a)).files =
      (hooks library a).files := by
    intro library
    unfold hooks
    rw [endpoints_otherFlags, withFlagsAll, List.flatMap_map]
    exact List.flatMap_congr fun e he => hookFiles_otherFlags a library (h e he)
  simp only [Renderer.builtins, List.mem_cons, List.not_mem_nil, or_false] at hr
  rcases hr with rfl | rfl | rfl | rfl | rfl | rfl
  · show (functions _).files = (functions a).files
    unfold functions
    rw [endpoints_otherFlags, withFlagsAll, List.flatMap_map]
    exact List.flatMap_congr fun e he => functionFiles_otherFlags a (h e he)
  · exact hhooks _
  · exact hhooks _
  · exact hservices _
  · show (script _).files = (script a).files
    unfold script
    rw [endpoints_otherFlags, withFlagsAll, List.flatMap_map]
    rw [List.flatMap_congr fun e _ => scriptFunction_withFlags]
  · exact hservices _

end

/-- Endpoints of the same settings that differ in the order of their flags at most. -/
structure SameButFlagOrders (a b : Api) : Prop where
  rest : { a with endpoints := [] } = { b with endpoints := [] }
  endpoints : List.Forall₂ SameButFlagOrder a.endpoints b.endpoints

/-- The one flag that renderers ask for, or none. -/
def plainFlags (e : Endpoint) : Entries String String :=
  if isFlagged e.flags skipRefreshFlag then [(skipRefreshFlag, "true")] else []

theorem tellSame_plainFlags (e : Endpoint) : TellSame (plainFlags e) e.flags := by
  have hone : isFlagged [(skipRefreshFlag, "true")] skipRefreshFlag = true := by decide
  have hnone : isFlagged [] skipRefreshFlag = false := by decide
  unfold TellSame plainFlags
  split
  · next h => rw [hone, h]
  · next h => rw [hnone, eq_false_of_ne_true h]

theorem withFlags_plainFlags_eq {e f : Endpoint} (h : e.SameButFlagOrder f) :
    e.withFlags (plainFlags e) = f.withFlags (plainFlags f) := by
  have hflags : plainFlags e = plainFlags f := by
    unfold plainFlags
    rw [isFlagged, isFlagged, Entries.get?_eq_of_perm h.nodup h.flags]
  have hrest := congrArg (withFlags (plainFlags f)) h.rest
  rw [hflags]
  exact hrest

/-- The order of flags does not tell in rendered files. -/
theorem files_eq_of_sameButFlagOrders {a b : Api} (h : SameButFlagOrders a b) {r : Renderer}
    (hr : r ∈ Renderer.builtins) : (r.render a).files = (r.render b).files := by
  have hendpoints : withFlagsAll plainFlags a.endpoints = withFlagsAll plainFlags b.endpoints := by
    have hall := h.endpoints
    generalize a.endpoints = es at hall
    generalize b.endpoints = fs at hall
    induction hall with
    | nil => rfl
    | cons he _ ih => exact congrArg₂ List.cons (withFlags_plainFlags_eq he) ih
  have hplain : otherFlags plainFlags a = otherFlags plainFlags b := by
    have hrest := congrArg
      (fun c : Api => { c with endpoints := withFlagsAll plainFlags b.endpoints }) h.rest
    rw [otherFlags, hendpoints]
    exact hrest
  rw [← files_otherFlags a hr fun e _ => tellSame_plainFlags e, hplain,
    files_otherFlags b hr fun e _ => tellSame_plainFlags e]

end Render
end ApiScribe

/-! The order in settings. Settings that name the same passes and renderers in another order, some
of them more than once, make a run that fails exactly if the first one does, and otherwise one with
the same endpoints and the same files. -/
namespace ApiScribe

/-- Settings that name the same passes and the same renderers and are equal otherwise. -/
structure Config.SameChoices (c c' : Config) : Prop where
  passes : ∀ name, name ∈ c.passes ↔ name ∈ c'.passes
  renderers : ∀ id, id ∈ c.renderers ↔ id ∈ c'.renderers
  rest : { c with passes := [], renderers := [] } = { c' with passes := [], renderers := [] }

/-- Files that are one map from paths to contents, in whatever order. -/
structure SameMap (files files' : List PlannedFile) : Prop where
  perm : files.Perm files'
  paths : (files.map (·.path)).Nodup

namespace Render

/-- No renderer plans a file at an absolute path. -/
theorem lead_of_mem_builtins {r : Renderer} (hr : r ∈ Renderer.builtins) {a : Api} {f : PlannedFile}
    (hf : f ∈ (r.render a).files) : (Location.ofPath f.path).lead = "" := by
  by_cases hid : r.id ∈ endpointRenderers
  · exact lead_of_mem_render hid (Registry.create_builtin_eq_ok.2 ⟨hr, rfl⟩) hf
  · refine Location.lead_of_head? ?_
    rcases Renderer.path_of_mem_render hr hid hf with ⟨-, group, hpath⟩ | ⟨-, hpath⟩
    · rw [hpath]
      exact fun hhead => slash_not_mem_classPath group (List.mem_of_mem_head? hhead)
    · rw [hpath]
      decide

end Render

namespace Pipeline

open Endpoint Render Outcome

/-- Settings with the same choices make a pipeline with the same passes and renderers, up to order
and repetition, and the same settings otherwise. -/
theorem ofConfig_of_sameChoices {dry : Bool} {c c' : Config} (h : c.SameChoices c') {p : Pipeline}
    (hp : ofConfig .builtin dry c = .ok p) :
    ∃ ps ps' rs', p.passes = .normalize :: ps ∧ .normalize ∉ ps ∧ (∀ q, q ∈ ps ↔ q ∈ ps') ∧
      (∀ r, r ∈ p.renderers ↔ r ∈ rs') ∧
      ofConfig .builtin dry c' =
        .ok { p with passes := .normalize :: ps', renderers := rs' } := by
  obtain ⟨ps, rs, hps, hrs, hcompatible, rfl⟩ := ofConfig_eq_ok.1 hp
  obtain ⟨ps', hps', -⟩ : ∃ ps', passesNamed c'.passes = .ok ps' ∧ ∀ q ∈ ps', True := by
    refine exists_mapM_eq_ok fun name hname => ?_
    obtain ⟨hmem, hne⟩ := List.mem_filter.1 hname
    have hnamed : name ∈ ps.map Pass.name := by
      rw [passesNamed_eq_ok.1 hps]
      exact List.mem_filter.2 ⟨(h.passes name).2 hmem, hne⟩
    obtain ⟨q, -, rfl⟩ := List.mem_map.1 hnamed
    exact ⟨q, Pass.ofName_eq_ok.2 rfl, trivial⟩
  obtain ⟨rs', hrs', -⟩ : ∃ rs', c'.renderers.mapM Registry.builtin.create = .ok rs' ∧
      ∀ r ∈ rs', True := by
    refine exists_mapM_eq_ok fun id hid => ?_
    obtain ⟨r, -, hr⟩ := exists_of_mapM_mem hrs ((h.renderers id).2 hid)
    exact ⟨r, hr, trivial⟩
  have hmem : ∀ r, r ∈ rs ↔ r ∈ rs' := by
    intro r
    rw [mem_of_mapM_create hrs, mem_of_mapM_create hrs', h.renderers]
  have hmem' : ∀ r, r ∈ orPlaceholder rs ↔ r ∈ orPlaceholder rs' := by
    have hnil : rs = [] ↔ rs' = [] := by
      simp only [List.eq_nil_iff_forall_not_mem, hmem]
    intro r
    unfold orPlaceholder
    by_cases hrs : rs = []
    · rw [if_pos hrs, if_pos (hnil.1 hrs)]
    · rw [if_neg hrs, if_neg (hnil.not.1 hrs), hmem]
  refine ⟨ps, ps', orPlaceholder rs', rfl,
    fun hnormalize => ((mem_of_passesNamed hps).1 hnormalize).1 rfl, ?_, hmem', ?_⟩
  · intro q
    rw [mem_of_passesNamed hps, mem_of_passesNamed hps', h.passes]
  · refine ofConfig_eq_ok.2 ⟨ps', rs', hps', hrs', hcompatible.mono fun r hr => (hmem r).2 hr, ?_⟩
    have hrest := h.rest
    simp only [Config.mk.injEq, true_and] at hrest
    obtain ⟨-, houtput, hbarrels, hclient, hmodels, -, -, -, -, hformatter, -⟩ := hrest
    rw [hbarrels, hclient, hmodels, hformatter, houtput]

variable {p : Pipeline} {ps ps' : List Pass} {rs' : List Renderer}

/-- Passes in another order make the same endpoints, up to the order of flags. -/
theorem alike_transformed (hp : p.passes = .normalize :: ps) (hps : .normalize ∉ ps)
    (hmem : ∀ q, q ∈ ps ↔ q ∈ ps') (rs' : List Renderer) (document : Value) :
    Alike SameButFlagOrders (p.transformed document)
      ({ p with passes := .normalize :: ps', renderers := rs' }.transformed document) := by
  have hps' : .normalize ∉ ps' := fun h => hps ((hmem _).2 h)
  refine alike_of_ok_iff ?_ ?_
  · constructor
    · rintro ⟨a, ha⟩
      obtain ⟨b, es, hb, hes, -⟩ := transformed_eq_ok.1 ha
      rw [hp] at hes
      obtain ⟨ds, hds, -⟩ := (Pass.applyAll_normalize_eq_ok hps).1 hes
      exact ⟨_, transformed_eq_ok.2
        ⟨b, _, hb, (Pass.applyAll_normalize_eq_ok hps').2 ⟨ds, hds, rfl⟩, rfl⟩⟩
    · rintro ⟨a, ha⟩
      obtain ⟨b, es, hb, hes, -⟩ := transformed_eq_ok.1 ha
      obtain ⟨ds, hds, -⟩ := (Pass.applyAll_normalize_eq_ok hps').1 hes
      have hall : Pass.applyAll p.passes b.endpoints = .ok (ds.map (Pass.marks ps)) := by
        rw [hp]
        exact (Pass.applyAll_normalize_eq_ok hps).2 ⟨ds, hds, rfl⟩
      exact ⟨_, transformed_eq_ok.2 ⟨b, _, hb, hall, rfl⟩⟩
  · intro a a' ha ha'
    obtain ⟨b, es, hb, hes, rfl⟩ := transformed_eq_ok.1 ha
    obtain ⟨b', es', hb', hes', rfl⟩ := transformed_eq_ok.1 ha'
    rw [hb] at hb'
    cases hb'
    rw [hp] at hes
    obtain ⟨ds, hds, rfl⟩ := (Pass.applyAll_normalize_eq_ok hps).1 hes
    obtain ⟨ds', hds', rfl⟩ := (Pass.applyAll_normalize_eq_ok hps').1 hes'
    rw [hds] at hds'
    cases hds'
    refine ⟨rfl, ?_⟩
    show List.Forall₂ _ (ds.map (Pass.marks ps)) (ds.map (Pass.marks ps'))
    rw [List.forall₂_map_left_iff, List.forall₂_map_right_iff, List.forall₂_same]
    intro d hd
    refine Pass.marks_sameButFlagOrder hmem ?_
    rw [normalizeEach_eq hds] at hd
    obtain ⟨e, he, rfl⟩ := List.mem_map.1 hd
    have hflags := flags_of_ofDocument hb (List.mem_mergeSort.1 he)
    rw [flags_withCapabilities, flags_withScope, hflags]
    exact List.nodup_nil

/-- Renderers in another order merge the same files. -/
theorem alike_render (hmem : ∀ r, r ∈ p.renderers ↔ r ∈ rs')
    (hbuiltin : ∀ r ∈ p.renderers, r ∈ Renderer.builtins ∨ r = .noop) {a b : Api}
    (h : SameButFlagOrders a b) :
    Alike (fun x y => SameMap x.2 y.2 ∧ Layout.AreRelative x.2) (p.render a)
      ({ p with passes := ps', renderers := rs' }.render b) := by
  have hfiles : ∀ r ∈ p.renderers, (r.render a).files = (r.render b).files := by
    intro r hr
    rcases hbuiltin r hr with hr | rfl
    · exact files_eq_of_sameButFlagOrders h hr
    · rfl
  have hplanned : ∀ f, (∃ r ∈ p.renderers, f ∈ (r.render a).files) ↔
      ∃ r ∈ rs', f ∈ (r.render b).files := by
    intro f
    simp only [← hmem]
    exact exists_congr fun r => and_congr_right fun hr => by rw [hfiles r hr]
  refine alike_of_ok_iff ?_ ?_
  · have hsub : ∀ f, f ∈ p.renderers.flatMap (fun r => (r.render a).files) ↔
        f ∈ rs'.flatMap fun r => (r.render b).files := by
      simpa only [List.mem_flatMap] using hplanned
    simp only [Prod.exists]
    rw [exists_render_iff, exists_render_iff]
    exact ⟨fun hagree => hagree.mono fun f => (hsub f).2, fun hagree => hagree.mono fun f => (hsub f).1⟩
  · rintro ⟨reports, files⟩ ⟨reports', files'⟩ hx hy
    obtain ⟨hpaths, hx⟩ := merged_render hx
    obtain ⟨hpaths', hy⟩ := merged_render hy
    refine ⟨⟨?_, hpaths⟩, ?_⟩
    · refine (List.perm_ext_iff_of_nodup hpaths.of_map hpaths'.of_map).2 fun f => ?_
      rw [hx, hy]
      exact hplanned f
    · intro f hf _
      obtain ⟨r, hr, hfr⟩ := (hx f).1 hf
      rcases hbuiltin r hr with hr | rfl
      · exact lead_of_mem_builtins hr hfr
      · cases hfr

theorem formatAll_none (files : List PlannedFile) : Formatter.formatAll .none files = .ok files := by
  have hall : Formatter.formatAll .none files = .ok (files.map id) :=
    mapM_eq_ok_map fun f _ => rfl
  rwa [List.map_id] at hall

/-- Passes and renderers in another order draft the same files. -/
theorem alike_draft (hp : p.passes = .normalize :: ps) (hps : .normalize ∉ ps)
    (hmem : ∀ q, q ∈ ps ↔ q ∈ ps') (hrenderers : ∀ r, r ∈ p.renderers ↔ r ∈ rs')
    (hbuiltin : ∀ r ∈ p.renderers, r ∈ Renderer.builtins ∨ r = .noop)
    (hformatter : p.formatter = .none) (document : Value) :
    Alike (fun x y => SameMap x.files y.files) (p.draft document)
      ({ p with passes := .normalize :: ps', renderers := rs' }.draft document) := by
  refine (alike_transformed hp hps hmem rs' document).bind fun a b hab => ?_
  refine (alike_render hrenderers hbuiltin hab).bind fun x y hxy => ?_
  obtain ⟨hsame, hrel⟩ := hxy
  obtain ⟨hperm, hpaths⟩ := Layout.apply_perm p.layout hrel hsame.paths hsame.perm
  show Alike _ (p.formatter.formatAll (p.layout.apply x.2) >>= _)
    (p.formatter.formatAll (p.layout.apply y.2) >>= _)
  rw [hformatter, formatAll_none, formatAll_none]
  exact ⟨hperm, hpaths⟩

/-- A run without a target reports what it drafted. -/
theorem plan_run_of_dry (hp : p.target = none) (document : Value) (w : Workspace) :
    ((p.plan document).run w).1 = Draft.dryPlan <$> p.draft document := by
  unfold plan
  cases hdraft : p.draft document with
  | error e => rw [Job.run_bind_error (Job.run_ofOutcome _ w)]; rfl
  | ok d =>
    have hdeliver : (p.deliver d).run w = (.ok ⟨d.files, 0⟩, w) := by
      rw [deliver, hp]
      rfl
    rw [Job.run_bind_ok (Job.run_ofOutcome _ w), Job.run_bind_ok hdeliver]
    rfl

/-- Settings that name the same passes and renderers in whatever order, some of them more than once,
are taken together. Then for every document the passes fail together or make the same endpoints up
to the order of flags, and without a formatter a dry run in whatever workspace fails together or
plans the same map from paths to contents. -/
theorem plan_of_sameChoices {c c' : Config} (h : c.SameChoices c')
    (hformatter : Formatter.ofCommand c.formatter = .none) {p : Pipeline}
    (hp : ofConfig .builtin true c = .ok p) :
    ∃ p', ofConfig .builtin true c' = .ok p' ∧ ∀ document,
      Alike SameButFlagOrders (p.transformed document) (p'.transformed document) ∧
      ∀ w : Workspace, Alike (fun x y => SameMap x.plannedFiles y.plannedFiles)
        ((p.plan document).run w).1 ((p'.plan document).run w).1 := by
  obtain ⟨ps, ps', rs', hpasses, hoptional, hmem, hrenderers, hp'⟩ := ofConfig_of_sameChoices h hp
  have hbuiltin := (renderers_ofConfig hp).2
  obtain ⟨_, _, -, -, -, hsettings⟩ := ofConfig_eq_ok.1 hp
  have htarget : p.target = none := by rw [hsettings]; rfl
  have hnone : p.formatter = .none := by rw [hsettings]; exact hformatter
  refine ⟨_, hp', fun document => ?_⟩
  have htransformed := alike_transformed hpasses hoptional hmem rs' document
  refine ⟨htransformed, fun w => ?_⟩
  rw [plan_run_of_dry htarget, plan_run_of_dry (by exact htarget)]
  have hdraft := alike_draft hpasses hoptional hmem hrenderers hbuiltin hnone document
  exact hdraft.map fun x y hxy => hxy

/-- The choices of `sharedConfig` in another order, with a pass named twice. -/
def reorderedConfig : Config :=
  { renderers := ["functions", "react-query"]
    passes := ["refresh-token-meta", "query-classification", "refresh-token-meta"] }

theorem plan_reorderedConfig : ∃ p', ofConfig .builtin true reorderedConfig = .ok p' ∧
    Alike SameButFlagOrders (sharedPipeline.transformed indexDocument)
      (p'.transformed indexDocument) ∧
    ∀ w : Workspace, Alike (fun x y => SameMap x.plannedFiles y.plannedFiles)
      ((sharedPipeline.plan indexDocument).run w).1 ((p'.plan indexDocument).run w).1 := by
  have hchoices : sharedConfig.SameChoices reorderedConfig := by
    refine ⟨fun name => ?_, fun id => ?_, rfl⟩
    · simp only [sharedConfig, reorderedConfig, List.mem_cons, List.not_mem_nil]
      tauto
    · simp only [sharedConfig, reorderedConfig, List.mem_cons, List.not_mem_nil]
      tauto
  obtain ⟨p', hp', hall⟩ := plan_of_sameChoices hchoices rfl
    (show ofConfig .builtin true sharedConfig = .ok sharedPipeline from rfl)
  exact ⟨p', hp', hall indexDocument⟩

end Pipeline
end ApiScribe
