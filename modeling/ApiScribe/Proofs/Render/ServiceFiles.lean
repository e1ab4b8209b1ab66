import ApiScribe.Render.Services
import ApiScribe.Proofs.Endpoint.Passes
import ApiScribe.Proofs.Entries
import ApiScribe.Proofs.Naming.Kebab
import ApiScribe.Proofs.Naming.Unique
import ApiScribe.Proofs.Pipeline.Merge

/-! Files of service classes. Every endpoint is a method of the class of its group and of no other.
A class is named after its group in `GetOrderList` style, where numbers run into one another, so the
classes of a document have files of their own exactly when no two groups differ only in hyphens
between digits. -/
namespace ApiScribe
namespace Endpoint

open Naming

/-- A scope of segments in `get-order-list` style. -/
def HasKebabScope (e : Endpoint) : Prop := e.scope ≠ [] ∧ ∀ s ∈ e.scope, IsKebab s

theorem scopeOfTags_kebab {tags : Value} {scope : List String}
    (h : scopeOfTags tags = .ok scope) : scope ≠ [] ∧ ∀ s ∈ scope, IsKebab s := by
  have hdefault : IsKebab "default" := by
    have hkept : kebab "default" = "default" := by decide +kernel
    exact hkept ▸ isKebab_kebab (s := "default") (by rw [hkept]; decide)
  rcases scopeOfTags_cases h with rfl | ⟨hne, hall⟩
  · exact ⟨by simp, fun s hs => List.mem_singleton.1 hs ▸ hdefault⟩
  · refine ⟨hne, fun s hs => ?_⟩
    obtain ⟨t, rfl, hsome⟩ := hall s hs
    exact isKebab_kebab hsome

/-- However endpoints are transformed, their scopes are those of their tags. -/
theorem hasKebabScope_transformed {p : Pipeline} {document : Value} {a : Api}
    (h : p.transformed document = .ok a) {e : Endpoint} (he : e ∈ a.endpoints) :
    e.HasKebabScope := by
  obtain ⟨c, es, hc, hes, rfl⟩ := Pipeline.transformed_eq_ok.1 h
  have hparsed : ∀ d ∈ c.endpoints, d.HasKebabScope := by
    intro d hd
    obtain ⟨d, name, _, _, _, _, rfl, hbuild⟩ := exists_build_of_mem hc hd
    obtain ⟨_, _, _, _, _, _, e₀, -, hassemble, -, hscope, -⟩ := exists_of_build hbuild
    obtain ⟨_, _, _, _, -, -, -, rfl⟩ := assemble_eq_ok hassemble
    exact scopeOfTags_kebab hscope
  have hperm := Pass.identity_applyAll_perm (fun d hd => (hparsed d hd).1) hes
  obtain ⟨d, hd, hi⟩ := List.mem_map.1 (hperm.mem_iff.1 (List.mem_map_of_mem he))
  have hscope : d.scope = e.scope := congrArg Identity.scope hi
  rw [HasKebabScope, ← hscope]
  exact hparsed d hd

end Endpoint

namespace Render

open Endpoint Naming

theorem isKebab_groupOf {e : Endpoint} (h : e.HasKebabScope) : IsKebab (groupOf e) := by
  obtain ⟨s, scope, hscope⟩ := List.exists_cons_of_ne_nil h.1
  rw [groupOf, hscope]
  exact h.2 s (hscope ▸ List.mem_cons_self)

/-- What groups hold: every group once, with its endpoints in order. -/
structure AreGroupsOf (es : List Endpoint) (gs : Entries String (List Endpoint)) : Prop where
  nodup : gs.keys.Nodup
  members : ∀ g ∈ gs, g.2 = es.filter fun e => groupOf e = g.1
  mem_keys : ∀ s, s ∈ gs.keys ↔ ∃ e ∈ es, groupOf e = s

theorem areGroupsOf_groups (es : List Endpoint) : AreGroupsOf es (groups es) := by
  have hpushed := Entries.areGroups_foldl_push (es.map fun e => (groupOf e, e))
  rw [List.foldl_map] at hpushed
  have hperm := List.mergeSort_perm
    (es.foldl (fun m e => Entries.push (groupOf e) e m) ([] : Entries String (List Endpoint)))
    fun g g' => decide (g.1 ≤ g'.1)
  refine ⟨(hperm.map Prod.fst).nodup_iff.2 hpushed.nodup, ?_, ?_⟩
  · intro g hg
    rw [hpushed.values g (hperm.mem_iff.1 hg), Entries.valuesOf, List.filter_map, List.map_map]
    exact (List.map_id _).trans (List.filter_congr fun _ _ => rfl)
  · intro s
    rw [show s ∈ (groups es).keys ↔ _ from (hperm.map Prod.fst).mem_iff, ← Entries.keys,
      hpushed.mem_keys]
    simp [and_comm]

/-- An endpoint is in its group and in no other. -/
theorem AreGroupsOf.existsUnique {es : List Endpoint} {gs : Entries String (List Endpoint)}
    (h : AreGroupsOf es gs) {e : Endpoint} (he : e ∈ es) : ∃! g, g ∈ gs ∧ e ∈ g.2 := by
  have hgroup : ∀ g ∈ gs, e ∈ g.2 → g.1 = groupOf e := by
    intro g hg hmem
    rw [h.members g hg] at hmem
    exact (of_decide_eq_true (List.mem_filter.1 hmem).2).symm
  obtain ⟨g, hg, hkey⟩ := List.mem_map.1 ((h.mem_keys (groupOf e)).2 ⟨e, he, rfl⟩)
  have hmem : e ∈ g.2 := by
    rw [h.members g hg]
    exact List.mem_filter.2 ⟨he, by simp [hkey]⟩
  refine ⟨g, ⟨hg, hmem⟩, ?_⟩
  rintro g' ⟨hg', hmem'⟩
  exact List.inj_on_of_nodup_map h.nodup hg' hg ((hgroup g' hg' hmem').trans hkey.symm)

/-- Classes of groups in `get-order-list` style. -/
theorem className_eq_iff {s t : String} (hs : IsKebab s) (ht : IsKebab t) :
    className s = className t ↔ joinNumbers s = joinNumbers t := by
  rw [className, className, String.append_left_inj, nonEmptyOr, nonEmptyOr,
    if_neg (pascal_ne_empty hs), if_neg (pascal_ne_empty ht), pascal_eq_iff_joinNumbers_eq hs ht]

theorem map_path_services (style : CallStyle) (a : Api) :
    (services style a).files.map (·.path) =
      (groups a.endpoints).keys.map fun group => className group ++ ".ts" := by
  rw [services, Entries.keys, List.map_map, List.map_map]
  rfl

/-- The methods of a class are its endpoints, under names that are all different. -/
theorem methods_of_class (es : List Endpoint) :
    ((methodNames es).zip es).map Prod.snd = es ∧ (methodNames es).Nodup := by
  refine ⟨List.map_snd_zip ?_, (uniqueNames_nodup _ _).1⟩
  rw [methodNames, length_uniqueNames, List.length_map]

/-- However the endpoints of a document are transformed, each of them is a method of one class, the
one of its group, under a name of its own there; and the files of the classes have different paths
exactly when no two groups are one text without the hyphens between digits. -/
theorem nodup_servicePaths_iff (p : Pipeline) {document : Value} {a : Api}
    (h : p.transformed document = .ok a) (style : CallStyle) :
    (((services style a).files.map (·.path)).Nodup ↔
      ∀ e ∈ a.endpoints, ∀ f ∈ a.endpoints,
        joinNumbers (groupOf e) = joinNumbers (groupOf f) → groupOf e = groupOf f) ∧
    (groups a.endpoints).keys.Nodup ∧
    (∀ g ∈ groups a.endpoints, g.2 = a.endpoints.filter (fun e => groupOf e = g.1) ∧
      ((methodNames g.2).zip g.2).map Prod.snd = g.2 ∧ (methodNames g.2).Nodup) ∧
    ∀ e ∈ a.endpoints, ∃! g, g ∈ groups a.endpoints ∧ e ∈ g.2 := by
  have hgroups := areGroupsOf_groups a.endpoints
  have hkebab : ∀ e ∈ a.endpoints, IsKebab (groupOf e) :=
    fun e he => isKebab_groupOf (hasKebabScope_transformed h he)
  refine ⟨?_, hgroups.nodup, fun g hg => ⟨hgroups.members g hg, methods_of_class g.2⟩,
    fun e he => hgroups.existsUnique he⟩
  have hname : ∀ e ∈ a.endpoints, ∀ f ∈ a.endpoints,
      className (groupOf e) ++ ".ts" = className (groupOf f) ++ ".ts" ↔
        joinNumbers (groupOf e) = joinNumbers (groupOf f) := by
    intro e he f hf
    rw [String.append_left_inj, className_eq_iff (hkebab e he) (hkebab f hf)]
  rw [map_path_services, List.nodup_map_iff_inj_on hgroups.nodup]
  constructor
  · intro hinj e he f hf hjoined
    exact hinj _ ((hgroups.mem_keys _).2 ⟨e, he, rfl⟩) _ ((hgroups.mem_keys _).2 ⟨f, hf, rfl⟩)
      ((hname e he f hf).2 hjoined)
  · intro hjoined s hs t ht hst
    obtain ⟨e, he, rfl⟩ := (hgroups.mem_keys s).1 hs
    obtain ⟨f, hf, rfl⟩ := (hgroups.mem_keys t).1 ht
    exact hjoined e he f hf ((hname e he f hf).1 hst)

/-- An operation with a tag. -/
def operationTagged (tag id : String) : Value :=
  .record [("operationId", .str id), ("tags", .ofStrings [tag])]

/-- Two versions that differ in where their numbers end. -/
def versionsDocument : Value :=
  .record [("paths", .record [("/a", .record [("get", operationTagged "v1.2" "list"),
    ("post", operationTagged "v12" "add")])])]

def versionsEndpoints : List Endpoint :=
  [{ scope := ["v-1-2"], operationName := "list", exportName := "v12List",
     builderName := "buildV12ListSpec", method := "GET", path := "/a", supportsQuery := true,
     supportsMutation := false },
   { scope := ["v-12"], operationName := "add", exportName := "v12Add",
     builderName := "buildV12AddSpec", method := "POST", path := "/a" }]

theorem transformed_versionsDocument :
    ({} : Pipeline).transformed versionsDocument = .ok { endpoints := versionsEndpoints } := by
  have hsort : versionsEndpoints.mergeSort precedes = versionsEndpoints :=
    List.mergeSort_of_pairwise (by decide)
  have hpasses : Pass.applyAll [.normalize] versionsEndpoints = .ok versionsEndpoints := by
    rw [Pass.applyAll, Pass.apply, hsort]
    rfl
  have hdocument : ofDocument versionsDocument = .ok { endpoints := versionsEndpoints } := by
    decide +kernel
  exact Pipeline.transformed_eq_ok.2 ⟨_, _, hdocument, hpasses, rfl⟩

/-- The two versions are groups of their own and still planned as one file. -/
theorem not_nodup_servicePaths_versions :
    ¬ ((services .positional { endpoints := versionsEndpoints }).files.map (·.path)).Nodup ∧
    (groups versionsEndpoints).keys.Nodup := by
  obtain ⟨hpaths, hkeys, -⟩ :=
    nodup_servicePaths_iff {} transformed_versionsDocument .positional
  refine ⟨fun hnodup => ?_, hkeys⟩
  have hsame := hpaths.1 hnodup _ List.mem_cons_self _ (List.mem_cons_of_mem _ List.mem_cons_self)
    (by decide +kernel)
  exact absurd hsame (by decide)

theorem files_services_versions (style : CallStyle) :
    (services style { endpoints := versionsEndpoints }).files =
      [classFile style { endpoints := versionsEndpoints } "v-1-2" (versionsEndpoints.take 1),
       classFile style { endpoints := versionsEndpoints } "v-12" (versionsEndpoints.drop 1)] := by
  have hgroups : groups versionsEndpoints =
      [("v-1-2", versionsEndpoints.take 1), ("v-12", versionsEndpoints.drop 1)] :=
    List.mergeSort_of_pairwise (by decide)
  rw [services, hgroups]
  rfl

/-- In neither style do the classes of the two versions come through a merge. -/
theorem render_services_versions (id : String) (slot : Option String) (style : CallStyle) :
    ({ renderers := [{ id, slot, render := services style }] } : Pipeline).render
      { endpoints := versionsEndpoints } = .fail (.conflictingFiles id id "V12Service.ts") := by
  have hpaths : ∀ f ∈ (services style { endpoints := versionsEndpoints }).files,
      f.path = "V12Service.ts" := by
    rw [files_services_versions]
    cases style <;> decide +kernel
  have hclash : ¬ Pipeline.Agree (services style { endpoints := versionsEndpoints }).files := by
    intro hagree
    rw [files_services_versions] at hagree
    have hsame := hagree _ List.mem_cons_self _ (List.mem_cons_of_mem _ List.mem_cons_self)
      (by cases style <;> decide +kernel)
    exact absurd hsame (by cases style <;> decide +kernel)
  obtain ⟨f, hf, hfail⟩ := Pipeline.addFiles_of_not_agree id hclash
  show (((services style { endpoints := versionsEndpoints }).files.foldlM (Pipeline.addFile id) []
    >>= _) >>= _) = _
  rw [hfail, hpaths f hf]
  rfl

/-- With service classes of either style the pipeline fails on the two versions. -/
theorem render_versionsDocument :
    ((do
      let a ← ({} : Pipeline).transformed versionsDocument
      ({ renderers := [← Registry.builtin.create "axios-ts"] } : Pipeline).render a) =
        .fail (.conflictingFiles "axios-ts" "axios-ts" "V12Service.ts")) ∧
    (do
      let a ← ({} : Pipeline).transformed versionsDocument
      ({ renderers := [← Registry.builtin.create "uniapp"] } : Pipeline).render a) =
        .fail (.conflictingFiles "uniapp" "uniapp" "V12Service.ts") := by
  rw [transformed_versionsDocument]
  exact ⟨render_services_versions _ _ .positional, render_services_versions _ _ .compact⟩

end Render

/-! Endpoints that are changed in nothing that files are named or grouped by. The files of the
changed endpoints have the names that they had, and a group holds the endpoints that it held,
changed. -/

namespace Endpoint

/-- A change of endpoints that keeps their names and their places. -/
structure KeepsNames (f : Endpoint → Endpoint) : Prop where
  scope : ∀ e, (f e).scope = e.scope
  operation : ∀ e, (f e).operationName = e.operationName
  exported : ∀ e, (f e).exportName = e.exportName
  method : ∀ e, (f e).method = e.method
  path : ∀ e, (f e).path = e.path

variable {f : Endpoint → Endpoint} (hf : KeepsNames f) (es : List Endpoint)
include hf

theorem KeepsNames.sharesName_map (e : Endpoint) :
    sharesName (es.map f) (f e) = sharesName es e := by
  simp only [sharesName, List.countP_map, Function.comp_def, hf.scope, hf.operation]

theorem KeepsNames.stem_map (e : Endpoint) : stem (es.map f) (f e) = stem es e := by
  have hown : ∀ d, ownStem (es.map f) (f d) = ownStem es d := by
    intro d
    rw [ownStem, ownStem, hf.sharesName_map, hf.exported, hf.operation]
  have hstems : stems (es.map f) = stems es := by
    simp only [stems, List.map_map, Function.comp_def, hf.method, hf.path, hown]
  rw [stem, stem, hstems, hf.method, hf.path, hf.operation]

end Endpoint

namespace Render

open Endpoint

variable {f : Endpoint → Endpoint} (hf : KeepsNames f) (es : List Endpoint)
include hf

theorem groups_map : groups (es.map f) = (groups es).mapValues (List.map f) := by
  have hgroup : ∀ e, groupOf (f e) = groupOf e := fun e => congrArg (·.headD "default") (hf.scope e)
  have hpush : ∀ m : Entries String (List Endpoint),
      (es.map f).foldl (fun m e => Entries.push (groupOf e) e m) (m.mapValues (List.map f)) =
        (es.foldl (fun m e => Entries.push (groupOf e) e m) m).mapValues (List.map f) := by
    induction es with
    | nil => exact fun _ => rfl
    | cons e es ih =>
      intro m
      rw [List.map_cons, List.foldl_cons, List.foldl_cons, ← ih, Entries.mapValues_push, hgroup]
  have hsort := List.map_mergeSort (r := fun g g' => decide (g.1 ≤ g'.1))
    (s := fun g g' => decide (g.1 ≤ g'.1)) (f := fun g : String × List Endpoint =>
      (g.1, g.2.map f)) (l := es.foldl (fun m e => Entries.push (groupOf e) e m) [])
    fun _ _ _ _ => rfl
  rw [Entries.mapValues, groups, groups, hsort]
  exact congrArg (List.mergeSort · _) (hpush [])

theorem methodNames_map : methodNames (es.map f) = methodNames es := by
  simp only [methodNames, List.map_map, Function.comp_def, hf.operation]

end Render
end ApiScribe
