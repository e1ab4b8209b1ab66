import Mathlib.Tactic.TFAE
import ApiScribe.Proofs.Endpoint.Passes
import ApiScribe.Proofs.Entries
import ApiScribe.Proofs.Pipeline.Merge

/-! File names of endpoints. An endpoint's files are named after its operation, or after its export
if another endpoint of its scope has the same operation. Within a scope two files meet exactly when
an export is named like the operation of an endpoint that shares it with no other. -/
namespace ApiScribe
namespace Endpoint

open Naming

/-- Some endpoint that shares its operation name is exported under the operation name that
another endpoint of its scope has alone. -/
def HasClash (es : List Endpoint) : Prop :=
  ∃ e ∈ es, ∃ f ∈ es, e.scope = f.scope ∧ sharesName es e = true ∧ sharesName es f = false ∧
    e.exportName = f.operationName

instance (es : List Endpoint) : Decidable (HasClash es) :=
  inferInstanceAs (Decidable (∃ e ∈ es, ∃ f ∈ es, e.scope = f.scope ∧ sharesName es e = true ∧
    sharesName es f = false ∧ e.exportName = f.operationName))

theorem nodup_of_places {es : List Endpoint} (h : (es.map place).Nodup) : es.Nodup :=
  List.Nodup.of_map place h

/-- With no place taken twice, a file name is found under the place of its endpoint. -/
theorem stem_eq_ownStem {es : List Endpoint} (h : (es.map place).Nodup) {e : Endpoint}
    (he : e ∈ es) : stem es e = ownStem es e := by
  have hkeys : (Entries.keys (es.map fun e => ((e.method, e.path), ownStem es e))).Nodup := by
    rw [Entries.keys, List.map_map]
    exact h
  have hmem : ((e.method, e.path), ownStem es e) ∈
      es.map fun e => ((e.method, e.path), ownStem es e) := List.mem_map_of_mem he
  rw [stem, stems, Entries.ofList_of_nodup hkeys, Entries.get?_eq_some_of_mem hkeys hmem]
  rfl

theorem ne_empty_of_outgrows {n : Nat} {s : String} (h : Outgrows n s) : s ≠ "" := by
  rintro rfl
  exact absurd h.2 (by simp)

theorem stemOr_ownStem {es : List Endpoint} {e : Endpoint} (h : e.IsNamed) :
    e.stemOr (ownStem es e) = ownStem es e := by
  unfold stemOr
  split
  · next hempty =>
    unfold ownStem at hempty ⊢
    split
    · next hs =>
      rw [if_pos hs] at hempty
      exact absurd hempty (ne_empty_of_outgrows h.outgrows)
    · rfl
  · rfl

/-- The file name of a named endpoint is its own. -/
theorem stemOr_stem {es : List Endpoint} (h : AreNamed es) {e : Endpoint} (he : e ∈ es) :
    e.stemOr (stem es e) = ownStem es e := by
  rw [stem_eq_ownStem h.places he, stemOr_ownStem (h.named e he)]

/-- A file is named after the operation or the export of some endpoint: if two have one place, after
that of the other one. -/
theorem exists_stemOr (es : List Endpoint) {e : Endpoint} (he : e ∈ es) :
    ∃ f ∈ es, e.stemOr (stem es e) = f.operationName ∨ e.stemOr (stem es e) = f.exportName := by
  unfold stemOr
  split
  · exact ⟨e, he, .inl rfl⟩
  · unfold stem
    cases hget : (stems es).get? (e.method, e.path) with
    | none => exact ⟨e, he, .inl rfl⟩
    | some s =>
      obtain ⟨f, hf, heq⟩ := List.mem_map.1 (Entries.mem_ofList (Entries.mem_of_get?_eq_some hget))
      have hs : ownStem es f = s := congrArg Prod.snd heq
      refine ⟨f, hf, ?_⟩
      rw [Option.getD_some, ← hs, ownStem]
      split
      · exact .inr rfl
      · exact .inl rfl

/-- Only an operation of a name in small letters makes a file of that name. -/
theorem operationName_of_ownStem {es : List Endpoint} {e : Endpoint} (h : e.IsNamed) {s : String}
    (hs : s.toList.any Char.isUpper = false) (hstem : ownStem es e = s) : e.operationName = s := by
  unfold ownStem at hstem
  split at hstem
  · obtain ⟨c, hc, hcapital⟩ := h.titled.capital
    rw [hstem] at hc
    exact absurd hcapital (List.any_eq_false.1 hs c hc)
  · exact hstem

theorem slash_not_mem_ownStem (es : List Endpoint) {e : Endpoint} (h : e.IsNamed) :
    '/' ∉ (ownStem es e).toList := by
  unfold ownStem
  split
  · exact h.outgrows.1
  · exact slash_not_mem_of_isWordText h.operation

/-- An endpoint that shares its operation name with none is the only one of its name and scope. -/
theorem eq_of_not_sharesName {es : List Endpoint} {e f : Endpoint}
    (h : sharesName es e = false) (he : e ∈ es) (hf : f ∈ es) (hscope : f.scope = e.scope)
    (hname : f.operationName = e.operationName) : e = f := by
  simp only [sharesName, bne_eq_false_iff_eq, List.countP_eq_length_filter] at h
  obtain ⟨d, hd⟩ := List.length_eq_one_iff.1 h
  have hmem : ∀ g ∈ es, g.scope = e.scope → g.operationName = e.operationName → g = d := by
    intro g hg hs hn
    have hg' : g ∈ [d] := by
      rw [← hd]
      exact List.mem_filter.2 ⟨hg, by simp [hs, hn]⟩
    exact List.mem_singleton.1 hg'
  rw [hmem e he rfl rfl, hmem f hf hscope hname]

/-- Within a scope file names are different unless there is a clash. -/
theorem ownStem_injOn_of_not_hasClash {es : List Endpoint} (h : AreNamed es)
    (hclash : ¬ HasClash es) {e f : Endpoint} (he : e ∈ es) (hf : f ∈ es)
    (hscope : e.scope = f.scope) (hstem : ownStem es e = ownStem es f) : e = f := by
  unfold ownStem at hstem
  cases hse : sharesName es e with
  | true =>
    cases hsf : sharesName es f with
    | true =>
      simp only [hse, hsf, if_true] at hstem
      exact List.inj_on_of_nodup_map h.exports he hf hstem
    | false =>
      simp only [hse, hsf, if_true, Bool.false_eq_true, if_false] at hstem
      exact absurd ⟨e, he, f, hf, hscope, hse, hsf, hstem⟩ hclash
  | false =>
    cases hsf : sharesName es f with
    | true =>
      simp only [hse, hsf, if_true, Bool.false_eq_true, if_false] at hstem
      exact absurd ⟨f, hf, e, he, hscope.symm, hsf, hse, hstem.symm⟩ hclash
    | false =>
      simp only [hse, hsf, Bool.false_eq_true, if_false] at hstem
      exact eq_of_not_sharesName hse he hf hscope.symm hstem.symm

theorem nodup_stems_iff {es : List Endpoint} (h : AreNamed es) :
    (es.map fun e => (e.scope, ownStem es e)).Nodup ↔ ¬ HasClash es := by
  constructor
  · rintro hnodup ⟨e, he, f, hf, hscope, hse, hsf, hname⟩
    have hstem : (e.scope, ownStem es e) = (f.scope, ownStem es f) := by
      simp [ownStem, hse, hsf, hscope, hname]
    have hef : e = f := List.inj_on_of_nodup_map hnodup he hf hstem
    rw [hef, hsf] at hse
    cases hse
  · intro hclash
    refine List.Nodup.map_on ?_ (nodup_of_places h.places)
    intro e he f hf heq
    exact ownStem_injOn_of_not_hasClash h hclash he hf (Prod.mk.inj heq).1 (Prod.mk.inj heq).2

/-- A path below a directory tells the scope and the file name. -/
theorem filePath_injective {e f : Endpoint} {top ending s t : String} (he : e.HasPlainScope)
    (hf : f.HasPlainScope) (hs : '/' ∉ (e.stemOr s).toList) (ht : '/' ∉ (f.stemOr t).toList)
    (h : e.filePath top s ending = f.filePath top t ending) :
    e.scope = f.scope ∧ e.stemOr s = f.stemOr t := by
  have hjoin : ∀ {d : Endpoint} {stem : String}, d.HasPlainScope →
      "/".intercalate d.scope ++ "/" ++ stem = "/".intercalate (d.scope ++ [stem]) := by
    intro d stem hd
    rw [String.intercalate_append_of_ne_nil hd.1 (by simp)]
    simp
  have hsplit : ∀ {d : Endpoint} {stem : String}, d.HasPlainScope → '/' ∉ stem.toList →
      ("/".intercalate (d.scope ++ [stem])).toList.splitOn '/' =
        (d.scope ++ [stem]).map String.toList := by
    intro d stem hd hstem
    rw [String.toList_intercalate]
    refine List.splitOn_intercalate '/' ?_ (by simp)
    intro l hl
    obtain ⟨u, hu, rfl⟩ := List.mem_map.1 hl
    rcases List.mem_append.1 hu with hu | hu
    · exact hd.2 u hu
    · rw [List.mem_singleton.1 hu]
      exact hstem
  have hpath : "/".intercalate (e.scope ++ [e.stemOr s]) =
      "/".intercalate (f.scope ++ [f.stemOr t]) := by
    rw [← hjoin he, ← hjoin hf, ← String.append_left_inj ending,
      ← String.append_right_inj (top ++ "/")]
    simpa only [filePath, String.append_assoc] using h
  have hlists : e.scope ++ [e.stemOr s] = f.scope ++ [f.stemOr t] := by
    refine List.map_injective_iff.2 (fun _ _ => String.toList_inj.1) ?_
    rw [← hsplit he hs, ← hsplit hf ht, hpath]
  obtain ⟨hscope, hstem⟩ := List.append_inj' hlists rfl
  exact ⟨hscope, by simpa using hstem⟩

end Endpoint
end ApiScribe

/-! Paths of call functions. Two endpoints are planned at one path exactly when an export is named
like the operation of another endpoint of its scope; their files are never the same then, so the
merge of the call functions alone comes through exactly when there is no such clash. -/
namespace ApiScribe
namespace Render

open Naming Endpoint

theorem eq_of_append_space {as bs xs ys : List Char} (ha : ' ' ∉ as) (hb : ' ' ∉ bs)
    (h : as ++ ' ' :: xs = bs ++ ' ' :: ys) : as = bs := by
  induction as generalizing bs with
  | nil =>
    cases bs with
    | nil => rfl
    | cons b bs =>
      rw [List.nil_append, List.cons_append] at h
      exact absurd (List.cons.inj h).1 fun hc => hb (hc ▸ List.mem_cons_self)
  | cons a as ih =>
    cases bs with
    | nil =>
      rw [List.nil_append, List.cons_append] at h
      exact absurd (List.cons.inj h).1 fun hc => ha (hc ▸ List.mem_cons_self)
    | cons b bs =>
      rw [List.cons_append, List.cons_append] at h
      obtain ⟨hab, h⟩ := List.cons.inj h
      rw [hab, ih (fun hc => ha (List.mem_cons_of_mem a hc))
        (fun hc => hb (List.mem_cons_of_mem b hc)) h]

theorem space_not_mem_builderName {e : Endpoint} (h : e.IsNamed) :
    ' ' ∉ e.builderName.toList := by
  have hw : IsWordText e.builderName.toList := by
    rw [h.builder, String.toList_append, String.toList_append]
    exact (IsWordText.append (by decide) (isWordText_pascal _)).append
      (by decide)
  exact fun hc => absurd (hw _ hc) (by decide)

/-- Call functions with one text import one builder. -/
theorem builderName_eq_of_content {a : Api} {e f : Endpoint} {path builder : String}
    (he : e.IsNamed) (hf : f.IsNamed)
    (h : (functionFile a e path builder).content = (functionFile a f path builder).content) :
    e.builderName = f.builderName := by
  have hlist := congrArg String.toList h
  simp only [functionFile, functionLines, fileText, importOf, String.toList_join, List.map_append,
    List.flatMap_append, List.map_cons, List.flatMap_cons, String.toList_append,
    List.append_assoc, List.append_cancel_left_eq] at hlist
  rw [← String.toList_inj]
  exact eq_of_append_space (space_not_mem_builderName he) (space_not_mem_builderName hf) hlist

/-- Of endpoints that clash the builders have different names. -/
theorem builderName_ne_of_clash {e f : Endpoint} (he : e.IsNamed) (hf : f.IsNamed)
    (h : e.exportName = f.operationName) : e.builderName ≠ f.builderName := by
  intro hname
  rw [he.builder, hf.builder, String.append_left_inj, String.append_right_inj] at hname
  have hcount := congrArg (fun s => s.toList.countP isWordChar) hname
  simp only [countP_pascal, h] at hcount
  have hout := hf.outgrows.2
  have hle : f.operationName.toList.countP isWordChar ≤ f.operationName.toList.length :=
    List.countP_le_length
  omega

/-- The paths of the two files of an endpoint. -/
def functionPaths (es : List Endpoint) (e : Endpoint) : List String :=
  [builderPath e (stem es e), functionPath e (stem es e)]

theorem map_path_functions (a : Api) :
    (functions a).files.map (·.path) = a.endpoints.flatMap (functionPaths a.endpoints) := by
  rw [functions, List.map_flatMap]
  rfl

theorem builderPath_ne_functionPath (e f : Endpoint) (s t : String) :
    builderPath e s ≠ functionPath f t := by
  intro h
  have hhead := congrArg (fun s => s.toList.head?) h
  simp [builderPath, functionPath, filePath, String.toList_append] at hhead

/-- Endpoints with a file path in common have the scope and the file name in common. -/
theorem stem_eq_of_functionPaths {es : List Endpoint} (h : AreNamed es) {e f : Endpoint}
    (he : e ∈ es) (hf : f ∈ es) {path : String} (hpe : path ∈ functionPaths es e)
    (hpf : path ∈ functionPaths es f) :
    (e.scope, ownStem es e) = (f.scope, ownStem es f) := by
  have hfile : ∀ {top ending : String},
      e.filePath top (stem es e) ending = f.filePath top (stem es f) ending →
      (e.scope, ownStem es e) = (f.scope, ownStem es f) := by
    intro top ending hpath
    have hse := stemOr_stem h he
    have hsf := stemOr_stem h hf
    obtain ⟨hscope, hstem⟩ := filePath_injective (h.named e he).scope (h.named f hf).scope
      (by rw [hse]; exact slash_not_mem_ownStem es (h.named e he))
      (by rw [hsf]; exact slash_not_mem_ownStem es (h.named f hf)) hpath
    rw [hscope, ← hse, ← hsf, hstem]
  simp only [functionPaths, List.mem_cons, List.not_mem_nil, or_false] at hpe hpf
  rcases hpe with rfl | rfl
  · rcases hpf with hpath | hpath
    · exact hfile hpath
    · exact absurd hpath (builderPath_ne_functionPath _ _ _ _)
  · rcases hpf with hpath | hpath
    · exact absurd hpath.symm (builderPath_ne_functionPath _ _ _ _)
    · exact hfile hpath

theorem nodup_paths_of_nodup_stems {a : Api} (h : AreNamed a.endpoints)
    (hs : (a.endpoints.map fun e => (e.scope, ownStem a.endpoints e)).Nodup) :
    ((functions a).files.map (·.path)).Nodup := by
  rw [map_path_functions, List.nodup_flatMap]
  refine ⟨?_, ?_⟩
  · intro e _
    simp [functionPaths, builderPath_ne_functionPath]
  · have hpairs := List.pairwise_map.1 hs
    refine List.Pairwise.imp_of_mem ?_ hpairs
    intro e f he hf hne path hpe hpf
    exact hne (stem_eq_of_functionPaths h he hf hpe hpf)

/-- Files of endpoints that clash do not agree. -/
theorem not_hasClash_of_agree {a : Api} (h : AreNamed a.endpoints)
    (hagree : Pipeline.Agree (functions a).files) : ¬ HasClash a.endpoints := by
  rintro ⟨e, he, f, hf, hscope, hse, hsf, hname⟩
  have hor : e.stemOr (stem a.endpoints e) = f.stemOr (stem a.endpoints f) := by
    rw [stemOr_stem h he, stemOr_stem h hf, ownStem, ownStem, if_pos hse, if_neg (by simp [hsf]),
      hname]
  have hpath : ∀ top ending, e.filePath top (stem a.endpoints e) ending =
      f.filePath top (stem a.endpoints f) ending := by
    intro top ending
    rw [filePath, filePath, hscope, hor]
  have hfile : ∀ d ∈ a.endpoints, functionFile a d (functionPath d (stem a.endpoints d))
      (builderPath d (stem a.endpoints d)) ∈ (functions a).files := by
    intro d hd
    exact List.mem_flatMap.2 ⟨d, hd, by simp [functionFiles]⟩
  have hcontent := hagree _ (hfile e he) _ (hfile f hf) (hpath _ _)
  rw [show functionPath e (stem a.endpoints e) = functionPath f (stem a.endpoints f) from hpath ..,
    show builderPath e (stem a.endpoints e) = builderPath f (stem a.endpoints f) from hpath ..]
    at hcontent
  exact builderName_ne_of_clash (h.named e he) (h.named f hf) hname
    (builderName_eq_of_content (h.named e he) (h.named f hf) hcontent)

end Render

namespace Pipeline

open Endpoint

/-- The renderer of call functions. -/
def functionsRenderer : Renderer := { id := "functions", render := Render.functions }

theorem create_functions : Registry.builtin.create "functions" = .ok functionsRenderer := rfl

/-- A pipeline that plans call functions only. -/
def functionsOnly (p : Pipeline) : Pipeline := { p with renderers := [functionsRenderer] }

theorem render_functionsOnly_of_agree (p : Pipeline) {a : Api}
    (h : Agree (Render.functions a).files) :
    ∃ reports files, p.functionsOnly.render a = .ok (reports, files) := by
  obtain ⟨owned, howned⟩ := addFiles_of_agree "functions" h
  refine ⟨_, _, Outcome.bind_eq_ok.2 ⟨_, Outcome.bind_eq_ok.2 ⟨owned, howned, rfl⟩, rfl⟩⟩

theorem render_functionsOnly_of_not_agree (p : Pipeline) {a : Api}
    (h : ¬ Agree (Render.functions a).files) :
    ∃ path, p.functionsOnly.render a =
      .fail (.conflictingFiles "functions" "functions" path) := by
  obtain ⟨f, -, hfail⟩ := addFiles_of_not_agree "functions" h
  refine ⟨f.path, ?_⟩
  have honto : renderOnto a [] [functionsRenderer] =
      .fail (.conflictingFiles "functions" "functions" f.path) := by
    show ((Render.functions a).files.foldlM (addFile "functions") [] >>= _) = _
    rw [hfail]
    rfl
  show (renderOnto a [] [functionsRenderer] >>= _) = _
  rw [honto]
  rfl

/-- For the endpoints of a document, however transformed: file names differ within scopes, all
planned paths differ, and call functions are merged, exactly when there is no clash of an export
with the operation of another endpoint; with a clash the merge reports a path planned twice. -/
theorem functionPaths_tfae_not_hasClash (p : Pipeline) {document : Value} {a : Api}
    (hd : HasDistinctPaths document) (h : p.transformed document = .ok a) :
    [¬ HasClash a.endpoints,
      (a.endpoints.map fun e => (e.scope, e.stemOr (stem a.endpoints e))).Nodup,
      ((Render.functions a).files.map (·.path)).Nodup,
      ∃ reports files, p.functionsOnly.render a = .ok (reports, files)].TFAE ∧
    (HasClash a.endpoints → ∃ path, p.functionsOnly.render a =
      .fail (.conflictingFiles "functions" "functions" path)) := by
  have hnamed := areNamed_transformed hd h
  have hstems : (a.endpoints.map fun e => (e.scope, e.stemOr (stem a.endpoints e))) =
      a.endpoints.map fun e => (e.scope, ownStem a.endpoints e) := by
    refine List.map_congr_left ?_
    intro e he
    rw [stem_eq_ownStem hnamed.places he, stemOr_ownStem (hnamed.named e he)]
  refine ⟨?_, ?_⟩
  · rw [hstems]
    tfae_have 1 → 2 := (nodup_stems_iff hnamed).2
    tfae_have 2 → 3 := Render.nodup_paths_of_nodup_stems hnamed
    tfae_have 3 → 4 := fun hpaths => render_functionsOnly_of_agree p (agree_of_nodup hpaths)
    tfae_have 4 → 1 := by
      rintro ⟨reports, files, hrender⟩
      by_cases hagree : Agree (Render.functions a).files
      · exact Render.not_hasClash_of_agree hnamed hagree
      · obtain ⟨path, hfail⟩ := render_functionsOnly_of_not_agree p hagree
        rw [hrender] at hfail
        cases hfail
    tfae_finish
  · intro hclash
    exact render_functionsOnly_of_not_agree p fun hagree =>
      Render.not_hasClash_of_agree hnamed hagree hclash

def taggedOperation (id : String) : Value :=
  .record [("operationId", .str id), ("tags", .ofStrings ["pets"])]

/-- Two operations are both called `add` in their scope, and the first of them is exported as
`petsAdd`, which is what the third is called. -/
def clashingDocument : Value :=
  .record [("paths", .record [("/a", .record [("get", taggedOperation "GetMainAPIPetsAdd"),
    ("post", taggedOperation "PostMainAPIPetsAdd"), ("put", taggedOperation "petsAdd")])])]

def clashingEndpoints : List Endpoint :=
  [{ scope := ["pets"], operationName := "add", exportName := "petsAdd",
     builderName := "buildPetsAddSpec", method := "GET", path := "/a", supportsQuery := true,
     supportsMutation := false },
   { scope := ["pets"], operationName := "add", exportName := "petsAddPost",
     builderName := "buildPetsAddPostSpec", method := "POST", path := "/a" },
   { scope := ["pets"], operationName := "petsAdd", exportName := "petsPetsAdd",
     builderName := "buildPetsPetsAddSpec", method := "PUT", path := "/a" }]

theorem hasDistinctPaths_clashingDocument : HasDistinctPaths clashingDocument := by
  intro root paths hroot hpaths
  cases hroot
  cases hpaths
  exact List.pairwise_singleton _ _

theorem ofDocument_clashingDocument :
    ofDocument clashingDocument = .ok { endpoints := clashingEndpoints } := by
  decide +kernel

theorem transformed_clashingDocument :
    ({} : Pipeline).transformed clashingDocument = .ok { endpoints := clashingEndpoints } := by
  have hsort : clashingEndpoints.mergeSort precedes = clashingEndpoints :=
    List.mergeSort_of_pairwise (by decide)
  have hpasses : Pass.applyAll [.normalize] clashingEndpoints = .ok clashingEndpoints := by
    rw [Pass.applyAll, Pass.apply, hsort]
    rfl
  exact transformed_eq_ok.2 ⟨_, _, ofDocument_clashingDocument, hpasses, rfl⟩

/-- The pipeline takes the document but plans two of its functions at one path. -/
theorem not_nodup_paths_clashingDocument :
    ¬ ((Render.functions { endpoints := clashingEndpoints }).files.map (·.path)).Nodup ∧
    ∃ path, ({} : Pipeline).functionsOnly.render { endpoints := clashingEndpoints } =
      .fail (.conflictingFiles "functions" "functions" path) := by
  obtain ⟨htfae, hfail⟩ := functionPaths_tfae_not_hasClash {} hasDistinctPaths_clashingDocument
    transformed_clashingDocument
  have hclash : HasClash clashingEndpoints := by decide
  have hpaths := htfae.out 2 0 rfl rfl
  exact ⟨fun hnodup => hpaths.1 hnodup hclash, hfail hclash⟩

theorem render_clashingDocument :
    (({} : Pipeline).transformed clashingDocument >>= ({} : Pipeline).functionsOnly.render) =
      .fail (.conflictingFiles "functions" "functions" "spec/endpoints/pets/petsAdd.ts") := by
  rw [transformed_clashingDocument]
  decide

end Pipeline
end ApiScribe
