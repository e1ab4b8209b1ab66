import ApiScribe.Proofs.Pipeline.Imports
import ApiScribe.Proofs.Pipeline.Order
import ApiScribe.Proofs.Workspace.Interrupted

/-! Paths of planned files. Whatever tags, operation ids and paths a document has, the files that are
planned for it are named with letters, digits and a few signs, in directories that only go down. So
whatever happens while they are written, no file outside the output directory is touched. -/
namespace ApiScribe
namespace Naming

/-- A text in `get-order-list` style has no capitals, and hyphens are its only signs. -/
theorem forall_mem_of_isKebabFrom {before : LetterClass} {cs : List Char}
    (h : IsKebabFrom before cs) :
    ∀ c ∈ cs, c.isLower = true ∨ c.isDigit = true ∨ c = '-' := by
  induction cs generalizing before with
  | nil => simp
  | cons c cs ih =>
    rw [List.forall_mem_cons]
    rw [IsKebabFrom] at h
    split at h
    · exact h.elim
    · next hc => exact ⟨.inl ((isLower_iff c).2 ((classOf_eq_lower_iff c).1 hc)), ih h.2⟩
    · next hc => exact ⟨.inr (.inl ((isDigit_iff c).2 ((classOf_eq_digit_iff c).1 hc))), ih h.2⟩
    · exact ⟨.inr (.inr h.1), ih h.2.2⟩

end Naming

namespace Endpoint

open Naming

/-- A text of letters, digits and underscores. -/
def IsNameText (s : String) : Prop := ∀ c ∈ s.toList, c.isAlphanum = true ∨ c = '_'

instance (s : String) : Decidable (IsNameText s) :=
  List.decidableBAll (fun c : Char => c.isAlphanum = true ∨ c = '_') s.toList

theorem IsNameText.append {s t : String} (hs : IsNameText s) (ht : IsNameText t) :
    IsNameText (s ++ t) := by
  rw [IsNameText, String.toList_append, List.forall_mem_append]
  exact ⟨hs, ht⟩

theorem isNameText_of_isWordText {s : String} (h : IsWordText s.toList) : IsNameText s :=
  fun c hc => .inl (isWordChar_eq_isAlphanum c ▸ h c hc)

theorem isNameText_pascal (s : String) : IsNameText (pascal s) :=
  isNameText_of_isWordText (isWordText_pascal s)

theorem isNameText_of_mem_nameCandidates {e : Endpoint} {s : String} (hs : s ∈ e.nameCandidates) :
    IsNameText s := by
  refine forall_mem_nameCandidates (fun count => ?_) (fun _ t h => h.append (isNameText_pascal t))
    (fun _ h => h.append (by decide)) s hs
  obtain ⟨hscope, -, -⟩ := normalizeName_of_isWordText
    (isWordText_camel ("-".intercalate (e.scope.drop (e.scope.length - count))))
  exact (isNameText_of_isWordText hscope).append (isNameText_pascal _)

theorem IsNameText.firstSerial {base : String} (h : IsNameText base) (used : List String)
    (index : Nat) : IsNameText (firstSerial used base used.length index) := by
  obtain ⟨k, hk, -⟩ := exists_firstSerial used base index
  rw [hk]
  refine (h.append (by decide)).append (isNameText_of_isWordText fun c hc => ?_)
  rw [isWordChar_iff]
  exact .inr (.inr ((isDigit_iff c).1 (isDigit_of_mem_toString hc)))

/-- However the endpoints of a document are transformed, their export names are letters, digits and
underscores. -/
theorem isNameText_exportName_transformed {p : Pipeline} {document : Value} {a : Api}
    (h : p.transformed document = .ok a) {e : Endpoint} (he : e ∈ a.endpoints) :
    IsNameText e.exportName := by
  obtain ⟨c, es, hc, hes, rfl⟩ := Pipeline.transformed_eq_ok.1 h
  obtain ⟨ds, hds, hx⟩ := exists_extracted hc
  have hscope : ∀ d ∈ c.endpoints, d.scope ≠ [] := fun d hd =>
    (isNamed_nameAll hx d (hds ▸ hd)).scope.1
  have hperm := Pass.identity_applyAll_perm hscope hes
  obtain ⟨d, hd, hi⟩ := List.mem_map.1 (hperm.mem_iff.1 (List.mem_map_of_mem he))
  have hexport : d.exportName = e.exportName := congrArg Identity.exportName hi
  rw [hds] at hd
  obtain ⟨d, -, used, rfl⟩ := exists_of_mem_nameFrom [] ds hd
  rw [← hexport]
  exact chooseName_of_forall (by simp [nameCandidates])
    (fun _ => isNameText_of_mem_nameCandidates) (fun _ h => h.firstSerial) used

end Endpoint

/-- The endings of generated files. -/
def Render.endings : List String := [".ts", ".query.ts", ".mutation.ts", ".js"]

/-- A relative path of named steps: its directories have names of small letters, digits and hyphens,
and its file has a name of letters, digits and underscores with an ending behind it. -/
structure IsOutputPath (path : String) : Prop where
  relative : Path.isAbsolute path = false
  steps : ∀ s ∈ Path.steps path, s ≠ "" ∧ s ≠ "." ∧ s ≠ ".."
  directories : ∀ s ∈ (Path.steps path).dropLast, ∀ c ∈ s.toList,
    c.isLower = true ∨ c.isDigit = true ∨ c = '-'
  file : ∃ name ending, (Path.steps path).getLast? = some (name ++ ending) ∧ name ≠ "" ∧
    (∀ c ∈ name.toList, c.isAlphanum = true ∨ c = '_') ∧ ending ∈ Render.endings

namespace Path

open Location

/-- A name of small letters, digits and hyphens. -/
structure IsDirectoryName (s : String) : Prop where
  ne_empty : s ≠ ""
  chars : ∀ c ∈ s.toList, c.isLower = true ∨ c.isDigit = true ∨ c = '-'

instance (s : String) : Decidable (IsDirectoryName s) :=
  decidable_of_iff (s ≠ "" ∧ s.toList.all (fun c => c.isLower || c.isDigit || c == '-') = true)
    ⟨fun ⟨hne, hchars⟩ => ⟨hne, by simpa [or_assoc] using hchars⟩,
      fun h => ⟨h.ne_empty, by simpa [or_assoc] using h.chars⟩⟩

theorem isDirectoryName_of_isKebab {s : String} (h : Naming.IsKebab s) : IsDirectoryName s :=
  ⟨by simpa using h.ne_nil, Naming.forall_mem_of_isKebabFrom h⟩

theorem IsDirectoryName.isDown {s : String} (h : IsDirectoryName s) : IsDown [s] := by
  obtain ⟨c, hc⟩ := List.exists_mem_of_ne_nil s.toList (by simpa using h.ne_empty)
  have hnot : ∀ d : Char, (d.isLower = true ∨ d.isDigit = true ∨ d = '-') = False →
      d ∉ s.toList := fun d hd hmem => hd ▸ h.chars d hmem
  exact isDown_singleton hc (ne_of_mem_of_not_mem hc (hnot '.' (by decide))) (hnot '/' (by decide))

theorem isDown_of_forall {ss : List String} (h : ∀ s ∈ ss, IsDown [s]) : IsDown ss :=
  ⟨fun s hs => (h s hs).plain s (List.mem_singleton_self s),
    fun hmem => (h ".." hmem).up (List.mem_singleton_self _)⟩

theorem isDown_fileName {name ending : String} (hne : name ≠ "")
    (hname : Endpoint.IsNameText name) (hending : ending ∈ Render.endings) :
    IsDown [name ++ ending] := by
  obtain ⟨c, hc⟩ := List.exists_mem_of_ne_nil name.toList (by simpa using hne)
  have hsign : ∀ {d : Char}, (d.isAlphanum = true ∨ d = '_') = False → d ∉ name.toList :=
    fun hd hmem => hd ▸ hname _ hmem
  have hslash : ∀ ending ∈ Render.endings, '/' ∉ ending.toList := by decide
  refine isDown_singleton (c := c) (by simp [hc]) ?_ ?_
  · exact ne_of_mem_of_not_mem hc (hsign (by decide))
  · rw [String.toList_append, List.mem_append, not_or]
    exact ⟨hsign (by decide), hslash ending hending⟩

/-- Directories and a file name make an output path. -/
theorem isOutputPath_intercalate {ds : List String} {name ending : String}
    (hds : ∀ d ∈ ds, IsDirectoryName d) (hne : name ≠ "") (hname : Endpoint.IsNameText name)
    (hending : ending ∈ Render.endings) :
    IsOutputPath ("/".intercalate (ds ++ [name ++ ending])) := by
  have hdown : IsDown (ds ++ [name ++ ending]) :=
    isDown_append.2 ⟨isDown_of_forall fun d hd => (hds d hd).isDown, isDown_fileName hne hname hending⟩
  have hsteps := hdown.steps (by simp)
  refine ⟨hdown.isAbsolute (by simp), ?_, ?_, name, ending, ?_, hne, hname, hending⟩
  · rw [hsteps]
    intro s hs
    have hstep := (hdown.plain s hs).step
    simp only [isStep, Bool.and_eq_true, decide_eq_true_eq] at hstep
    exact ⟨hstep.1, hstep.2, ne_of_mem_of_not_mem hs hdown.up⟩
  · rw [hsteps, List.dropLast_concat]
    exact fun d hd => (hds d hd).chars
  · rw [hsteps, List.getLast?_concat]

/-- A file name alone is an output path. -/
theorem isOutputPath_fileName {name ending : String} (hne : name ≠ "")
    (hname : Endpoint.IsNameText name) (hending : ending ∈ Render.endings) :
    IsOutputPath (name ++ ending) := by
  have hpath := @isOutputPath_intercalate [] name ending (by simp) hne hname hending
  rwa [List.nil_append, String.intercalate_singleton] at hpath

end Path

namespace IsOutputPath

open Location Path
variable {path : String}

theorem isDown (h : IsOutputPath path) : IsDown (Path.steps path) := by
  refine ⟨fun s hs => ⟨?_, ?_⟩, fun hmem => (h.steps _ hmem).2.2 rfl⟩
  · obtain ⟨hempty, hpoint, -⟩ := h.steps s hs
    simp [isStep, hempty, hpoint]
  · obtain ⟨piece, hpiece, rfl⟩ := List.mem_map.1 hs
    simpa using Text.not_mem_of_mem_splitAt hpiece

/-- An output path is the location of its steps. -/
theorem ofPath_eq (h : IsOutputPath path) : ofPath path = ⟨"", Path.steps path⟩ := by
  rw [ofPath, Path.lead, h.relative, filter_isStep h.isDown.plain]
  rfl

theorem isDirectoryName (h : IsOutputPath path) :
    ∀ s ∈ (Path.steps path).dropLast, IsDirectoryName s :=
  fun s hs => ⟨(h.steps s (List.mem_of_mem_dropLast hs)).1, h.directories s hs⟩

/-- An output path is its own normal form. -/
theorem normalSteps_eq (h : IsOutputPath path) : normalSteps false (Path.steps path) =
    Path.steps path := by
  rw [normalSteps, foldl_step h.isDown.up, List.append_nil, List.reverse_reverse,
    filter_isStep h.isDown.plain]

theorem isInside (h : IsOutputPath path) : IsInside path :=
  ⟨h.relative, by rw [h.normalSteps_eq]; exact h.isDown.up⟩

end IsOutputPath

namespace Render

open Endpoint Naming Path

/-- The file of an endpoint below directories. -/
theorem isOutputPath_filePath {es : List Endpoint} {tops : List String} {e : Endpoint}
    {ending : String} (htops : tops ≠ []) (hdirectories : ∀ t ∈ tops, IsDirectoryName t)
    (hscope : e.HasKebabScope) (hne : e.stemOr (stem es e) ≠ "")
    (hname : IsNameText (e.stemOr (stem es e))) (hending : ending ∈ endings) :
    IsOutputPath (e.filePath ("/".intercalate tops) (stem es e) ending) := by
  rw [filePath_eq htops hscope.1, intercalate_concat]
  refine isOutputPath_intercalate ?_ hne hname hending
  exact List.forall_mem_append.2
    ⟨hdirectories, fun s hs => isDirectoryName_of_isKebab (hscope.2 s hs)⟩

theorem isOutputPath_classPath (group : String) : IsOutputPath (className group ++ ".ts") := by
  have hne : className group ≠ "" := by
    intro hempty
    have hlength := congrArg String.length hempty
    simp [className] at hlength
  have hname : IsNameText (className group) := by
    rw [className, nonEmptyOr]
    refine IsNameText.append ?_ (by decide)
    split
    · decide
    · exact isNameText_pascal group
  exact isOutputPath_fileName hne hname (by decide)

end Render

namespace Layout

open Location Path

/-- A barrel stands in a directory of planned files, or above one. -/
theorem isOutputPath_barrel {roots : List String} {files : List PlannedFile}
    (h : ∀ f ∈ files, IsOutputPath f.path) {d : Location} (hd : GetsBarrel roots files d) :
    IsOutputPath (Barrel.path d) := by
  obtain ⟨f, hf, -, root, -, hclimb⟩ := hd
  have hpath := (h f hf).ofPath_eq
  have hlead : d.lead = "" := by rw [hclimb.lead, hpath]
  have hdirectories : ∀ s ∈ d.steps, IsDirectoryName s := by
    intro s hs
    have habove := hclimb.above.subset hs
    rw [hpath] at habove
    exact (h f hf).isDirectoryName s habove
  have hindex : d.steps ++ [Barrel.indexName] = d.steps ++ ["index" ++ ".ts"] := rfl
  have hdown : IsDown (d.steps ++ [Barrel.indexName]) :=
    isDown_append.2 ⟨isDown_of_forall fun s hs => (hdirectories s hs).isDown, by decide⟩
  rw [Barrel.path_eq, hlead, text_of_ne_nil (by simp) hdown.plain, hindex]
  exact isOutputPath_intercalate hdirectories (by decide) (by decide) (by decide)

/-- However planned files are laid out, their paths remain output paths. -/
theorem isOutputPath_apply (layout : Layout) {files : List PlannedFile}
    (h : ∀ f ∈ files, IsOutputPath f.path) : ∀ f ∈ layout.apply files, IsOutputPath f.path := by
  have hrel : AreRelative files := fun f hf _ => congrArg Location.lead (h f hf).ofPath_eq
  intro f hf
  cases layout with
  | plain => exact h f hf
  | barrels roots =>
    rcases List.mem_append.1 hf with hf | hf
    · exact h f (List.mem_filter.1 hf).1
    · obtain ⟨d, hd, rfl⟩ := (mem_barrelsOf hrel).1 hf
      exact isOutputPath_barrel h hd

end Layout

/-- Formatting keeps paths. -/
theorem Formatter.map_path_formatAll {formatter : Formatter} {files fs : List PlannedFile}
    (h : formatter.formatAll files = .ok fs) : fs.map (·.path) = files.map (·.path) := by
  have heach := Outcome.mapM_eq_ok.1 h
  clear h
  induction heach with
  | nil => rfl
  | cons hf _ ih =>
    obtain ⟨content, -, hf⟩ := Outcome.bind_eq_ok.1 hf
    cases hf
    rw [List.map_cons, List.map_cons, ih]

namespace Pipeline

open Endpoint Render Path

variable {p : Pipeline} {document : Value} {a : Api}

/-- Whatever comes with the tool plans output paths only. -/
theorem isOutputPath_of_mem_render (hp : Pass.normalize ∈ p.passes)
    (h : p.transformed document = .ok a) {r : Renderer} (hr : r ∈ Renderer.builtins)
    {f : PlannedFile} (hf : f ∈ (r.render a).files) : IsOutputPath f.path := by
  by_cases hid : r.id ∈ endpointRenderers
  · have hfile : ∀ e ∈ a.endpoints, ∀ tops ending, tops ≠ [] → (∀ t ∈ tops, IsDirectoryName t) →
        ending ∈ endings →
        IsOutputPath (e.filePath ("/".intercalate tops) (stem a.endpoints e) ending) := by
      intro e he tops ending htops hdirectories hending
      have hnamed := isNamed_transformed h
      have hstem := isFileName_stemOr hnamed (operationName_transformed hp h) he
      have hne : e.stemOr (stem a.endpoints e) ≠ "" := by
        intro hempty
        obtain ⟨c, hc, -⟩ := hstem.word
        rw [hempty] at hc
        cases hc
      have hname : IsNameText (e.stemOr (stem a.endpoints e)) := by
        obtain ⟨d, hd, hname | hname⟩ := exists_stemOr a.endpoints he
        · rw [hname]
          exact isNameText_of_isWordText (hnamed d hd).operation
        · rw [hname]
          exact isNameText_exportName_transformed h hd
      exact isOutputPath_filePath htops hdirectories (hasKebabScope_transformed h he) hne hname hending
    obtain ⟨e, he, hf | ⟨library, hlibrary, kind, hpath⟩⟩ :=
      exists_of_mem_render hid (Registry.create_builtin_eq_ok.2 ⟨hr, rfl⟩) hf
    · rcases List.mem_pair.1 hf with rfl | rfl
      · exact hfile e he ["spec", "endpoints"] ".ts" (by simp) (by decide) (by decide)
      · exact hfile e he ["functions", "api"] ".ts" (by simp) (by decide) (by decide)
    · have htop : ∀ library ∈ [reactHooks, vueHooks], IsDirectoryName library.directory := by decide
      have hending : kind.ending ∈ endings := by cases kind <;> decide
      have hone : "/".intercalate [library.directory] = library.directory :=
        String.intercalate_singleton
      rw [hpath, hookPath, ← hone]
      exact hfile e he [library.directory] kind.ending (by simp)
        (List.forall_mem_singleton.2 (htop library hlibrary)) hending
  · rcases Renderer.path_of_mem_render hr hid hf with ⟨-, group, hpath⟩ | ⟨-, hpath⟩
    · rw [hpath]
      exact isOutputPath_classPath group
    · rw [hpath]
      exact @isOutputPath_fileName "index" ".js" (by decide) (by decide) (by decide)

/-- Whatever the document holds, every renderer that comes with the tool plans output paths only, and
they are still such when they are laid out and formatted. Writing them to a directory changes no
file but below that directory, even if it fails. -/
theorem isOutputPath_of_planned (p : Pipeline) (hp : Pass.normalize ∈ p.passes)
    (h : p.transformed document = .ok a) :
    (∀ r ∈ Renderer.builtins, ∀ f ∈ (r.render a).files, IsOutputPath f.path) ∧
    (∀ d, (∀ r ∈ p.renderers, r ∈ Renderer.builtins ∨ r = .noop) → p.draft document = .ok d →
      ∀ f ∈ d.files, IsOutputPath f.path) ∧
    ∀ files : List PlannedFile, (∀ f ∈ files, IsOutputPath f.path) → ∀ root w q,
      ((Job.writeFiles root files).run w).2.tree.file? q ≠ w.tree.file? q →
      ∃ f ∈ files, q = root.place w.current ++ steps f.path := by
  have hplanned : ∀ r ∈ Renderer.builtins, ∀ f ∈ (r.render a).files, IsOutputPath f.path :=
    fun r hr f hf => isOutputPath_of_mem_render hp h hr hf
  have hwritten : ∀ files : List PlannedFile, (∀ f ∈ files, IsOutputPath f.path) → ∀ root w q,
      ((Job.writeFiles root files).run w).2.tree.file? q ≠ w.tree.file? q →
      ∃ f ∈ files, q = root.place w.current ++ steps f.path := by
    intro files hfiles root w q hq
    obtain ⟨f, hf, hplace⟩ :=
      Job.exists_of_file?_writeFiles_ne_inside (fun f hf => (hfiles f hf).isInside) hq
    exact ⟨f, hf, (hfiles f hf).normalSteps_eq ▸ hplace⟩
  refine ⟨hplanned, fun d hrenderers hd => ?_, hwritten⟩
  obtain ⟨b, hb, hd⟩ := Outcome.bind_eq_ok.1 hd
  obtain rfl : b = a := Except.ok.inj (hb.symm.trans h)
  obtain ⟨⟨reports, merged⟩, hmerged, hd⟩ := Outcome.bind_eq_ok.1 hd
  obtain ⟨formatted, hformatted, hd⟩ := Outcome.bind_eq_ok.1 hd
  cases hd
  have hmergedPaths : ∀ f ∈ merged, IsOutputPath f.path := by
    intro f hf
    obtain ⟨r, hr, hf⟩ := (mem_render_iff hmerged).1 hf
    rcases hrenderers r hr with hr | rfl
    · exact hplanned r hr f hf
    · cases hf
  intro f hf
  have hpath : f.path ∈ (p.layout.apply merged).map (·.path) := by
    rw [← Formatter.map_path_formatAll hformatted]
    exact List.mem_map_of_mem hf
  obtain ⟨g, hg, hpath⟩ := List.mem_map.1 hpath
  exact hpath ▸ Layout.isOutputPath_apply p.layout hmergedPaths g hg

/-- The renderers of `sharedPipeline` with barrels for call functions. -/
def barrelPipeline : Pipeline := { sharedPipeline with layout := .barrels ["functions"] }

/-- The files and barrels of `barrelPipeline` are drafted with output paths, and writing them changes
no file but below the directory that they are written to. -/
theorem isOutputPath_barrelPipeline : barrelPipeline.transformed indexDocument = .ok sharedApi ∧
    ∃ d, barrelPipeline.draft indexDocument = .ok d ∧ (∀ f ∈ d.files, IsOutputPath f.path) ∧
      ∀ root w q, ((Job.writeFiles root d.files).run w).2.tree.file? q ≠ w.tree.file? q →
        ∃ f ∈ d.files, q = root.place w.current ++ steps f.path := by
  have htransformed : barrelPipeline.transformed indexDocument = .ok sharedApi :=
    transformed_sharedPipeline
  obtain ⟨reports, files, hrender, -⟩ := exists_render_sharedPipeline
  have hrenderers : ∀ r ∈ barrelPipeline.renderers, r ∈ Renderer.builtins ∨ r = .noop := by
    intro r hr
    simp only [barrelPipeline, sharedPipeline, List.mem_cons, List.not_mem_nil, or_false] at hr
    rcases hr with rfl | rfl | rfl <;> exact .inl (by simp [Renderer.builtins, functionsRenderer])
  have hdraft : barrelPipeline.draft indexDocument =
      .ok ⟨_, _, reports, barrelPipeline.layout.apply files⟩ :=
    Outcome.bind_eq_ok.2 ⟨_, htransformed, Outcome.bind_eq_ok.2 ⟨_, hrender,
      Outcome.bind_eq_ok.2 ⟨_, formatAll_none _, rfl⟩⟩⟩
  obtain ⟨-, hdrafted, hwritten⟩ :=
    isOutputPath_of_planned barrelPipeline List.mem_cons_self htransformed
  have hpaths := hdrafted _ hrenderers hdraft
  exact ⟨htransformed, _, hdraft, hpaths, hwritten _ hpaths⟩

end Pipeline
end ApiScribe
