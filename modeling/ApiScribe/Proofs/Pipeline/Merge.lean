import ApiScribe.Pipeline
import ApiScribe.Proofs.Entries
import ApiScribe.Proofs.Outcome

/-! Merging planned files. Files are added one by one to those planned before, and each is kept with
its first owner. All of them come through exactly when files of one path have one content; the merge
stops at the first file that breaks this and names its owner and that of the other content. -/
namespace ApiScribe
namespace Pipeline

/-- Files of one path have one content. -/
def Agree (files : List PlannedFile) : Prop :=
  ∀ f ∈ files, ∀ g ∈ files, f.path = g.path → f.content = g.content

theorem Agree.mono {files more : List PlannedFile} (h : Agree more) (hsub : files ⊆ more) :
    Agree files :=
  fun f hf g hg => h f (hsub hf) g (hsub hg)

/-- Files of different paths agree. -/
theorem agree_of_nodup {files : List PlannedFile} (h : (files.map (·.path)).Nodup) :
    Agree files := by
  intro f hf g hg hpath
  rw [List.inj_on_of_nodup_map h hf hg hpath]

theorem file_eq {f g : PlannedFile} (hpath : f.path = g.path)
    (hcontent : f.content = g.content) : f = g := by
  obtain ⟨_, _⟩ := f
  obtain ⟨_, _⟩ := g
  exact congrArg₂ PlannedFile.mk hpath hcontent

/-- What holds after adding files, each planned by an owner: every file added is there, and what is
there was added, every path once. -/
structure Merged (planned : List (String × PlannedFile)) (owned : Entries String OwnedFile) :
    Prop where
  kept : ∀ p ∈ planned, ∃ c, owned.get? p.2.path = some c ∧ c.file = p.2
  origin : ∀ c ∈ owned, (c.2.owner, c.2.file) ∈ planned ∧ c.2.file.path = c.1
  paths : owned.keys.Nodup

theorem Merged.empty : Merged [] [] where
  kept := by simp
  origin := by simp
  paths := List.nodup_nil

theorem Merged.agree {planned : List (String × PlannedFile)} {owned : Entries String OwnedFile}
    (h : Merged planned owned) : Agree (planned.map (·.2)) := by
  intro f hf g hg hpath
  obtain ⟨p, hp, rfl⟩ := List.mem_map.1 hf
  obtain ⟨q, hq, rfl⟩ := List.mem_map.1 hg
  obtain ⟨c, hc, hcf⟩ := h.kept p hp
  obtain ⟨d, hd, hdg⟩ := h.kept q hq
  rw [hpath, hd] at hc
  cases hc
  rw [← hcf, ← hdg]

/-- What is there are the files that were added. -/
theorem Merged.mem_iff {planned : List (String × PlannedFile)} {owned : Entries String OwnedFile}
    (h : Merged planned owned) {f : PlannedFile} :
    f ∈ owned.map (fun c => c.2.file) ↔ f ∈ planned.map (·.2) := by
  constructor
  · intro hf
    obtain ⟨c, hc, rfl⟩ := List.mem_map.1 hf
    exact List.mem_map.2 ⟨_, (h.origin c hc).1, rfl⟩
  · intro hf
    obtain ⟨p, hp, rfl⟩ := List.mem_map.1 hf
    obtain ⟨c, hc, hfile⟩ := h.kept p hp
    exact List.mem_map.2 ⟨_, Entries.mem_of_get?_eq_some hc, hfile⟩

theorem Merged.nodup_paths {planned : List (String × PlannedFile)}
    {owned : Entries String OwnedFile} (h : Merged planned owned) :
    ((owned.map fun c => c.2.file).map (·.path)).Nodup := by
  have hkeys : (owned.map fun c => c.2.file).map (·.path) = owned.keys := by
    rw [List.map_map]
    exact List.map_congr_left fun c hc => (h.origin c hc).2
  rw [hkeys]
  exact h.paths

/-- A file that a merge stops at: its path has another content, planned by an owner. -/
def Stops (planned : List (String × PlannedFile)) (f : PlannedFile) (owner : String) : Prop :=
  ∃ g, (owner, g) ∈ planned ∧ g.path = f.path ∧ g.content ≠ f.content

/-- One more file leaves a merge of all, or its path has another content already. -/
theorem Merged.addFile {planned : List (String × PlannedFile)} {owned : Entries String OwnedFile}
    (h : Merged planned owned) (owner : String) (f : PlannedFile) :
    (∃ owned', Pipeline.addFile owner owned f = .ok owned' ∧
        Merged (planned ++ [(owner, f)]) owned') ∨
      ∃ other, Pipeline.addFile owner owned f = .fail (.conflictingFiles other owner f.path) ∧
        Stops planned f other := by
  unfold Pipeline.addFile
  cases hget : owned.get? f.path with
  | none =>
    left
    have hnew : f.path ∉ owned.keys := by
      intro hmem
      obtain ⟨c, hc, hpath⟩ := List.mem_map.1 hmem
      have hsome := Entries.get?_eq_some_of_mem h.paths hc
      rw [hpath, hget] at hsome
      cases hsome
    refine ⟨_, rfl, ?_, ?_, ?_⟩
    · intro p hp
      rcases List.mem_append.1 hp with hp | hp
      · obtain ⟨c, hc, hfile⟩ := h.kept p hp
        exact ⟨c, by rw [Entries.get?_append, hc]; rfl, hfile⟩
      · rw [List.mem_singleton.1 hp]
        exact ⟨⟨f, owner⟩, by rw [Entries.get?_append, hget]; simp [Entries.get?], rfl⟩
    · intro c hc
      rcases List.mem_append.1 hc with hc | hc
      · exact ⟨List.mem_append_left _ (h.origin c hc).1, (h.origin c hc).2⟩
      · rw [List.mem_singleton.1 hc]
        exact ⟨List.mem_append_right _ (List.mem_singleton_self _), rfl⟩
    · rw [Entries.keys, List.map_append]
      refine List.nodup_append.2 ⟨h.paths, List.nodup_singleton _, ?_⟩
      rintro k hk _ hf rfl
      exact hnew ((List.mem_singleton.1 hf : k = f.path) ▸ hk)
  | some c =>
    have hmem := Entries.mem_of_get?_eq_some hget
    obtain ⟨hplanned, hpath⟩ := h.origin _ hmem
    by_cases hcontent : c.file.content = f.content
    · left
      refine ⟨owned, if_pos hcontent, ?_, ?_, h.paths⟩
      · intro p hp
        rcases List.mem_append.1 hp with hp | hp
        · exact h.kept p hp
        · rw [List.mem_singleton.1 hp]
          exact ⟨c, hget, file_eq hpath hcontent⟩
      · exact fun d hd => ⟨List.mem_append_left _ (h.origin d hd).1, (h.origin d hd).2⟩
    · exact .inr ⟨c.owner, if_neg hcontent, c.file, hplanned, hpath, hcontent⟩

/-- Files with the owner that plans them. -/
def ownedBy (owner : String) (files : List PlannedFile) : List (String × PlannedFile) :=
  files.map fun f => (owner, f)

theorem Stops.mono {planned more : List (String × PlannedFile)} {f : PlannedFile} {owner : String}
    (h : Stops planned f owner) (hsub : planned ⊆ more) : Stops more f owner := by
  obtain ⟨g, hg, hpath, hcontent⟩ := h
  exact ⟨g, hsub hg, hpath, hcontent⟩

/-- Adding files after files: all come through, or one of them stops the merge. -/
theorem Merged.addFiles {planned : List (String × PlannedFile)} {owned : Entries String OwnedFile}
    (h : Merged planned owned) (owner : String) (files : List PlannedFile) :
    (∃ owned', files.foldlM (Pipeline.addFile owner) owned = .ok owned' ∧
        Merged (planned ++ ownedBy owner files) owned') ∨
      ∃ f ∈ files, ∃ other, files.foldlM (Pipeline.addFile owner) owned =
          .fail (.conflictingFiles other owner f.path) ∧
        Stops (planned ++ ownedBy owner files) f other := by
  induction files generalizing planned owned with
  | nil => exact .inl ⟨owned, rfl, by simpa [ownedBy] using h⟩
  | cons f files ih =>
    have hsplit : planned ++ ownedBy owner (f :: files) =
        (planned ++ [(owner, f)]) ++ ownedBy owner files := by simp [ownedBy]
    rw [List.foldlM_cons, hsplit]
    rcases h.addFile owner f with ⟨owned', hadd, hmerged⟩ | ⟨other, hadd, hstops⟩
    · rw [hadd]
      rcases ih hmerged with hrest | ⟨g, hg, other, hfail, hstops⟩
      · exact .inl hrest
      · exact .inr ⟨g, List.mem_cons_of_mem f hg, other, hfail, hstops⟩
    · rw [hadd, List.append_assoc]
      exact .inr ⟨f, List.mem_cons_self, other, rfl, hstops.mono (List.subset_append_left _ _)⟩

theorem map_snd_ownedBy (owner : String) (files : List PlannedFile) :
    (ownedBy owner files).map (·.2) = files := by
  rw [ownedBy, List.map_map]
  exact List.map_id _

/-- A merge of the files of one renderer comes through exactly when they agree, and otherwise
reports one of their paths. -/
theorem addFiles_of_agree (owner : String) {files : List PlannedFile} (h : Agree files) :
    ∃ owned, files.foldlM (addFile owner) [] = .ok owned := by
  rcases Merged.empty.addFiles owner files with ⟨owned, howned, -⟩ | ⟨f, hf, other, -, hstops⟩
  · exact ⟨owned, howned⟩
  · obtain ⟨g, hg, hpath, hcontent⟩ := hstops
    have hmem : g ∈ files := map_snd_ownedBy owner files ▸ List.mem_map_of_mem hg
    exact absurd (h g hmem f hf hpath) hcontent

theorem addFiles_of_not_agree (owner : String) {files : List PlannedFile} (h : ¬ Agree files) :
    ∃ f ∈ files, files.foldlM (addFile owner) [] =
      .fail (.conflictingFiles owner owner f.path) := by
  rcases Merged.empty.addFiles owner files with ⟨owned, -, hmerged⟩ | ⟨f, hf, other, hfail, hstops⟩
  · have hagree := hmerged.agree
    rw [List.nil_append, map_snd_ownedBy] at hagree
    exact absurd hagree h
  · obtain ⟨g, hg, -, -⟩ := hstops
    obtain ⟨d, -, hd⟩ := List.mem_map.1 hg
    rw [show other = owner from (congrArg Prod.fst hd).symm] at hfail
    exact ⟨f, hf, hfail⟩

/-- The files of a renderer, with the renderer as their owner. -/
def plannedBy (a : Api) (r : Renderer) : List (String × PlannedFile) :=
  ownedBy r.id (r.render a).files

theorem mem_plannedBy {a : Api} {rs : List Renderer} {owner : String} {f : PlannedFile} :
    (owner, f) ∈ rs.flatMap (plannedBy a) ↔ ∃ r ∈ rs, r.id = owner ∧ f ∈ (r.render a).files := by
  simp only [List.mem_flatMap, plannedBy, ownedBy, List.mem_map, Prod.mk.injEq]
  constructor
  · rintro ⟨r, hr, g, hg, rfl, rfl⟩
    exact ⟨r, hr, rfl, hg⟩
  · rintro ⟨r, hr, rfl, hf⟩
    exact ⟨r, hr, f, hf, rfl, rfl⟩

theorem map_snd_flatMap_plannedBy (a : Api) (rs : List Renderer) :
    (rs.flatMap (plannedBy a)).map (·.2) = rs.flatMap fun r => (r.render a).files := by
  rw [List.map_flatMap]
  exact List.flatMap_congr fun r _ => map_snd_ownedBy _ _

/-- Renderer after renderer: all files come through, or one renderer stops the merge at a file whose
path has another content, planned by itself or by a renderer before it. -/
theorem Merged.renderOnto {a : Api} {planned : List (String × PlannedFile)}
    {owned : Entries String OwnedFile} (h : Merged planned owned) (rs : List Renderer) :
    (∃ reports owned', Pipeline.renderOnto a owned rs = .ok (reports, owned') ∧
        Merged (planned ++ rs.flatMap (plannedBy a)) owned') ∨
      ∃ before r after, rs = before ++ r :: after ∧
        Agree ((planned ++ before.flatMap (plannedBy a)).map (·.2)) ∧
        ∃ f ∈ (r.render a).files, ∃ other,
          Pipeline.renderOnto a owned rs = .fail (.conflictingFiles other r.id f.path) ∧
          Stops (planned ++ (before ++ [r]).flatMap (plannedBy a)) f other := by
  induction rs generalizing planned owned with
  | nil => exact .inl ⟨[], owned, rfl, by simpa using h⟩
  | cons r rs ih =>
    rw [Pipeline.renderOnto]
    rcases h.addFiles r.id (r.render a).files with
      ⟨middle, hmiddle, hmerged⟩ | ⟨f, hf, other, hfail, hstops⟩
    · rw [hmiddle]
      have hsplit : ∀ before : List Renderer, planned ++ (r :: before).flatMap (plannedBy a) =
          (planned ++ ownedBy r.id (r.render a).files) ++ before.flatMap (plannedBy a) := by
        intro before
        rw [List.flatMap_cons, List.append_assoc]
        rfl
      rcases ih hmerged with
        ⟨reports, owned', hrest, hall⟩ |
          ⟨before, last, after, rfl, hagree, f, hf, other, hrest, hstops⟩
      · refine .inl ⟨⟨r.id, (r.render a).files.length, (r.render a).warnings⟩ :: reports, owned', ?_,
          hsplit rs ▸ hall⟩
        show (Pipeline.renderOnto a middle rs >>= _) = _
        rw [hrest]
        rfl
      · refine .inr ⟨r :: before, last, after, rfl, ?_, f, hf, other, ?_, ?_⟩
        · rw [hsplit]
          exact hagree
        · show (Pipeline.renderOnto a middle (before ++ last :: after) >>= _) = _
          rw [hrest]
          rfl
        · rw [List.cons_append, hsplit]
          exact hstops
    · rw [hfail]
      refine .inr ⟨[], r, rs, rfl, by simpa using h.agree, f, hf, other, rfl, ?_⟩
      rwa [List.nil_append, List.flatMap_singleton]

/-- All renderers come through with their files, every path once. -/
theorem merged_render {p : Pipeline} {a : Api} {reports : List RendererReport}
    {files : List PlannedFile} (h : p.render a = .ok (reports, files)) :
    (files.map (·.path)).Nodup ∧ ∀ f, f ∈ files ↔ ∃ r ∈ p.renderers, f ∈ (r.render a).files := by
  obtain ⟨⟨_, owned⟩, howned, h⟩ := Outcome.bind_eq_ok.1 h
  cases h
  rcases (Merged.empty.renderOnto (a := a) p.renderers) with
    ⟨_, _, hall, hmerged⟩ | ⟨_, _, _, -, -, _, -, _, hfail, -⟩
  · rw [howned] at hall
    cases hall
    refine ⟨hmerged.nodup_paths, fun f => ?_⟩
    rw [hmerged.mem_iff, List.nil_append, map_snd_flatMap_plannedBy, List.mem_flatMap]
  · rw [howned] at hfail
    exact absurd hfail.symm Outcome.fail_ne_ok

/-- Merged files are the files that some renderer planned. -/
theorem mem_render_iff {p : Pipeline} {a : Api} {reports : List RendererReport}
    {files : List PlannedFile} (h : p.render a = .ok (reports, files)) {f : PlannedFile} :
    f ∈ files ↔ ∃ r ∈ p.renderers, f ∈ (r.render a).files :=
  (merged_render h).2 f

/-- Renderers come through, or one of them stops the merge at a file whose path has another content,
planned by itself or by a renderer before it; the files of all before it agree. -/
theorem render_cases (p : Pipeline) (a : Api) :
    (∃ reports files, p.render a = .ok (reports, files)) ∨
      ∃ before r after, p.renderers = before ++ r :: after ∧
        Agree (before.flatMap fun r => (r.render a).files) ∧
        ∃ f ∈ (r.render a).files, ∃ other ∈ before ++ [r], ∃ g ∈ (other.render a).files,
          g.path = f.path ∧ g.content ≠ f.content ∧
          p.render a = .fail (.conflictingFiles other.id r.id f.path) := by
  rcases (Merged.empty.renderOnto (a := a) p.renderers) with
    ⟨_, _, hall, -⟩ | ⟨before, r, after, hsplit, hagree, f, hf, other, hfail, hstops⟩
  · exact .inl ⟨_, _, Outcome.bind_eq_ok.2 ⟨_, hall, rfl⟩⟩
  · right
    rw [List.nil_append, map_snd_flatMap_plannedBy] at hagree
    obtain ⟨g, hg, hpath, hcontent⟩ := hstops
    obtain ⟨s, hs, rfl, hgs⟩ := mem_plannedBy.1 hg
    refine ⟨before, r, after, hsplit, hagree, f, hf, s, hs, g, hgs, hpath, hcontent, ?_⟩
    rw [render, hfail]
    rfl

/-- Renderers come through exactly when all of their files agree. -/
theorem exists_render_iff (p : Pipeline) (a : Api) :
    (∃ reports files, p.render a = .ok (reports, files)) ↔
      Agree (p.renderers.flatMap fun r => (r.render a).files) := by
  constructor
  · rintro ⟨reports, files, h⟩
    have hmem : (p.renderers.flatMap fun r => (r.render a).files) ⊆ files := by
      intro f hf
      obtain ⟨r, hr, hf⟩ := List.mem_flatMap.1 hf
      exact (mem_render_iff h).2 ⟨r, hr, hf⟩
    exact (agree_of_nodup (merged_render h).1).mono hmem
  · intro hagree
    rcases render_cases p a with h |
      ⟨before, r, after, hsplit, -, f, hf, other, hother, g, hg, hpath, hcontent, -⟩
    · exact h
    · have hmem : ∀ s ∈ before ++ [r], s ∈ p.renderers := by
        intro s hs
        rw [hsplit]
        simp only [List.mem_append, List.mem_cons] at hs ⊢
        tauto
      have hr := hmem r (by simp)
      exact absurd (hagree g (List.mem_flatMap.2 ⟨other, hmem other hother, hg⟩) f
        (List.mem_flatMap.2 ⟨r, hr, hf⟩) hpath) hcontent

end Pipeline
end ApiScribe
