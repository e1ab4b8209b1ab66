import ApiScribe.Proofs.Barrel.Climb
import ApiScribe.Proofs.Barrel.Layout
import ApiScribe.Proofs.Entries

/-! What barrels hold. For relative sources and any roots, the directories with a barrel are those
on the way from the directory of a source up to its nearest root, and a barrel has one line for each
module in its directory and for each step that a source below climbs through, in order. So it only
counts which sources and roots there are, not how often or in which order they come. -/
namespace ApiScribe
namespace Barrel

open Location

/-- The climb of a source as a loop: below the root, the directory above exports the last step. -/
inductive Climbs (root : Location) : Location → List (Location × String) → Prop
  | stop : Climbs root root []
  | up {d : Location} {out : List (Location × String)} : d ≠ root → Climbs root d.parent out →
      Climbs root d ((d.parent, d.name) :: out)

/-- A climb that starts below a root comes to it. -/
theorem climbs_climb {root d : Location} (h : IsWithin d root) :
    Climbs root d ((climb root.steps.reverse d.steps.reverse).map fun p =>
      (⟨d.lead, p.1.reverse⟩, p.2)) := by
  obtain ⟨lead, steps⟩ := d
  have hroot : ∀ ss, ss = root.steps → (⟨lead, ss⟩ : Location) = root :=
    fun ss hss => eq_of_steps_eq h.1 hss
  replace h := h.2
  induction steps using List.reverseRecOn with
  | nil =>
    have hnil : root.steps = [] := List.prefix_nil.1 h
    rw [hroot [] hnil.symm, hnil]
    exact .stop
  | append_singleton above name ih =>
    dsimp only at ih h ⊢
    rw [List.reverse_concat, climb]
    split
    · next heq =>
      have hsteps : above ++ [name] = root.steps := by
        rw [← List.reverse_inj, List.reverse_concat, heq]
      rw [hroot _ hsteps]
      exact .stop
    · next hne =>
      have hsteps : root.steps ≠ above ++ [name] := by
        intro heq
        rw [heq, List.reverse_concat] at hne
        exact hne rfl
      have habove := ih ((List.prefix_concat_iff.1 h).resolve_left hsteps)
      have hup := Climbs.up (d := ⟨lead, above ++ [name]⟩) 
        (fun heq => hsteps (congrArg steps heq).symm)
        (by rwa [Location.parent, List.dropLast_concat])
      simpa [Location.parent, Location.name] using hup

/-- What a source calls for: the module in its directory, and then what its climb exports. -/
theorem exists_climbs {roots : List Location} {source root : Location} (hs : source.lead = "")
    (h : IsNearest roots source root) : ∃ out, Climbs root source.parent out ∧
      exportsOf roots source = (source.parent, moduleName source) :: out := by
  refine ⟨_, climbs_climb (h.bounds.isWithin_parent hs), ?_⟩
  rw [exportsOf, (nearestRoot_eq_some_iff_isNearest hs).2 h]
  rfl

/-- What the barrel of a directory exports: the modules in the directory that climb at all, and the
directories in it that hold sources which climb on to it. -/
def IsExported (roots sources : List Location) (d : Location) (name : String) : Prop :=
  (∃ source ∈ sources, source.parent = d ∧ (∃ root, IsNearest roots source root) ∧
    name = moduleName source) ∨
  ∃ source ∈ sources, IsWithin source (d.child name) ∧ source ≠ d.child name ∧
    ∃ root, IsNearest roots source root ∧ IsWithin d root

theorem isExported_iff {roots sources : List Location} (hrel : ∀ s ∈ sources, s.lead = "")
    {d : Location} {name : String} :
    IsExported roots sources d name ↔ (d, name) ∈ sources.flatMap (exportsOf roots) := by
  have hchild : ∀ source, IsWithin source.parent (d.child name) ↔
      IsWithin source (d.child name) ∧ source ≠ d.child name :=
    fun source => isWithin_parent_iff (by simp [child])
  rw [List.mem_flatMap, IsExported, ← exists_or]
  refine exists_congr fun source => ?_
  rw [← and_or_left]
  refine and_congr_right fun hmem => ?_
  rw [mem_exportsOf (hrel source hmem)]
  constructor
  · rintro (⟨rfl, ⟨root, hroot⟩, rfl⟩ | ⟨hbelow, hne, root, hroot, hd⟩)
    · exact ⟨root, hroot, .inl ⟨rfl, rfl⟩⟩
    · exact ⟨root, hroot, .inr ⟨hd, (hchild source).2 ⟨hbelow, hne⟩⟩⟩
  · rintro ⟨root, hroot, ⟨rfl, rfl⟩ | ⟨hd, hstep⟩⟩
    · exact .inl ⟨rfl, ⟨root, hroot⟩, rfl⟩
    · exact .inr ⟨((hchild source).1 hstep).1, ((hchild source).1 hstep).2, root, hroot, hd⟩

/-- The barrels of sources, given by what they hold: one for every directory on the way of a source
to its nearest root, with one line for every name that the directory exports, in order. -/
structure AreBarrels (roots sources : List Location) (m : Entries Location String) : Prop where
  nodup : m.keys.Nodup
  mem_keys : ∀ d, d ∈ m.keys ↔ ∃ source ∈ sources, ∃ root, IsNearest roots source root ∧
    IsWithin d root ∧ IsWithin source.parent d
  content : ∀ d content, m.get? d = some content → ∃ names : List String,
    names.Pairwise (· < ·) ∧ (∀ name, name ∈ names ↔ IsExported roots sources d name) ∧
      content = String.join (names.map exportLine)

/-- Barrels depend on roots and sources as sets only. -/
theorem AreBarrels.get?_eq {roots roots' sources sources' : List Location}
    {m m' : Entries Location String} (h : AreBarrels roots sources m)
    (h' : AreBarrels roots' sources' m') (hroots : ∀ r, r ∈ roots' ↔ r ∈ roots)
    (hsources : ∀ s, s ∈ sources' ↔ s ∈ sources) (d : Location) : m'.get? d = m.get? d := by
  have hnearest : ∀ source root, IsNearest roots' source root ↔ IsNearest roots source root := by
    intro source root
    constructor
    · exact fun h => ⟨(hroots root).1 h.mem, h.bounds, fun r hr => h.deepest r ((hroots r).2 hr)⟩
    · exact fun h => ⟨(hroots root).2 h.mem, h.bounds, fun r hr => h.deepest r ((hroots r).1 hr)⟩
  have hexported : ∀ name, IsExported roots' sources' d name ↔ IsExported roots sources d name := by
    intro name
    simp only [IsExported, hsources, hnearest]
  have hkeys : (m'.get? d).isSome = true ↔ (m.get? d).isSome = true := by
    simp only [Entries.isSome_get?, h.mem_keys, h'.mem_keys, hsources, hnearest]
  cases hget : m.get? d with
  | none =>
    rw [hget] at hkeys
    simpa using hkeys
  | some content =>
    obtain ⟨content', hget'⟩ := Option.isSome_iff_exists.1 (hkeys.2 (hget ▸ rfl))
    obtain ⟨names, hsorted, hnames, rfl⟩ := h.content d content hget
    obtain ⟨names', hsorted', hnames', rfl⟩ := h'.content d content' hget'
    have hsame : names' = names := eq_of_pairwise_lt hsorted' hsorted fun name => by
      rw [hnames, hnames', hexported]
    rw [hget', hsame]

/-- What the barrels of relative sources hold. -/
theorem areBarrels_build {roots sources : List Location} (hrel : ∀ s ∈ sources, s.lead = "") :
    AreBarrels roots sources (build roots sources) := by
  have hgroups : Entries.AreGroups (sources.flatMap (exportsOf roots))
    (exportsByDirectory roots sources) := Entries.areGroups_foldl_push _
  have hkeys : (build roots sources).keys = (exportsByDirectory roots sources).keys :=
    Entries.keys_mapValues text _
  refine ⟨hkeys ▸ hgroups.nodup, fun d => ?_, fun d content hget => ?_⟩
  · rw [hkeys, hgroups.mem_keys]
    simp only [List.mem_flatMap]
    rw [exists_comm]
    refine exists_congr fun source => ?_
    rw [exists_and_left]
    exact and_congr_right fun hmem => exists_mem_exportsOf (hrel source hmem)
  · rw [build, Entries.get?_mapValues] at hget
    obtain ⟨names, hnames, rfl⟩ := Option.map_eq_some_iff.1 hget
    have hvalues : names = Entries.valuesOf (sources.flatMap (exportsOf roots)) d :=
      hgroups.values _ (Entries.mem_of_get?_eq_some hnames)
    refine ⟨sortedNames names, pairwise_sortedNames names, fun name => ?_, rfl⟩
    rw [mem_sortedNames, hvalues, Entries.mem_valuesOf, isExported_iff hrel]

/-- Barrels of relative sources: every climb comes to its root, what the barrels hold is known, and
they are the same for the same roots and sources in any order and number. -/
theorem build_of_relative {roots sources : List Location} (hrel : ∀ s ∈ sources, s.lead = "") :
    (∀ source ∈ sources, ∀ root, IsNearest roots source root → ∃ out,
      Climbs root source.parent out ∧
        exportsOf roots source = (source.parent, moduleName source) :: out) ∧
    AreBarrels roots sources (build roots sources) ∧
    ∀ roots' sources', (∀ r, r ∈ roots' ↔ r ∈ roots) → (∀ s, s ∈ sources' ↔ s ∈ sources) →
      ∀ d, (build roots' sources').get? d = (build roots sources).get? d := by
  refine ⟨fun source hmem root h => exists_climbs (hrel source hmem) h, areBarrels_build hrel, ?_⟩
  intro roots' sources' hroots hsources
  have hrel' : ∀ s ∈ sources', s.lead = "" := fun s hs => hrel s ((hsources s).1 hs)
  exact (areBarrels_build hrel).get?_eq (areBarrels_build hrel') hroots hsources

/-- A root below another one. -/
def nestedRoots : List Location := [⟨"", ["src"]⟩, ⟨"", ["src", "api"]⟩]

/-- Two modules below the inner root, and one that climbs to the outer root. -/
def nestedSources : List Location :=
  [⟨"", ["src", "api", "pets", "list.ts"]⟩, ⟨"", ["src", "api", "add.ts"]⟩,
    ⟨"", ["src", "main", "run.ts"]⟩]

theorem get?_nestedSources : (build nestedRoots nestedSources).get? ⟨"", ["src"]⟩ =
    some "export * from \"./main\";\n" := by
  have hnames : (exportsByDirectory nestedRoots nestedSources).get? ⟨"", ["src"]⟩ =
      some ["main"] := by decide +kernel
  have htext : text ["main"] = "export * from \"./main\";\n" := by
    rw [text, show ["main"].eraseDups = ["main"] from rfl, List.mergeSort_singleton]
    decide +kernel
  rw [build, Entries.get?_mapValues, hnames, Option.map_some, htext]

theorem build_nestedSources : (∀ s ∈ nestedSources, s.lead = "") ∧
    AreBarrels nestedRoots nestedSources (build nestedRoots nestedSources) ∧
    (build (nestedRoots.reverse ++ nestedRoots) nestedSources.reverse).get? ⟨"", ["src"]⟩ =
      some "export * from \"./main\";\n" := by
  have hrel : ∀ s ∈ nestedSources, s.lead = "" := by decide
  obtain ⟨-, hbarrels, hsame⟩ := @build_of_relative nestedRoots _ hrel
  refine ⟨hrel, hbarrels, ?_⟩
  rw [hsame _ _ (by simp) (by simp), get?_nestedSources]

end Barrel

/-! Laying out planned files more than once. No barrel is a module, and a barrel takes the place of
no file but an index file, so the modules among the files are the same after layout and call for the
same barrels. Laying out again changes nothing, every other file stays where it was among the files
in front of the barrels, and the order of planned files does not tell in the barrels. -/

namespace Layout

variable {roots : List String} {files files' : List PlannedFile}

/-- Whether a planned file is the index file of some directory. -/
def isIndex (f : PlannedFile) : Bool := (Location.ofPath f.path).name == Barrel.indexName

/-- The planned files that stay in front of the barrels: those whose paths no barrel takes. -/
def kept (roots : List String) (files : List PlannedFile) : List PlannedFile :=
  files.filter fun f => !(barrelsOf roots files).any (·.path == f.path)

theorem apply_barrels_eq (roots : List String) (files : List PlannedFile) :
    (barrels roots).apply files = kept roots files ++ barrelsOf roots files := rfl

theorem isSource_eq_false_of_isIndex {f : PlannedFile} (h : isIndex f = true) :
    Barrel.isSource f.path = false := by
  rw [← Bool.not_eq_true]
  exact fun hsource => Barrel.name_ne_indexName hsource (eq_of_beq h)

theorem isIndex_of_mem_barrelsOf (hrel : AreRelative files) {b : PlannedFile}
    (hb : b ∈ barrelsOf roots files) : isIndex b = true := by
  obtain ⟨d, hd, rfl⟩ := (mem_barrelsOf hrel).1 hb
  simp [isIndex, barrelOf, Barrel.ofPath_path (hd.isPlain hrel), Location.name]

/-- What is asked of files that are no index files has the same answer for those that stay. -/
theorem filter_kept (hrel : AreRelative files) {p : PlannedFile → Bool}
    (hp : ∀ f, isIndex f = true → p f = false) : (kept roots files).filter p = files.filter p := by
  rw [kept, List.filter_filter]
  refine List.filter_congr fun f _ => ?_
  cases hindex : isIndex f with
  | true => rw [hp f hindex, Bool.false_and]
  | false =>
    have hnone : (barrelsOf roots files).any (·.path == f.path) = false := by
      refine List.any_eq_false.2 fun b hb hpath => ?_
      have hbarrel := isIndex_of_mem_barrelsOf hrel hb
      rw [isIndex, eq_of_beq hpath, ← isIndex, hindex] at hbarrel
      cases hbarrel
    rw [hnone, Bool.not_false, Bool.and_true]

/-- Layout leaves the modules as they are, in their order. -/
theorem sourcesOf_apply (hrel : AreRelative files) :
    sourcesOf ((barrels roots).apply files) = sourcesOf files := by
  have hkept : (kept roots files).filter (fun f => Barrel.isSource f.path) =
      files.filter fun f => Barrel.isSource f.path :=
    filter_kept hrel fun _ => isSource_eq_false_of_isIndex
  have hbarrels : (barrelsOf roots files).filter (fun f => Barrel.isSource f.path) = [] := by
    refine List.filter_eq_nil_iff.2 fun b hb => Bool.not_eq_true _ ▸ ?_
    exact isSource_eq_false_of_isIndex (isIndex_of_mem_barrelsOf hrel hb)
  rw [sourcesOf, apply_barrels_eq, List.filter_append, hkept, hbarrels, List.append_nil, sourcesOf]

theorem barrelsOf_apply (hrel : AreRelative files) :
    barrelsOf roots ((barrels roots).apply files) = barrelsOf roots files := by
  rw [barrelsOf, sourcesOf_apply hrel, barrelsOf]

/-- Files that are laid out stay as they are when they are laid out again. -/
theorem apply_apply (hrel : AreRelative files) :
    (barrels roots).apply ((barrels roots).apply files) = (barrels roots).apply files := by
  have hfront : (kept roots files).filter
      (fun f => !(barrelsOf roots files).any (·.path == f.path)) = kept roots files := by
    rw [kept, List.filter_filter]
    simp only [Bool.and_self]
  have hback : (barrelsOf roots files).filter
      (fun f => !(barrelsOf roots files).any (·.path == f.path)) = [] := by
    refine List.filter_eq_nil_iff.2 fun b hb => ?_
    rw [Bool.not_eq_true', Bool.not_eq_false, List.any_eq_true]
    exact ⟨b, hb, beq_self_eq_true b.path⟩
  have hkept : kept roots ((barrels roots).apply files) = kept roots files := by
    rw [kept, barrelsOf_apply hrel, apply_barrels_eq, List.filter_append, hfront, hback,
      List.append_nil]
  rw [apply_barrels_eq, hkept, barrelsOf_apply hrel, apply_barrels_eq]

/-- Barrels come in the order of their paths, each path once. -/
theorem pairwise_barrelsOf (hrel : AreRelative files) :
    (barrelsOf roots files).Pairwise fun a b => a.path < b.path :=
  pairwise_lt_mergeSort_key PlannedFile.path (fun _ _ => decide_eq_true_iff)
    (((List.mergeSort_perm _ _).map _).nodup_iff.1 (nodup_paths_barrelsOf hrel))

/-- The barrels are the same for the same files in any order and number. -/
theorem barrelsOf_congr (hrel : AreRelative files) (h : ∀ f, f ∈ files ↔ f ∈ files') :
    barrelsOf roots files = barrelsOf roots files' := by
  have hrel' : AreRelative files' := fun f hf => hrel f ((h f).2 hf)
  have hperm : (barrelsOf roots files).Perm (barrelsOf roots files') :=
    (List.perm_ext_iff_of_nodup (nodup_paths_barrelsOf hrel).of_map
      (nodup_paths_barrelsOf hrel').of_map).2 (mem_barrelsOf_congr hrel h)
  exact hperm.eq_of_pairwise (fun a b _ _ hab hba => absurd hba hab.asymm)
    (pairwise_barrelsOf hrel) (pairwise_barrelsOf hrel')

theorem kept_perm (hrel : AreRelative files) (h : files.Perm files') :
    (kept roots files).Perm (kept roots files') := by
  rw [kept, kept, ← barrelsOf_congr hrel fun f => h.mem_iff]
  exact h.filter _

/-- Planned files with barrels for any roots. Laying them out again changes nothing; every file that
is no index file stays, in order, in front of the barrels; paths that come once do so still; and the
barrels are the same whatever the order of the files is. -/
theorem apply_apply_and_filter_kept_and_nodup_and_perm (roots : List String)
    (hrel : AreRelative files) :
    (barrels roots).apply ((barrels roots).apply files) = (barrels roots).apply files ∧
    ((barrels roots).apply files = kept roots files ++ barrelsOf roots files ∧
      (kept roots files).Sublist files ∧
      (kept roots files).filter (!isIndex ·) = files.filter (!isIndex ·) ∧
      ∀ b ∈ barrelsOf roots files, isIndex b = true) ∧
    ((files.map (·.path)).Nodup → (((barrels roots).apply files).map (·.path)).Nodup) ∧
    ∀ files', files.Perm files' →
      (barrels roots).apply files' = kept roots files' ++ barrelsOf roots files ∧
        (kept roots files').Perm (kept roots files) := by
  refine ⟨apply_apply hrel, ⟨rfl, List.filter_sublist, ?_, fun b => isIndex_of_mem_barrelsOf hrel⟩,
    nodup_paths_withBarrels hrel, fun files' h => ⟨?_, (kept_perm hrel h).symm⟩⟩
  · exact filter_kept hrel fun f hindex => by rw [hindex, Bool.not_true]
  · rw [apply_barrels_eq, barrelsOf_congr hrel fun f => h.mem_iff]

/-- Files below two roots, one of them below the other, with an index file in either. -/
def nestedRootFiles : List PlannedFile :=
  [⟨"src/index.ts", "a"⟩, ⟨"src/api/toys.ts", "b"⟩, ⟨"src/api/index.ts", "c"⟩, ⟨"src/toys.md", "d"⟩]

theorem apply_apply_nestedRootFiles : AreRelative nestedRootFiles ∧
    (barrels ["src", "src/api"]).apply ((barrels ["src", "src/api"]).apply nestedRootFiles) =
      (barrels ["src", "src/api"]).apply nestedRootFiles ∧
    (kept ["src", "src/api"] nestedRootFiles).filter (!isIndex ·) =
      [⟨"src/api/toys.ts", "b"⟩, ⟨"src/toys.md", "d"⟩] ∧
    (((barrels ["src", "src/api"]).apply nestedRootFiles).map (·.path)).Nodup ∧
    (barrels ["src", "src/api"]).apply nestedRootFiles.reverse =
      kept ["src", "src/api"] nestedRootFiles.reverse ++
        barrelsOf ["src", "src/api"] nestedRootFiles := by
  have hrel : AreRelative nestedRootFiles := by
    unfold AreRelative
    decide +kernel
  obtain ⟨hagain, ⟨-, -, hkept, -⟩, hnodup, hperm⟩ :=
    apply_apply_and_filter_kept_and_nodup_and_perm ["src", "src/api"] hrel
  refine ⟨hrel, hagain, ?_, hnodup (by decide), (hperm _ (List.reverse_perm _).symm).1⟩
  rw [hkept]
  decide +kernel

end Layout
end ApiScribe
