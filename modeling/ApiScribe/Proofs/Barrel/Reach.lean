import ApiScribe.Proofs.Barrel.Layout

/-! What is reached from the barrel of a root. On its climb a module is exported step by step, and
every step leads on unless a module next to it has its name. So a module is reached exactly if no
step of its climb shares its name with a module of the same directory or with the barrel. -/
namespace ApiScribe
namespace Layout

variable {roots : List String} {files : List PlannedFile} {d : Location}

/-- The paths of planned files are relative and make no detours. -/
def AreNormal (files : List PlannedFile) : Prop := ∀ f ∈ files, Location.IsNormal f.path

/-- A planned file has the name of the module that an export of a name stands for first. -/
def IsTaken (files : List PlannedFile) (directory : List String) (name : String) : Prop :=
  ∃ f ∈ files, f.path = Location.text ⟨"", directory ++ [name ++ ".ts"]⟩

instance (files : List PlannedFile) : Decidable (AreNormal files) :=
  inferInstanceAs (Decidable (∀ f ∈ files, Location.IsNormal f.path))

instance (files : List PlannedFile) (directory : List String) (name : String) :
    Decidable (IsTaken files directory name) :=
  inferInstanceAs (Decidable (∃ f ∈ files, f.path = Location.text ⟨"", directory ++ [name ++ ".ts"]⟩))

/-- Every name on the climb of a module can be written, and no step of it shares its name with a
module next to it or with the barrel. -/
structure IsOpenWay (files : List PlannedFile) (root source : Location) : Prop where
  module : Barrel.isWritable (Barrel.moduleName source) = true
  steps : ∀ directory name, root.steps <+: directory →
    directory ++ [name] <+: source.parent.steps →
      Barrel.isWritable name = true ∧ name ≠ "index" ∧ ¬ IsTaken files directory name

/-- The names of planned files can be written, and the files export nothing on their own. -/
structure AreSilent (files : List PlannedFile) : Prop where
  writable : ∀ f ∈ files, ∀ s ∈ (Location.ofPath f.path).steps, Barrel.isWritable s = true
  exports : ∀ f ∈ files, (Location.ofPath f.path).name ≠ Barrel.indexName →
    Barrel.exportedNames f.content = []

instance (files : List PlannedFile) : Decidable (AreSilent files) :=
  decidable_of_iff
    ((∀ f ∈ files, ∀ s ∈ (Location.ofPath f.path).steps, Barrel.isWritable s = true) ∧
      ∀ f ∈ files, (Location.ofPath f.path).name ≠ Barrel.indexName →
        Barrel.exportedNames f.content = [])
    ⟨fun h => ⟨h.1, h.2⟩, fun h => ⟨h.writable, h.exports⟩⟩

theorem AreNormal.areRelative (h : AreNormal files) : AreRelative files :=
  fun f hf _ => (h f hf).lead

theorem GetsBarrel.up (h : GetsBarrel roots files d) (hn : AreNormal files) : ".." ∉ d.steps := by
  obtain ⟨f, hf, -, root, -, hclimb⟩ := h
  exact fun hmem => (hn f hf).up (List.mem_of_mem_dropLast (hclimb.above.subset hmem))

/-- No path gets lost. -/
theorem exists_mem_withBarrels (hn : AreNormal files) {f : PlannedFile} (hf : f ∈ files) :
    ∃ g ∈ withBarrels roots files, g.path = f.path := by
  by_cases hpath : ∃ d, GetsBarrel roots files d ∧ Barrel.path d = f.path
  · obtain ⟨d, hd, hpath⟩ := hpath
    exact ⟨_, barrelOf_mem hn.areRelative hd, hpath⟩
  · refine ⟨f, (mem_withBarrels_iff hn.areRelative hf).2 fun d hd he => ?_, rfl⟩
    exact absurd ⟨d, hd, he⟩ hpath

/-- After layout the barrel of a directory takes a name as well. -/
theorem isTaken_withBarrels_iff (hn : AreNormal files) (hd : GetsBarrel roots files d)
    {name : String} (hname : '/' ∉ name.toList) :
    IsTaken (withBarrels roots files) d.steps name ↔ name = "index" ∨ IsTaken files d.steps name := by
  have hplain := hd.isPlain hn.areRelative
  have hindex : Barrel.path d = Location.text ⟨"", d.steps ++ ["index" ++ ".ts"]⟩ := by
    rw [Barrel.path_eq, hplain.lead]
    rfl
  constructor
  · rintro ⟨g, hg, hpath⟩
    rcases List.mem_append.1 hg with hg | hg
    · exact .inr ⟨g, (List.mem_filter.1 hg).1, hpath⟩
    · obtain ⟨e, he, rfl⟩ := (mem_barrelsOf hn.areRelative).1 hg
      have heplain := he.isPlain hn.areRelative
      have hsame := Location.text_injective (Barrel.isPlain_index heplain)
        (Barrel.isPlain_module hplain hname) ((Barrel.path_eq e).symm.trans hpath)
      have hlast : Barrel.indexName = name ++ ".ts" :=
        List.singleton_inj.1 (List.append_inj_right' (Location.mk.inj hsame).2 rfl)
      have hboth : "index" ++ ".ts" = name ++ ".ts" := hlast
      exact .inl ((String.append_left_inj ".ts").1 hboth).symm
  · rintro (rfl | ⟨f, hf, hpath⟩)
    · exact ⟨_, barrelOf_mem hn.areRelative hd, hindex⟩
    · obtain ⟨g, hg, hsame⟩ : ∃ g ∈ withBarrels roots files, g.path = f.path :=
        exists_mem_withBarrels hn hf
      exact ⟨g, hg, hsame.trans hpath⟩

/-- The export of a module stands for it. -/
theorem resolve_module (hn : AreNormal files) {f : PlannedFile} (hf : f ∈ files)
    (hsource : Barrel.isSource f.path = true) :
    Barrel.resolve (withBarrels roots files) (Location.ofPath f.path).parent
      (Barrel.moduleName (Location.ofPath f.path)) = f.path := by
  have hnormal := hn f hf
  have hlast := Barrel.name_mem_steps hsource
  have hparent : (Location.ofPath f.path).parent.IsPlain :=
    ⟨hnormal.lead, fun s hs => hnormal.plain.steps s (List.mem_of_mem_dropLast hs)⟩
  have htarget : Barrel.target (Location.ofPath f.path).parent
      (Barrel.moduleName (Location.ofPath f.path) ++ ".ts") = f.path := by
    rw [Barrel.moduleName_append hsource,
      Barrel.target_step hparent (fun hmem => hnormal.up (List.mem_of_mem_dropLast hmem))
        (hnormal.plain.steps _ hlast) (fun he => hnormal.up (he ▸ hlast)),
      Barrel.parent_steps_append hsource, ← hnormal.lead]
    exact hnormal.text
  rw [Barrel.resolve_of_mem ⟨f, mem_withBarrels_of_isSource hn.areRelative hf hsource,
    htarget.symm⟩, htarget]

/-- A taken name does not lead into the subdirectory. -/
theorem resolve_of_isTaken (hn : AreNormal files) (hd : GetsBarrel roots files d) {name : String}
    (hname : Location.IsPlainStep name) (h : IsTaken (withBarrels roots files) d.steps name) :
    Barrel.resolve (withBarrels roots files) d name =
      Location.text ⟨"", d.steps ++ [name ++ ".ts"]⟩ := by
  have htarget := Barrel.target_step (hd.isPlain hn.areRelative) (hd.up hn)
    (Barrel.isPlainStep_module hname.slash) (Barrel.append_ne_up name)
  rw [Barrel.resolve_of_mem (by rwa [htarget]), htarget]

/-- A free name leads to the barrel of the subdirectory. -/
theorem resolve_of_not_isTaken (hn : AreNormal files) (hd : GetsBarrel roots files d)
    {name : String} (hname : Location.IsPlainStep name) (hup : name ≠ "..")
    (h : ¬ IsTaken (withBarrels roots files) d.steps name) :
    Barrel.resolve (withBarrels roots files) d name = Barrel.path ⟨"", d.steps ++ [name]⟩ := by
  have hplain := hd.isPlain hn.areRelative
  have htarget := Barrel.target_step hplain (hd.up hn)
    (Barrel.isPlainStep_module hname.slash) (Barrel.append_ne_up name)
  rw [Barrel.resolve_of_not_mem (by rwa [htarget]), Barrel.target_index hplain (hd.up hn) hname hup]

/-- A barrel leads to what its writable names stand for. -/
theorem leads_barrel (hn : AreNormal files) (hd : GetsBarrel roots files d) {name : String}
    (hname : name ∈ namesIn roots files d) (hwritable : Barrel.isWritable name = true) :
    Barrel.Leads (withBarrels roots files) (Barrel.path d)
      (Barrel.resolve (withBarrels roots files) d name) := by
  refine ⟨_, barrelOf_mem hn.areRelative hd, rfl, name,
    Barrel.mem_exportedNames_text hwritable hname, ?_⟩
  rw [Barrel.parent_ofPath_path (hd.isPlain hn.areRelative)]

section Climb

variable {f : PlannedFile} {root : Location}

theorem getsBarrel_of_climb (hn : AreNormal files) (hf : f ∈ files)
    (hsource : Barrel.isSource f.path = true)
    (hroot : Barrel.IsNearestRoot (rootsOf roots) (Location.ofPath f.path) root)
    {directory : List String} (hbelow : root.steps <+: directory)
    (habove : directory <+: (Location.ofPath f.path).parent.steps) :
    GetsBarrel roots files ⟨"", directory⟩ :=
  ⟨f, hf, hsource, root, hroot, (hn f hf).lead.symm, hbelow, habove⟩

/-- On an open way the barrel of the root leads to the barrel of every directory of the climb. -/
theorem reaches_directory (hn : AreNormal files) (hf : f ∈ files)
    (hsource : Barrel.isSource f.path = true)
    (hroot : Barrel.IsNearestRoot (rootsOf roots) (Location.ofPath f.path) root)
    (hopen : IsOpenWay files root (Location.ofPath f.path)) (rest : List String)
    (habove : root.steps ++ rest <+: (Location.ofPath f.path).parent.steps) :
    Barrel.Reaches (withBarrels roots files) (Barrel.path root)
      (Barrel.path ⟨"", root.steps ++ rest⟩) := by
  induction rest using List.reverseRecOn with
  | nil =>
    rw [List.append_nil, ← lead_of_mem_rootsOf hroot.mem]
    exact .refl
  | append_singleton rest name ih =>
    rw [← List.append_assoc] at habove ⊢
    have hup := (List.prefix_append (root.steps ++ rest) [name]).trans habove
    have hbelow := List.prefix_append root.steps rest
    have hbarrel := getsBarrel_of_climb hn hf hsource hroot hbelow hup
    obtain ⟨hwritable, hindex, hfree⟩ := hopen.steps _ name hbelow habove
    have hmem : name ∈ (Location.ofPath f.path).steps :=
      List.mem_of_mem_dropLast (habove.subset (by simp))
    have hplain := (hn f hf).plain.steps name hmem
    have hexported : name ∈ namesIn roots files ⟨"", root.steps ++ rest⟩ :=
      (mem_namesIn hn.areRelative).2 ⟨f, hf, hsource, root, hroot, rfl, .inr ⟨hbelow, habove⟩⟩
    have htaken : ¬ IsTaken (withBarrels roots files) (root.steps ++ rest) name := by
      have hiff := isTaken_withBarrels_iff hn hbarrel hplain.slash
      exact fun h => (hiff.1 h).elim hindex hfree
    have hstep := leads_barrel hn hbarrel hexported hwritable
    rw [resolve_of_not_isTaken hn hbarrel hplain (fun he => (hn f hf).up (he ▸ hmem)) htaken] at hstep
    exact (ih hup).tail hstep

/-- A module whose way is open is reached from the barrel of its root. -/
theorem reaches_of_isOpenWay (hn : AreNormal files) (hf : f ∈ files)
    (hsource : Barrel.isSource f.path = true)
    (hroot : Barrel.IsNearestRoot (rootsOf roots) (Location.ofPath f.path) root)
    (hopen : IsOpenWay files root (Location.ofPath f.path)) :
    Barrel.Reaches (withBarrels roots files) (Barrel.path root) f.path := by
  obtain ⟨rest, hrest⟩ := hroot.above
  have hparent : (Location.ofPath f.path).parent = ⟨"", root.steps ++ rest⟩ := by
    rw [hrest, Location.parent, (hn f hf).lead]
  have hbarrel := getsBarrel_of_climb hn hf hsource hroot hroot.above (List.prefix_refl _)
  have hdirectory := reaches_directory hn hf hsource hroot hopen rest (by rw [hrest])
  have hexported : Barrel.moduleName (Location.ofPath f.path) ∈
      namesIn roots files ⟨"", (Location.ofPath f.path).parent.steps⟩ :=
    (mem_namesIn hn.areRelative).2 ⟨f, hf, hsource, root, hroot, rfl, .inl ⟨rfl, rfl⟩⟩
  have hstep := leads_barrel hn hbarrel hexported hopen.module
  have hmodule : Barrel.resolve (withBarrels roots files) _ _ = f.path :=
    resolve_module hn hf hsource
  rw [hparent] at hmodule hstep
  rw [hmodule] at hstep
  exact hdirectory.tail hstep

end Climb

/-- The names in barrels can be written if those of the planned files can. -/
theorem isWritable_of_mem_namesIn (hn : AreNormal files) (hsilent : AreSilent files) {name : String}
    (h : name ∈ namesIn roots files d) : Barrel.isWritable name = true := by
  obtain ⟨f, hf, hsource, -, -, -, ⟨-, rfl⟩ | ⟨-, hstep⟩⟩ := (mem_namesIn hn.areRelative).1 h
  · have hname := hsilent.writable f hf _ (Barrel.name_mem_steps hsource)
    exact Barrel.isWritable_moduleName hname
  · exact hsilent.writable f hf name (List.mem_of_mem_dropLast (hstep.subset (by simp)))

/-- A path that chains of exports get to without what is below a directory: it is not below it
itself, and if it is an index file, it is a barrel. -/
structure IsAside (roots : List String) (files : List PlannedFile) (closed : List String)
    (p : String) : Prop where
  index : (Location.ofPath p).name = Barrel.indexName →
    ∃ d, GetsBarrel roots files d ∧ p = Barrel.path d
  aside : ¬ closed <+: (Location.ofPath p).parent.steps

theorem isAside_path (hn : AreNormal files) (hd : GetsBarrel roots files d) {closed : List String}
    (h : ¬ closed <+: d.steps) : IsAside roots files closed (Barrel.path d) := by
  refine ⟨fun _ => ⟨d, hd, rfl⟩, ?_⟩
  rwa [Barrel.parent_ofPath_path (hd.isPlain hn.areRelative)]

/-- A taken name leads to what stands next to a barrel. -/
theorem isAside_module (hn : AreNormal files) (hd : GetsBarrel roots files d)
    {closed : List String} (h : ¬ closed <+: d.steps) {name : String} (hname : '/' ∉ name.toList) :
    IsAside roots files closed (Location.text ⟨"", d.steps ++ [name ++ ".ts"]⟩) := by
  have hplain := hd.isPlain hn.areRelative
  have hback := Location.ofPath_text (Barrel.isPlain_module hplain hname)
  constructor
  · intro hindex
    rw [hback, Location.name, List.getLastD_concat] at hindex
    exact ⟨d, hd, by rw [hindex, Barrel.path_eq, hplain.lead]⟩
  · rwa [hback, Location.parent, List.dropLast_concat]

/-- A step down from a barrel does not lead into the directory whose name is taken. -/
theorem isAside_step (hn : AreNormal files) (hd : GetsBarrel roots files d) {step : String}
    (hstep : GetsBarrel roots files ⟨"", d.steps ++ [step]⟩) {directory : List String}
    {name : String} (htaken : IsTaken (withBarrels roots files) directory name)
    (h : ¬ directory ++ [name] <+: d.steps) :
    IsAside roots files (directory ++ [name]) (Barrel.resolve (withBarrels roots files) d step) := by
  have hmem : step ∈ d.steps ++ [step] := by simp
  have hplain := (hstep.isPlain hn.areRelative).steps step hmem
  by_cases hopen : IsTaken (withBarrels roots files) d.steps step
  · rw [resolve_of_isTaken hn hd hplain hopen]
    exact isAside_module hn hd h hplain.slash
  · rw [resolve_of_not_isTaken hn hd hplain (fun hup => hstep.up hn (hup ▸ hmem)) hopen]
    refine isAside_path hn hstep fun hclosed => ?_
    rcases List.prefix_concat_iff.1 hclosed with hsame | hclosed
    · obtain ⟨rfl, hname⟩ := List.append_inj' hsame rfl
      rw [List.singleton_inj.1 hname] at htaken
      exact hopen htaken
    · exact h hclosed

/-- No single export leads from outside to below a directory whose name is taken. -/
theorem IsAside.leads (hn : AreNormal files) (hsilent : AreSilent files) {directory : List String}
    {name : String} (htaken : IsTaken (withBarrels roots files) directory name) {p q : String}
    (hp : IsAside roots files (directory ++ [name]) p)
    (hleads : Barrel.Leads (withBarrels roots files) p q) :
    IsAside roots files (directory ++ [name]) q := by
  obtain ⟨g, hg, rfl, step, hstep, rfl⟩ := hleads
  by_cases hindex : (Location.ofPath g.path).name = Barrel.indexName
  · obtain ⟨e, he, hpath⟩ := hp.index hindex
    have hparent : (Location.ofPath g.path).parent = e := by
      rw [hpath, Barrel.parent_ofPath_path (he.isPlain hn.areRelative)]
    have haside : ¬ directory ++ [name] <+: e.steps := hparent ▸ hp.aside
    rw [eq_barrelOf hn.areRelative he hg hpath] at hstep
    have hmem := Barrel.mem_of_mem_exportedNames_text
      (fun _ => isWritable_of_mem_namesIn hn hsilent) hstep
    rw [hparent]
    -- a barrel exports the modules next to it and the steps down to other barrels
    obtain ⟨f, hf, hsource, root, hroot, hlead, ⟨hsteps, rfl⟩ | ⟨hbelow, habove⟩⟩ :=
      (mem_namesIn hn.areRelative).1 hmem
    · have hmodule : e = (Location.ofPath f.path).parent := by
        obtain ⟨_, _⟩ := e
        exact congrArg₂ Location.mk (hlead.trans (hn f hf).lead.symm) hsteps
      rw [hmodule, resolve_module hn hf hsource]
      exact ⟨fun h => absurd h (Barrel.name_ne_indexName hsource), by rwa [← hsteps]⟩
    · have hdown := getsBarrel_of_climb hn hf hsource hroot
        (hbelow.trans (List.prefix_append _ _)) habove
      exact isAside_step hn he hdown htaken haside
  · have hfile : g ∈ files := by
      refine mem_of_mem_withBarrels hn.areRelative hg fun e he hpath => hindex ?_
      rw [← hpath, Barrel.ofPath_path (he.isPlain hn.areRelative), Location.name,
        List.getLastD_concat]
    rw [hsilent.exports g hfile hindex] at hstep
    cases hstep

theorem IsAside.reaches (hn : AreNormal files) (hsilent : AreSilent files)
    {directory : List String} {name : String}
    (htaken : IsTaken (withBarrels roots files) directory name) {p q : String}
    (hp : IsAside roots files (directory ++ [name]) p)
    (hreaches : Barrel.Reaches (withBarrels roots files) p q) :
    IsAside roots files (directory ++ [name]) q := by
  induction hreaches with
  | refl => exact hp
  | tail _ hleads ih => exact ih.leads hn hsilent htaken hleads

/-- If planned files export nothing on their own, modules are reached on open ways only. -/
theorem isOpenWay_of_reaches (hn : AreNormal files) (hsilent : AreSilent files)
    {f : PlannedFile} {root : Location} (hf : f ∈ files) (hsource : Barrel.isSource f.path = true)
    (hroot : Barrel.IsNearestRoot (rootsOf roots) (Location.ofPath f.path) root)
    (hreaches : Barrel.Reaches (withBarrels roots files) (Barrel.path root) f.path) :
    IsOpenWay files root (Location.ofPath f.path) where
  module := Barrel.isWritable_moduleName (hsilent.writable f hf _ (Barrel.name_mem_steps hsource))
  steps := by
    intro directory name hbelow habove
    have hmem : name ∈ (Location.ofPath f.path).steps :=
      List.mem_of_mem_dropLast (habove.subset (by simp))
    refine ⟨hsilent.writable f hf name hmem, not_or.1 fun hclosed => ?_⟩
    have hbarrel := getsBarrel_of_climb hn hf hsource hroot hbelow
      ((List.prefix_append _ _).trans habove)
    have htaken := (isTaken_withBarrels_iff hn hbarrel ((hn f hf).plain.steps name hmem).slash).2
      hclosed
    have hstart : ¬ directory ++ [name] <+: root.steps := by
      intro hprefix
      have hlength := hprefix.length_le.trans hbelow.length_le
      rw [List.length_append, List.length_singleton] at hlength
      omega
    have hrootbarrel := getsBarrel_of_climb hn hf hsource hroot (List.prefix_refl _) hroot.above
    rw [← lead_of_mem_rootsOf hroot.mem] at hrootbarrel
    exact ((isAside_path hn hrootbarrel hstart).reaches hn hsilent htaken hreaches).aside habove

/-- A module below a root is reached from the barrel of its nearest root if its way is open, and
otherwise only through files that export something on their own or names that cannot be written. -/
theorem exists_nearestRoot_and_reaches (hn : AreNormal files) {f : PlannedFile} (hf : f ∈ files)
    (hsource : Barrel.isSource f.path = true)
    (hunder : ∃ r ∈ rootsOf roots, Barrel.isRootOf (Location.ofPath f.path) r = true) :
    ∃ root, Barrel.nearestRoot (rootsOf roots) (Location.ofPath f.path) = some root ∧
      (IsOpenWay files root (Location.ofPath f.path) →
        Barrel.Reaches (withBarrels roots files) (Barrel.path root) f.path) ∧
      (AreSilent files → Barrel.Reaches (withBarrels roots files) (Barrel.path root) f.path →
        IsOpenWay files root (Location.ofPath f.path)) := by
  obtain ⟨r, hr, hbounds⟩ := hunder
  obtain ⟨root, hroot⟩ := Barrel.exists_nearestRoot hr hbounds
  have hnearest := (Barrel.nearestRoot_eq_some_iff (fun _ => lead_of_mem_rootsOf) (hn f hf).lead).1 hroot
  exact ⟨root, hroot, reaches_of_isOpenWay hn hf hsource hnearest,
    fun hsilent => isOpenWay_of_reaches hn hsilent hf hsource hnearest⟩

/-- Two modules of one directory, and a module of a subdirectory with the name of one of them. -/
def toyFiles : List PlannedFile :=
  [⟨"functions/api/pets/list.ts", ""⟩, ⟨"functions/api/pets/toys.ts", ""⟩,
    ⟨"functions/api/pets/toys/list.ts", ""⟩]

theorem reaches_petsList : AreNormal toyFiles ∧
    Barrel.Reaches (withBarrels ["functions"] toyFiles) "functions/index.ts"
      "functions/api/pets/list.ts" := by
  have hn : AreNormal toyFiles := by decide +kernel
  have hmem : ⟨"functions/api/pets/list.ts", ""⟩ ∈ toyFiles := List.mem_cons_self
  have hunder : ∃ r ∈ rootsOf ["functions"],
      Barrel.isRootOf (Location.ofPath "functions/api/pets/list.ts") r = true := by
    decide +kernel
  obtain ⟨root, hroot, hreaches, -⟩ :=
    exists_nearestRoot_and_reaches hn hmem (by decide +kernel) hunder
  have hnearest : Barrel.nearestRoot (rootsOf ["functions"])
      (Location.ofPath "functions/api/pets/list.ts") = some ⟨"", ["functions"]⟩ := by
    decide +kernel
  obtain rfl : root = ⟨"", ["functions"]⟩ := Option.some.inj (hroot.symm.trans hnearest)
  have hpath : Barrel.path ⟨"", ["functions"]⟩ = "functions/index.ts" := by decide +kernel
  have hparent : (Location.ofPath "functions/api/pets/list.ts").parent.steps =
      ["functions", "api", "pets"] := by decide +kernel
  refine ⟨hn, hpath ▸ hreaches ⟨by decide +kernel, ?_⟩⟩
  rintro directory name ⟨rest, rfl⟩ habove
  have habove : rest ++ [name] <+: ["api", "pets"] := by
    rw [hparent, List.append_assoc] at habove
    exact (List.cons_prefix_cons.1 habove).2
  match rest, habove with
  | [], habove =>
    obtain rfl : name = "api" := by simpa using habove
    decide +kernel
  | [step], habove =>
    obtain ⟨rfl, rfl⟩ : step = "api" ∧ name = "pets" := by simpa using habove
    decide +kernel
  | _ :: _ :: _, habove => simp at habove

/-- The module next to a directory of its name hides what is below the directory. -/
theorem not_reaches_toysList : AreNormal toyFiles ∧
    ⟨"functions/api/pets/toys/list.ts", ""⟩ ∈ toyFiles ∧
    Barrel.isSource "functions/api/pets/toys/list.ts" = true ∧
    Barrel.nearestRoot (rootsOf ["functions"])
      (Location.ofPath "functions/api/pets/toys/list.ts") = some ⟨"", ["functions"]⟩ ∧
    ¬ Barrel.Reaches (withBarrels ["functions"] toyFiles) (Barrel.path ⟨"", ["functions"]⟩)
      "functions/api/pets/toys/list.ts" := by
  have hn : AreNormal toyFiles := by decide +kernel
  have hsilent : AreSilent toyFiles := by decide +kernel
  have hmem : ⟨"functions/api/pets/toys/list.ts", ""⟩ ∈ toyFiles := by simp [toyFiles]
  have hsource : Barrel.isSource "functions/api/pets/toys/list.ts" = true := by decide +kernel
  have hroot : Barrel.nearestRoot (rootsOf ["functions"])
      (Location.ofPath "functions/api/pets/toys/list.ts") = some ⟨"", ["functions"]⟩ := by
    decide +kernel
  refine ⟨hn, hmem, hsource, hroot, fun hreaches => ?_⟩
  have hnearest := (Barrel.nearestRoot_eq_some_iff (fun _ => lead_of_mem_rootsOf) (hn _ hmem).lead).1 hroot
  have hopen := isOpenWay_of_reaches hn hsilent hmem hsource hnearest hreaches
  have htaken : IsTaken toyFiles ["functions", "api", "pets"] "toys" := by decide +kernel
  exact (hopen.steps _ "toys" (by decide +kernel) (by decide +kernel)).2.2 htaken

end Layout
end ApiScribe
