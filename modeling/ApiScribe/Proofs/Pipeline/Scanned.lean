import ApiScribe.Proofs.Barrel.Layout
import ApiScribe.Proofs.Pipeline.OutputPaths
import ApiScribe.Proofs.TypeText.Names
import ApiScribe.Proofs.Workspace.Fresh
import ApiScribe.Proofs.Workspace.Rescan

/-! Barrels that are planned and barrels that are scanned for. The barrels that a pipeline plans
below a directory are those that a scan of the directory plans once they are written, so that writing
them again changes nothing. -/
namespace ApiScribe
open Path (IsDown)

namespace Text

/-- Nothing stands between slashes. -/
theorem eq_nil_of_mem_splitAt {cs piece : List Char} (h : ∀ c ∈ cs, c = '/')
    (hpiece : piece ∈ splitAt '/' cs) : piece = [] := by
  induction cs with
  | nil => exact List.mem_singleton.1 hpiece
  | cons c cs ih =>
    obtain ⟨rfl, hcs⟩ := List.forall_mem_cons.1 h
    rcases List.mem_cons.1 ((show splitAt '/' ('/' :: cs) = [] :: splitAt '/' cs from rfl) ▸ hpiece)
      with rfl | hpiece
    · rfl
    · exact ih hcs hpiece

end Text

namespace Location

theorem lead_of_relative {p : String} (h : Path.isAbsolute p = false) : (ofPath p).lead = "" := by
  rw [ofPath, Path.lead, h]
  rfl

/-- Slashes at the end of a path lead nowhere. -/
theorem steps_ofPath_append {p slashes : String} (h : ∀ c ∈ slashes.toList, c = '/') :
    (ofPath (p ++ slashes)).steps = (ofPath p).steps := by
  cases hslashes : slashes.toList with
  | nil => rw [String.toList_eq_nil_iff.1 hslashes, String.append_empty]
  | cons c cs =>
    rw [hslashes] at h
    obtain ⟨rfl, hcs⟩ := List.forall_mem_cons.1 h
    have hlist : (p ++ slashes).toList = p.toList ++ '/' :: cs := by
      rw [String.toList_append, hslashes]
    have hnone : ((Text.splitAt '/' cs).map String.ofList).filter isStep = [] := by
      rw [List.filter_eq_nil_iff]
      intro s hs
      obtain ⟨piece, hpiece, rfl⟩ := List.mem_map.1 hs
      rw [Text.eq_nil_of_mem_splitAt hcs hpiece]
      decide
    show (Path.steps (p ++ slashes)).filter isStep = (Path.steps p).filter isStep
    rw [Path.steps, Path.steps, Text.splitString, Text.splitString, hlist,
      Text.splitAt_append_cons, List.map_append, List.filter_append, hnone, List.append_nil]

end Location

namespace Layout
variable {root : String} {files : List PlannedFile} {d : Location}

/-- A relative path is what it is without slashes at its end, and these. -/
theorem exists_slashes (h : Path.isAbsolute root = false) :
    ∃ slashes : String, (∀ c ∈ slashes.toList, c = '/') ∧ stripSlashes root ++ slashes = root := by
  have hstart : root.toList.dropWhile (· = '/') = root.toList := by
    cases hroot : root.toList with
    | nil => rfl
    | cons c cs =>
      rw [Path.isAbsolute_eq, hroot, List.head?_cons, beq_eq_false_iff_ne] at h
      exact List.dropWhile_cons_of_neg (by simpa using fun heq : c = '/' => h (by rw [heq]))
  refine ⟨String.ofList (root.toList.reverse.takeWhile (· = '/')).reverse, ?_, ?_⟩
  · intro c hc
    rw [String.toList_ofList, List.mem_reverse] at hc
    simpa using List.mem_takeWhile_imp hc
  · rw [← String.toList_inj, String.toList_append, stripSlashes, hstart, String.toList_ofList,
      String.toList_ofList, ← List.reverse_append, List.takeWhile_append_dropWhile,
      List.reverse_reverse]

/-- A root that is a relative path and not empty counts as the location that it names. -/
theorem rootsOf_singleton (hne : root ≠ "") (h : Path.isAbsolute root = false) :
    rootsOf [root] = [Location.ofPath root] := by
  obtain ⟨slashes, hslashes, hroot⟩ := exists_slashes h
  have hstrip : stripSlashes root ≠ "" := by
    intro hempty
    rw [hempty, String.empty_append] at hroot
    obtain ⟨c, cs, hcs⟩ := List.exists_cons_of_ne_nil fun hnil => hne (String.toList_eq_nil_iff.1 hnil)
    rw [hroot, hcs] at hslashes
    rw [Path.isAbsolute_eq, hcs, hslashes c List.mem_cons_self] at h
    cases h
  have hsingle : rootsOf [root] = [Location.ofPath (stripSlashes root)] := by
    simp [rootsOf, hstrip]
  have hstripped : Location.ofPath (stripSlashes root) ∈ rootsOf [root] :=
    hsingle ▸ List.mem_singleton_self _
  have hlead := Location.lead_of_relative h
  have hsteps := Location.steps_ofPath_append (p := stripSlashes root) hslashes
  rw [hroot] at hsteps
  rw [hsingle, Location.eq_of_steps_eq ((lead_of_mem_rootsOf hstripped).trans hlead.symm)
    hsteps.symm]

/-- What a directory exports if barrels stand below a single root. -/
theorem mem_namesIn_singleton (hne : root ≠ "") (h : Path.isAbsolute root = false)
    (hrel : AreRelative files) {name : String} : name ∈ namesIn [root] files d ↔
      ∃ f ∈ files, Barrel.isSource f.path = true ∧ d.lead = "" ∧
        (Location.ofPath root).steps <+: d.steps ∧
        ((d.steps = (Location.ofPath f.path).parent.steps ∧
            name = Barrel.moduleName (Location.ofPath f.path)) ∨
          d.steps ++ [name] <+: (Location.ofPath f.path).parent.steps) := by
  rw [mem_namesIn hrel, rootsOf_singleton hne h]
  refine exists_congr fun f => and_congr_right fun hf => and_congr_right fun hsource => ?_
  constructor
  · rintro ⟨r, hr, hlead, hcase⟩
    obtain rfl := List.mem_singleton.1 hr.mem
    rcases hcase with ⟨hsteps, hname⟩ | ⟨hbelow, hstep⟩
    · exact ⟨hlead, hsteps ▸ hr.above, .inl ⟨hsteps, hname⟩⟩
    · exact ⟨hlead, hbelow, .inr hstep⟩
  · rintro ⟨hlead, hbelow, hcase⟩
    have habove : (Location.ofPath root).steps <+: (Location.ofPath f.path).parent.steps := by
      rcases hcase with ⟨hsteps, -⟩ | hstep
      · exact hsteps ▸ hbelow
      · exact (hbelow.trans (List.prefix_append _ _)).trans hstep
    refine ⟨Location.ofPath root, ⟨List.mem_singleton_self _, habove, ?_⟩, hlead,
      hcase.imp_right fun hstep => ⟨hbelow, hstep⟩⟩
    intro r hr _
    rw [List.mem_singleton.1 hr]

/-- Modules below a directory, seen from there, among planned files. -/
def AreModulesBelow (way : List String) (files : List PlannedFile) (modules : List Location) :
    Prop :=
  ∀ l, l ∈ modules ↔ l.lead = "" ∧ l.steps ≠ [] ∧
    ∃ f ∈ files, Barrel.isSource f.path = true ∧ (Location.ofPath f.path).steps = way ++ l.steps

section
variable {modules : List Location} (hne : root ≠ "") (h : Path.isAbsolute root = false)
  (hrel : AreRelative files)
  (hmodules : AreModulesBelow (Location.ofPath root).steps files modules)
  (hfound : Barrel.AreFound modules)

include hne h hrel hmodules hfound

/-- A directory exports the same names whether modules are seen from the root or from above. -/
theorem mem_namesIn_here_iff (hd : d.lead = "") {name : String} :
    name ∈ Barrel.namesIn [Location.here] modules d ↔
      name ∈ namesIn [root] files ⟨"", (Location.ofPath root).steps ++ d.steps⟩ := by
  rw [Barrel.mem_namesIn_here hfound, mem_namesIn_singleton hne h hrel]
  constructor
  · rintro ⟨l, hl, -, hcase⟩
    obtain ⟨-, hsteps, f, hf, hsource, hway⟩ := (hmodules l).1 hl
    have hparent : (Location.ofPath f.path).parent.steps =
        (Location.ofPath root).steps ++ l.parent.steps := by
      rw [Location.parent, Location.parent, hway, List.dropLast_append_of_ne_nil hsteps]
    have hname : (Location.ofPath f.path).name = l.name := by
      rw [Location.name, Location.name, List.getLastD_eq_getLast?, List.getLastD_eq_getLast?, hway,
        List.getLast?_append_of_ne_nil _ hsteps]
    refine ⟨f, hf, hsource, rfl, List.prefix_append _ _, ?_⟩
    rw [hparent, List.append_right_inj, List.append_assoc, List.prefix_append_right_inj,
      Barrel.moduleName, hname]
    exact hcase
  · rintro ⟨f, hf, hsource, -, -, hcase⟩
    have habove : (Location.ofPath root).steps <+: (Location.ofPath f.path).parent.steps := by
      rcases hcase with ⟨hsteps, -⟩ | hstep
      · exact hsteps ▸ List.prefix_append _ _
      · exact (List.prefix_append _ _).trans ((List.prefix_append _ _).trans hstep)
    obtain ⟨rest, hrest⟩ := habove
    have hwhole := Barrel.parent_steps_append hsource
    rw [← hrest, List.append_assoc] at hwhole
    refine ⟨⟨"", rest ++ [(Location.ofPath f.path).name]⟩, (hmodules _).2
      ⟨rfl, by simp, f, hf, hsource, hwhole.symm⟩, hd, ?_⟩
    have hname : Location.name ⟨"", rest ++ [(Location.ofPath f.path).name]⟩ =
        (Location.ofPath f.path).name := List.getLastD_concat
    rw [← hrest, List.append_right_inj, List.append_assoc, List.prefix_append_right_inj] at hcase
    rw [Location.parent, List.dropLast_concat, Barrel.moduleName, hname]
    exact hcase

/-- The barrels of a scan are the planned ones, seen from the root. -/
theorem perm_barrelsOf : ((Barrel.sorted modules).map fun p =>
    (⟨Barrel.path ⟨"", (Location.ofPath root).steps ++ p.1.steps⟩, p.2⟩ : PlannedFile)).Perm
      (barrelsOf [root] files) := by
  have hplain : ∀ p ∈ Barrel.build [Location.here] modules,
      Location.IsPlain ⟨"", (Location.ofPath root).steps ++ p.1.steps⟩ := fun p hp =>
    ⟨rfl, List.forall_mem_append.2 ⟨fun _ => Location.isPlainStep_of_mem_ofPath,
      (Barrel.isPlain_of_mem_build hfound hp).1.steps⟩⟩
  have hkeys := Barrel.nodup_keys_build [Location.here] modules
  have hsorted : (Barrel.sorted modules).Perm (Barrel.build [Location.here] modules) :=
    List.mergeSort_perm _ _
  refine (hsorted.map _).trans ((List.perm_ext_iff_of_nodup ?_ ?_).2 fun b => ?_)
  · refine List.Nodup.map_on (fun p hp q hq heq => ?_) hkeys.of_map
    have hpath := Barrel.path_injective (hplain p hp) (hplain q hq) (congrArg PlannedFile.path heq)
    have hsteps := List.append_cancel_left (congrArg Location.steps hpath)
    refine List.inj_on_of_nodup_map hkeys hp hq (Location.eq_of_steps_eq ?_ hsteps)
    rw [(Barrel.isPlain_of_mem_build hfound hp).1.lead,
      (Barrel.isPlain_of_mem_build hfound hq).1.lead]
  · exact (nodup_paths_barrelsOf hrel).of_map
  · rw [List.mem_map, mem_barrelsOf hrel]
    simp only [getsBarrel_iff hrel, ← Entries.mem_valuesOf]
    constructor
    · rintro ⟨p, hp, rfl⟩
      have hlead := (Barrel.isPlain_of_mem_build hfound hp).1.lead
      obtain ⟨⟨name, hname⟩, htext⟩ := Barrel.mem_build.1 hp
      have hiff (n : String) : n ∈ Barrel.namesIn [Location.here] modules p.1 ↔
          n ∈ namesIn [root] files ⟨"", (Location.ofPath root).steps ++ p.1.steps⟩ :=
        mem_namesIn_here_iff hne h hrel hmodules hfound hlead
      refine ⟨_, ⟨name, (hiff name).1 hname⟩, ?_⟩
      rw [barrelOf, htext, Barrel.text_congr hiff]
    · rintro ⟨e, ⟨name, hname⟩, rfl⟩
      obtain ⟨f, -, -, hlead, ⟨rest, hrest⟩, -⟩ := (mem_namesIn_singleton hne h hrel).1 hname
      obtain rfl : e = ⟨"", (Location.ofPath root).steps ++ rest⟩ :=
        Location.eq_of_steps_eq hlead hrest.symm
      have hiff (n : String) : n ∈ Barrel.namesIn [Location.here] modules ⟨"", rest⟩ ↔
          n ∈ namesIn [root] files ⟨"", (Location.ofPath root).steps ++ rest⟩ :=
        mem_namesIn_here_iff hne h hrel hmodules hfound rfl
      refine ⟨(⟨"", rest⟩, Barrel.text (Barrel.namesIn [Location.here] modules ⟨"", rest⟩)), ?_, ?_⟩
      · exact Barrel.mem_build.2 ⟨⟨name, (hiff name).2 hname⟩, rfl⟩
      · rw [barrelOf, Barrel.text_congr hiff]

end

/-- The letters, digits and signs of output paths can stand in the name of an export. -/
theorem isRecognisable_char {c : Char}
    (h : TypeText.isWordChar c = true ∨ c = '-' ∨ c = '.') :
    c ≠ '"' ∧ Text.isLineEnd c = false := by
  rcases h with h | rfl | rfl
  · refine ⟨?_, Bool.eq_false_iff.2 fun hend => ?_⟩
    · rintro rfl
      exact absurd h (by decide)
    · have hblank := Text.isBlank_of_isLineEnd hend
      rw [TypeText.isBlank_of_isWordChar h] at hblank
      cases hblank
  · decide
  · decide

theorem isRecognisable_of_isDirectoryName {name : String} (h : Path.IsDirectoryName name) :
    Barrel.IsRecognisable name := by
  refine ⟨h.ne_empty, fun c hc => isRecognisable_char ?_⟩
  rcases h.chars c hc with hlower | hdigit | rfl
  · have halphanum := (Naming.isAlphanum_iff c).2 (.inr (.inl ((Naming.isLower_iff c).1 hlower)))
    exact .inl (by simp [TypeText.isWordChar, halphanum])
  · exact .inl (by simp [TypeText.isWordChar, Char.isAlphanum, hdigit])
  · exact .inr (.inl rfl)

/-- What an output path exports is recognisable. -/
theorem isRecognisable_moduleName {path : String} (h : IsOutputPath path)
    (hsource : Barrel.isSource path = true) :
    Barrel.IsRecognisable (Barrel.moduleName (Location.ofPath path)) := by
  obtain ⟨stem, ending, hlast, hne, hstem, hending⟩ := h.file
  have hname : (Location.ofPath path).name = stem ++ ending := by
    rw [h.ofPath_eq, Location.name, List.getLastD_eq_getLast?, hlast]
    rfl
  have hends := Barrel.moduleName_append hsource
  rw [hname] at hends
  have hlist := congrArg String.toList hends
  rw [String.toList_append, String.toList_append] at hlist
  have hsigns : ∀ ending ∈ Render.endings,
      ending.toList.all (fun c => TypeText.isWordChar c || c == '.') = true := by decide
  constructor
  · rintro hempty
    rw [hempty] at hlist
    obtain ⟨c, cs, hcs⟩ := List.exists_cons_of_ne_nil fun hnil => hne (String.toList_eq_nil_iff.1 hnil)
    rw [hcs] at hlist
    obtain rfl : '.' = c := (List.cons.inj hlist).1
    exact absurd (hstem '.' (by rw [hcs]; exact List.mem_cons_self)) (by decide)
  · intro c hc
    have hmem : c ∈ stem.toList ++ ending.toList := hlist ▸ List.mem_append_left _ hc
    refine isRecognisable_char ?_
    rcases List.mem_append.1 hmem with hc | hc
    · left
      rcases hstem c hc with hc | rfl
      · simp [TypeText.isWordChar, hc]
      · decide
    · have hsign := List.all_eq_true.1 (hsigns ending hending) c hc
      rw [Bool.or_eq_true, beq_iff_eq] at hsign
      exact hsign.imp_right Or.inr

/-- The names that output paths call for are recognisable. -/
theorem isRecognisable_of_mem_namesIn {roots : List String} (h : ∀ f ∈ files, IsOutputPath f.path)
    {name : String} (hname : name ∈ namesIn roots files d) : Barrel.IsRecognisable name := by
  have hrel : AreRelative files := fun f hf _ => congrArg Location.lead (h f hf).ofPath_eq
  obtain ⟨f, hf, hsource, r, -, -, ⟨-, rfl⟩ | ⟨-, hstep⟩⟩ := (mem_namesIn hrel).1 hname
  · exact isRecognisable_moduleName (h f hf) hsource
  · have hmem : name ∈ (Path.steps f.path).dropLast := by
      rw [(h f hf).ofPath_eq] at hstep
      exact hstep.subset (by simp)
    exact isRecognisable_of_isDirectoryName ((h f hf).isDirectoryName name hmem)

/-- Roots that are no directories of planned files get no barrels. -/
theorem apply_barrels_of_no_root {roots : List String} (hrel : AreRelative files)
    (h : ∀ r ∈ rootsOf roots, ∀ f ∈ files, ¬ r.steps <+: (Location.ofPath f.path).parent.steps) :
    (barrels roots).apply files = files := by
  have hnone : barrelsOf roots files = [] := by
    refine List.eq_nil_iff_forall_not_mem.2 fun b hb => ?_
    obtain ⟨d, ⟨f, hf, -, r, hroot, -⟩, -⟩ := (mem_barrelsOf hrel).1 hb
    exact h r hroot.mem f hf hroot.above
  show withBarrels _ _ = _
  rw [withBarrels_eq, hnone]
  simp

/-- The modules below a directory are the same with barrels. -/
theorem areModulesBelow_withBarrels_iff {roots : List String} (hrel : AreRelative files)
    {way : List String} {modules : List Location} :
    AreModulesBelow way (withBarrels roots files) modules ↔ AreModulesBelow way files modules := by
  have hmem : ∀ f, Barrel.isSource f.path = true → (f ∈ withBarrels roots files ↔ f ∈ files) := by
    refine fun f hsource => ⟨fun hf => mem_of_mem_withBarrels hrel hf fun d hd hpath => ?_,
      fun hf => mem_withBarrels_of_isSource hrel hf hsource⟩
    have hindex := Barrel.isSource_path (hd.isPlain hrel)
    rw [hpath, hsource] at hindex
    cases hindex
  refine forall_congr' fun l => iff_congr Iff.rfl (and_congr_right fun _ => and_congr_right fun _ =>
    exists_congr fun f => ?_)
  constructor
  · rintro ⟨hf, hsource, hsteps⟩
    exact ⟨(hmem f hsource).1 hf, hsource, hsteps⟩
  · rintro ⟨hf, hsource, hsteps⟩
    exact ⟨(hmem f hsource).2 hf, hsource, hsteps⟩

end Layout

/-- Output paths go down, and none of them is a directory of another: the names of files hold a
point, and those of directories hold none. -/
theorem areApart_of_isOutputPath {files : List PlannedFile} (h : ∀ f ∈ files, IsOutputPath f.path)
    (hdistinct : (files.map (·.path)).Nodup) : AreApart files where
  down f hf := (h f hf).isDown
  distinct := hdistinct
  apart f hf g hg hprefix := by
    obtain ⟨stem, ending, hlast, -, -, hending⟩ := (h f hf).file
    have hdirectory : stem ++ ending ∈ (Path.steps g.path).dropLast :=
      hprefix.subset (List.mem_of_getLast? hlast)
    have hpoint : ∀ ending ∈ Render.endings, '.' ∈ ending.toList := by decide
    have hmem : '.' ∈ (stem ++ ending).toList := by
      rw [String.toList_append]
      exact List.mem_append_right _ (hpoint ending hending)
    exact absurd ((h g hg).directories _ hdirectory '.' hmem) (by decide)

theorem areApart_withBarrels {roots : List String} {files : List PlannedFile}
    (h : ∀ f ∈ files, IsOutputPath f.path) (hdistinct : (files.map (·.path)).Nodup) :
    AreApart (Layout.withBarrels roots files) := by
  have hrel : Layout.AreRelative files := fun f hf _ => congrArg Location.lead (h f hf).ofPath_eq
  exact areApart_of_isOutputPath (Layout.isOutputPath_apply (.barrels roots) h)
    (Layout.nodup_paths_withBarrels hrel hdistinct)

namespace HoldsOnly
open Layout
variable {w : Workspace} {out : Location} {files : List PlannedFile} {way : List String}

/-- The modules below a directory are those planned files below it that are modules. -/
theorem areModulesBelow (h : HoldsOnly w out files) (hfiles : AreApart files) (hway : IsDown way) :
    AreModulesBelow way files
      (w.tree.modulesBelow (Location.place w.current ⟨out.lead, out.steps ++ way⟩)) := by
  intro l
  rw [FileTree.mem_modulesBelow, Location.place_append _ hway, List.append_assoc]
  refine and_congr_right fun _ => and_congr_right fun hsteps => ?_
  have hne : way ++ l.steps ≠ [] := List.append_ne_nil_of_right_ne_nil _ hsteps
  have hplace : out.place w.current ++ (way ++ l.steps) ≠ [] :=
    List.append_ne_nil_of_right_ne_nil _ hne
  have hfile : ∀ content, (out.place w.current ++ (way ++ l.steps), FileNode.file content) ∈
      w.tree.nodes ↔ ∃ f ∈ files, Path.steps f.path = way ++ l.steps ∧ f.bytes = content := by
    intro content
    rw [← h.only _ _ hne, FileTree.file?_eq_some, FileTree.node?_of_ne_nil _ hplace]
    exact ⟨Entries.get?_eq_some_of_mem h.nodup, Entries.mem_of_get?_eq_some⟩
  have hsource : ∀ f ∈ files, Path.steps f.path = way ++ l.steps →
      Barrel.isSource f.path = Barrel.isModuleName l.name := by
    intro f hf hpath
    rw [Barrel.isSource, Path.ofPath_of_isDown (hfiles.down f hf), hpath, Location.name,
      Location.name, List.getLastD_eq_getLast?, List.getLastD_eq_getLast?,
      List.getLast?_append_of_ne_nil _ hsteps]
  simp only [hfile]
  constructor
  · rintro ⟨hname, _, f, hf, hpath, -⟩
    refine ⟨f, hf, (hsource f hf hpath).trans hname, ?_⟩
    rw [Path.ofPath_of_isDown (hfiles.down f hf), hpath]
  · rintro ⟨f, hf, hname, hpath⟩
    rw [Path.ofPath_of_isDown (hfiles.down f hf)] at hpath
    exact ⟨hsource f hf hpath ▸ hname, _, f, hf, hpath, rfl⟩

/-- A directory above a planned file stands. -/
theorem standing_of_below (h : HoldsOnly w out files) (hfiles : AreApart files)
    (hfits : Location.Fits ⟨out.lead, out.steps ++ way⟩) {f : PlannedFile} (hf : f ∈ files)
    {rest : List String} (hpath : Path.steps f.path = way ++ rest) (hrest : rest ≠ []) :
    w.standing ⟨out.lead, out.steps ++ way⟩ = .ok (some .directory) := by
  have hdown : IsDown rest := (Path.isDown_append.1 (hpath ▸ hfiles.down f hf)).2
  have hlocation : out.below f.path = ⟨out.lead, out.steps ++ way ++ rest⟩ := by
    rw [List.append_assoc, ← hpath]
    exact hfiles.location_eq hf
  obtain ⟨place, hlocate, -⟩ :=
    Workspace.standing_eq_some (Workspace.standing_of_read (h.read f hf)).2
  rw [hlocation] at hlocate
  obtain ⟨-, hleads, -⟩ := FileTree.locate_eq_ok_iff.1 hlocate
  have hpassed := fun q hq => hleads q ((Location.mem_passed_append
    (l := ⟨out.lead, out.steps ++ way⟩) hdown).2 hq)
  obtain ⟨s, back, rfl⟩ := List.exists_cons_of_ne_nil hrest
  have hdirectory := hpassed _ (.inr ⟨[], s, back, rfl, (List.append_nil _).symm⟩)
  have hfound := FileTree.locate_eq_ok_iff.2 ⟨hfits, fun q hq => hpassed q (.inl hq), rfl⟩
  rw [Workspace.standing_of_ok hfound, hdirectory]

/-- A scan finds the planned modules below a directory. -/
theorem exists_scan (h : HoldsOnly w out files) (hfiles : AreApart files) (hway : IsDown way)
    (hfits : Location.Fits ⟨out.lead, out.steps ++ way⟩) :
    ∃ modules, w.scan ⟨out.lead, out.steps ++ way⟩ = .ok modules ∧
      AreModulesBelow way files modules := by
  obtain ⟨n, hn⟩ := Workspace.exists_standing (w := w) hfits
  unfold Workspace.scan
  rw [hn]
  by_cases hdirectory : n = some .directory
  · subst hdirectory
    exact ⟨_, rfl, h.areModulesBelow hfiles hway⟩
  · refine ⟨[], ?_, fun l => iff_of_false List.not_mem_nil ?_⟩
    · rcases n with _ | _ | _
      · rfl
      · rfl
      · exact absurd rfl hdirectory
    · rintro ⟨-, hsteps, f, hf, -, hpath⟩
      rw [Path.ofPath_of_isDown (hfiles.down f hf)] at hpath
      have hstanding := h.standing_of_below hfiles hfits hf hpath hsteps
      exact hdirectory (Except.ok.inj (hn.symm.trans hstanding))

section
variable {root : String} {d : Location}

theorem below_root (out : Location) (h : Path.isAbsolute root = false) :
    out.below root = ⟨out.lead, out.steps ++ (Location.ofPath root).steps⟩ := by
  rw [Location.below, if_pos (Location.lead_of_relative h)]

/-- A barrel below a root, seen from above the root. -/
theorem below_barrel (l : Location) (hd : d.IsPlain) (h : Path.isAbsolute root = false) :
    (l.below root).below (Barrel.path d) =
      l.below (Barrel.path ⟨"", (Location.ofPath root).steps ++ d.steps⟩) := by
  have hplain : Location.IsPlain ⟨"", (Location.ofPath root).steps ++ d.steps⟩ :=
    ⟨rfl, List.forall_mem_append.2 ⟨fun _ => Location.isPlainStep_of_mem_ofPath, hd.steps⟩⟩
  rw [Location.below_path _ hd, Location.below_path _ hplain, Location.index_eq _ hd,
    Location.index_eq _ hplain, below_root l h, List.append_assoc l.steps]

theorem text_below_barrel (hd : d.IsPlain) (h : Path.isAbsolute root = false) :
    ((Location.ofPath root).below (Barrel.path d)).text =
      Barrel.path ⟨"", (Location.ofPath root).steps ++ d.steps⟩ := by
  rw [Location.below_path _ hd, Location.index_eq _ hd, Location.lead_of_relative h, Barrel.path_eq]

/-- Where the only files are planned ones with barrels below a root, a scan of the root plans the same
barrels, and each of them is there. -/
theorem exists_barrels (hne : root ≠ "") (habsolute : Path.isAbsolute root = false)
    (hup : ".." ∉ (Location.ofPath root).steps) (hpaths : ∀ f ∈ files, IsOutputPath f.path)
    (hdistinct : (files.map (·.path)).Nodup)
    (h : HoldsOnly w out (withBarrels [root] files)) (hfits : (out.below root).Fits) :
    ∃ planned, w.barrels (out.below root) = .ok planned ∧
      (planned.map fun b => (⟨((Location.ofPath root).below b.path).text, b.content⟩ :
        PlannedFile)).Perm (barrelsOf [root] files) ∧
      ∀ b ∈ planned, (Job.read ((out.below root).below b.path)).run w = (.ok (.ok b.bytes), w) := by
  have hrel : AreRelative files := fun f hf _ => congrArg Location.lead (hpaths f hf).ofPath_eq
  have hway : IsDown (Location.ofPath root).steps :=
    ⟨fun _ => Location.isPlainStep_of_mem_ofPath, hup⟩
  have hroot := below_root out habsolute
  obtain ⟨modules, hscan, hmodules⟩ :=
    h.exists_scan (areApart_withBarrels hpaths hdistinct) hway (hroot ▸ hfits)
  rw [← hroot] at hscan
  rw [areModulesBelow_withBarrels_iff hrel] at hmodules
  have hfound : Barrel.AreFound modules := by
    intro l hl
    obtain ⟨hlead, hsteps, f, hf, -, hpath⟩ := (hmodules l).1 hl
    have hdown : IsDown ((Location.ofPath root).steps ++ l.steps) := by
      rw [← hpath, (hpaths f hf).ofPath_eq]
      exact (hpaths f hf).isDown
    exact ⟨hlead, hsteps, (Path.isDown_append.1 hdown).2⟩
  have hperm := perm_barrelsOf hne habsolute hrel hmodules hfound
  have hthere : ∀ p ∈ Barrel.sorted modules,
      (Job.read ((out.below root).below (Barrel.path p.1))).run w =
        (.ok (.ok (Text.utf8 p.2)), w) := by
    intro p hp
    have hplain := (Barrel.isPlain_of_mem_build hfound (Barrel.mem_sorted.1 hp)).1
    have hmem := hperm.subset (List.mem_map_of_mem hp)
    have hread := h.read _ (List.mem_append.2 (.inr hmem))
    rwa [← below_barrel out hplain habsolute] at hread
  refine ⟨(Barrel.sorted modules).map fun p => ⟨Barrel.path p.1, p.2⟩, ?_, ?_, ?_⟩
  · -- No barrel that is there is taken for a file that was written by hand.
    unfold Workspace.barrels
    rw [hscan]
    refine Workspace.kept_of_forall fun p hp => ?_
    obtain ⟨hplain, -, htext, hslash⟩ := Barrel.isPlain_of_mem_build hfound (Barrel.mem_sorted.1 hp)
    have hread := hthere p hp
    rw [Location.below_path _ hplain, htext] at hread
    rw [Workspace.isHandWritten_of_read hread, Workspace.heldByHand_text _ hslash,
      decide_eq_false]
    rintro ⟨n, hn, hbad⟩
    rw [mem_namesIn_here_iff hne habsolute hrel hmodules hfound hplain.lead] at hn
    exact hbad (isRecognisable_of_mem_namesIn hpaths hn)
  · rw [List.map_map]
    have hsame : (Barrel.sorted modules).map ((fun b : PlannedFile =>
        (⟨((Location.ofPath root).below b.path).text, b.content⟩ : PlannedFile)) ∘
          fun p => ⟨Barrel.path p.1, p.2⟩) = (Barrel.sorted modules).map fun p =>
            ⟨Barrel.path ⟨"", (Location.ofPath root).steps ++ p.1.steps⟩, p.2⟩ := by
      refine List.map_congr_left fun p hp => ?_
      have hplain := (Barrel.isPlain_of_mem_build hfound (Barrel.mem_sorted.1 hp)).1
      exact congrArg (PlannedFile.mk · p.2) (text_below_barrel hplain habsolute)
    rw [hsame]
    exact hperm
  · intro b hb
    obtain ⟨p, hp, rfl⟩ := List.mem_map.1 hb
    exact hthere p hp

end
end HoldsOnly

namespace Pipeline
variable {p : Pipeline} {document : Value} {a : Api} {reports : List RendererReport}
  {merged : List PlannedFile} {w : Workspace} {out : Location} {root : String}

/-- Planned files with the barrels below a root are written into an empty directory just if all their
locations are within the limits. A scan of the root then plans the barrels that are there, with what
they hold, and writing them skips every file. -/
theorem planBarrels_run_of_written (hp : Pass.normalize ∈ p.passes)
    (hrenderers : ∀ r ∈ p.renderers, r ∈ Renderer.builtins ∨ r = .noop)
    (htransformed : p.transformed document = .ok a) (hmerged : p.render a = .ok (reports, merged))
    (hne : root ≠ "") (habsolute : Path.isAbsolute root = false)
    (hup : ".." ∉ (Location.ofPath root).steps) (hfits : (out.below root).Fits)
    (hempty : IsEmptyDirectory w out) :
    ((∃ r w₁, (Job.writeFiles out ((Layout.barrels [root]).apply merged)).run w = (.ok r, w₁)) ↔
      ∀ f ∈ (Layout.barrels [root]).apply merged, (f.location out).IsWritable w.current) ∧
    ∀ r w₁, (Job.writeFiles out ((Layout.barrels [root]).apply merged)).run w = (.ok r, w₁) →
      ∃ planned w₂, (Job.planBarrels (out.below root)).run w₁ = (.ok planned, w₂) ∧
        (planned.map fun b => (⟨((Location.ofPath root).below b.path).text, b.content⟩ :
          PlannedFile)).Perm (Layout.barrelsOf [root] merged) ∧
        (∀ b ∈ planned, (Job.read ((out.below root).below b.path)).run w₁ =
          (.ok (.ok b.bytes), w₁)) ∧
        (Job.writeFiles (out.below root) planned).run w₂ = (.ok ⟨[], planned.length⟩, w₂) := by
  obtain ⟨hdistinct, hmem⟩ := merged_render hmerged
  have hpaths : ∀ f ∈ merged, IsOutputPath f.path := by
    intro f hf
    obtain ⟨r, hr, hf⟩ := (hmem f).1 hf
    rcases hrenderers r hr with hr | rfl
    · exact isOutputPath_of_mem_render hp htransformed hr hf
    · cases hf
  have hapart : AreApart (Layout.withBarrels [root] merged) :=
    areApart_withBarrels hpaths hdistinct
  refine ⟨Job.exists_writeFiles_run_iff hempty hapart, fun r w₁ hwritten => ?_⟩
  have hholds := Job.holdsOnly_of_writeFiles_run hempty hapart hwritten
  obtain ⟨planned, hplanned, hperm, hread⟩ :=
    hholds.exists_barrels hne habsolute hup hpaths hdistinct hfits
  obtain ⟨notes, hrun⟩ := Job.run_planBarrels (out.below root) w₁
  rw [hplanned] at hrun
  refine ⟨planned, w₁.saying notes, hrun, hperm, hread, Job.writeFiles_run_of_there fun b hb => ?_⟩
  obtain ⟨hstorable, -⟩ := Workspace.standing_of_read (hread b hb)
  have hsame := (Job.read_run hstorable w₁).symm.trans (hread b hb)
  refine (Job.read_run hstorable _).trans (Prod.ext ?_ rfl)
  exact (Prod.mk.inj hsame).1

/-- An operation of pets. -/
def listDocument : Value :=
  .record [("paths", .record [("/pets", .record [("get", Render.operationTagged "pets" "list")])])]

def listEndpoint : Endpoint :=
  { scope := ["pets"], operationName := "list", exportName := "petsList",
    builderName := "buildPetsListSpec", method := "GET", path := "/pets", supportsQuery := true,
    supportsMutation := false }

def listApi : Api := { endpoints := [listEndpoint] }

def serviceRenderer : Renderer :=
  { id := "axios-ts", slot := some Renderer.serviceSlot, render := Render.services .positional }

/-- Service classes alone. -/
def servicePipeline : Pipeline := { renderers := [serviceRenderer] }

def listFiles : List PlannedFile := (Render.services .positional listApi).files

theorem transformed_listDocument : servicePipeline.transformed listDocument = .ok listApi := by
  have hdocument : Endpoint.ofDocument listDocument = .ok listApi := by decide +kernel
  have hpasses : Pass.applyAll [.normalize] listApi.endpoints = .ok listApi.endpoints := by
    rw [Pass.applyAll, Pass.apply, listApi, List.mergeSort_singleton]
    rfl
  exact transformed_eq_ok.2 ⟨_, _, hdocument, hpasses, rfl⟩

theorem render_listApi :
    servicePipeline.render listApi = .ok ([⟨"axios-ts", 1, []⟩], listFiles) := by
  decide +kernel

theorem isEmptyDirectory_here : IsEmptyDirectory {} .here := by decide

/-- The barrel of a service class is planned again, and skipped. -/
theorem planBarrels_run_listFiles : ∃ r w₁ planned w₂,
    (Job.writeFiles .here ((Layout.barrels ["."]).apply listFiles)).run {} = (.ok r, w₁) ∧
    (Job.planBarrels (Location.here.below ".")).run w₁ = (.ok planned, w₂) ∧
    planned.map (·.content) = ["export * from \"./PetsService\";\n"] ∧
    (Job.writeFiles (Location.here.below ".") planned).run w₂ = (.ok ⟨[], 1⟩, w₂) := by
  have hrenderers : ∀ r ∈ servicePipeline.renderers, r ∈ Renderer.builtins ∨ r = .noop := by
    intro r hr
    rw [List.mem_singleton.1 hr]
    exact .inl (by simp [Renderer.builtins, serviceRenderer])
  obtain ⟨⟨-, hwrite⟩, hagain⟩ := @planBarrels_run_of_written servicePipeline _ _ _ _ {} .here "."
    List.mem_cons_self hrenderers transformed_listDocument render_listApi (by decide)
    (by decide +kernel) (by decide +kernel) (by decide +kernel) isEmptyDirectory_here
  have hpaths : ((Layout.barrels ["."]).apply listFiles).map (·.path) =
      ["PetsService.ts", "index.ts"] := by decide +kernel
  have hwritable : ∀ p ∈ ["PetsService.ts", "index.ts"],
      (Location.here.below p).IsWritable [] := by decide +kernel
  obtain ⟨r, w₁, hwritten⟩ := hwrite fun f hf => hwritable f.path
    (hpaths ▸ List.mem_map_of_mem hf)
  obtain ⟨planned, w₂, hplanned, hperm, -, hskipped⟩ := hagain r w₁ hwritten
  have hbarrels : Layout.barrelsOf ["."] listFiles =
      [⟨"index.ts", "export * from \"./PetsService\";\n"⟩] := by decide +kernel
  rw [hbarrels, List.perm_singleton] at hperm
  have hcontents := congrArg (List.map PlannedFile.content) hperm
  rw [List.map_map] at hcontents
  have hlength : planned.length = 1 := by simpa using congrArg List.length hperm
  rw [hlength] at hskipped
  exact ⟨r, w₁, planned, w₂, hwritten, hplanned, hcontents, hskipped⟩

theorem toList_longName : Job.longName.toList = List.replicate 256 'n' := String.toList_ofList

theorem isPlainStep_longName : Location.IsPlainStep Job.longName where
  step := by
    have hlength : Job.longName.toList.length = 256 := by
      rw [toList_longName, List.length_replicate]
    have hne : ∀ s : String, s.toList.length ≠ 256 → Job.longName ≠ s := fun s hs heq =>
      hs (heq ▸ hlength)
    simp [Location.isStep, hne "" (by decide), hne "." (by decide)]
  slash hslash := absurd (List.eq_of_mem_replicate (toList_longName ▸ hslash)) (by decide)

theorem rootsOf_longName : Layout.rootsOf [Job.longName] = [⟨"", [Job.longName]⟩] := by
  have habsolute : Path.isAbsolute Job.longName = false := by
    rw [Path.isAbsolute_eq, toList_longName, List.head?_replicate]
    decide
  have hstep := Location.ofPath_step isPlainStep_longName
  have hne : Job.longName ≠ "" := fun hempty =>
    isPlainStep_longName.ne_nil (String.toList_eq_nil_iff.2 hempty)
  rw [Layout.rootsOf_singleton hne habsolute, hstep]

/-- No root gets no barrels, though the directory that an empty path names has a module; and a scan
fails where the name of the root is too long, though no barrels are planned there. -/
theorem planBarrels_run_of_no_barrels : servicePipeline.transformed listDocument = .ok listApi ∧
    servicePipeline.render listApi = .ok ([⟨"axios-ts", 1, []⟩], listFiles) ∧
    IsEmptyDirectory {} .here ∧
    (Layout.barrels [""]).apply listFiles = listFiles ∧
    (Layout.barrels [Job.longName]).apply listFiles = listFiles ∧
    ∃ r w₁, (Job.writeFiles .here listFiles).run {} = (.ok r, w₁) ∧
      ((Job.planBarrels (Location.here.below "")).run w₁).1 =
        .ok [⟨"index.ts", "export * from \"./PetsService\";\n"⟩] ∧
      ((Job.planBarrels (Location.here.below Job.longName)).run w₁).1 = .error .unexpected := by
  have hplaces : ∀ f ∈ listFiles, Location.ofPath f.path = ⟨"", ["PetsService.ts"]⟩ := by
    decide +kernel
  have hrel : Layout.AreRelative listFiles := fun f hf _ => congrArg Location.lead (hplaces f hf)
  have hshort : (Layout.barrels [""]).apply listFiles = listFiles :=
    Layout.apply_barrels_of_no_root hrel fun r hr => by cases hr
  have hlong : (Layout.barrels [Job.longName]).apply listFiles = listFiles := by
    refine Layout.apply_barrels_of_no_root hrel fun r hr f hf habove => ?_
    rw [rootsOf_longName, List.mem_singleton] at hr
    rw [hr, hplaces f hf] at habove
    exact absurd (List.prefix_nil.1 habove) (List.cons_ne_nil _ _)
  have hbelow : Location.here.below Job.longName = ⟨"", [Job.longName]⟩ :=
    Location.below_step _ isPlainStep_longName
  have hscans : ((Job.writeFiles .here listFiles).run {}).1.isOk = true ∧
      ((Job.planBarrels (Location.here.below "")).run
        ((Job.writeFiles .here listFiles).run {}).2).1 =
          .ok [⟨"index.ts", "export * from \"./PetsService\";\n"⟩] ∧
      ((Job.planBarrels ⟨"", [Job.longName]⟩).run
        ((Job.writeFiles .here listFiles).run {}).2).1 = .error .unexpected := by decide +kernel
  refine ⟨transformed_listDocument, render_listApi, isEmptyDirectory_here, hshort, hlong, ?_⟩
  rcases hrun : (Job.writeFiles .here listFiles).run {} with ⟨_ | r, w₁⟩
  · rw [hrun] at hscans
    cases hscans.1
  · rw [hrun] at hscans
    exact ⟨r, w₁, rfl, hscans.2.1, hbelow ▸ hscans.2.2⟩

end Pipeline
end ApiScribe
