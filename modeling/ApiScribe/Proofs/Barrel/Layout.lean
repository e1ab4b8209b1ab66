import Mathlib.Data.List.Perm.Basic
import Mathlib.Data.String.Basic
import Mathlib.Logic.Relation
import ApiScribe.Proofs.Barrel.Climb
import ApiScribe.Proofs.Entries

/-! Planned files with barrels. Every directory on the climb of a module gets one barrel, which
exports what the modules call for there; a barrel takes the place of the planned files with its path
and leaves every other file as it is. -/
namespace ApiScribe
namespace Barrel

/-- The file of an ending and the module before it. -/
theorem moduleName_append {path : String} (h : isSource path = true) :
    moduleName (Location.ofPath path) ++ ".ts" = (Location.ofPath path).name := by
  simp only [isSource, isModuleName, Bool.and_eq_true] at h
  have hends := h.1.1
  rw [String.endsWith_eq_endsWith_toSlice, String.Slice.endsWith_string_iff,
    String.copy_toSlice] at hends
  obtain ⟨front, hfront⟩ := hends
  have hlength : (Location.ofPath path).name.length = front.length + 3 := by
    rw [← String.length_toList, ← hfront, List.length_append]
    rfl
  rw [moduleName, ← String.toList_inj, String.toList_append, String.toList_ofList, hlength, ← hfront,
    Nat.add_sub_cancel, List.take_left']
  rfl

theorem name_ne_indexName {path : String} (h : isSource path = true) :
    (Location.ofPath path).name ≠ indexName := by
  simp only [isSource, isModuleName, Bool.and_eq_true, bne_iff_ne] at h
  exact h.2

theorem steps_ne_nil {path : String} (h : isSource path = true) :
    (Location.ofPath path).steps ≠ [] := by
  intro hnil
  have hname : (Location.ofPath path).name = "" := by simp [Location.name, hnil]
  have hends := moduleName_append h
  rw [hname] at hends
  exact absurd (congrArg String.length hends) (by simp)

theorem name_mem_steps {path : String} (h : isSource path = true) :
    (Location.ofPath path).name ∈ (Location.ofPath path).steps := by
  have hne := steps_ne_nil h
  rw [Location.name, List.getLastD_eq_getLast?, List.getLast?_eq_some_getLast hne]
  exact List.getLast_mem hne

theorem parent_steps_append {path : String} (h : isSource path = true) :
    (Location.ofPath path).parent.steps ++ [(Location.ofPath path).name] =
      (Location.ofPath path).steps := by
  have hne := steps_ne_nil h
  rw [Location.name, List.getLastD_eq_getLast?, List.getLast?_eq_some_getLast hne]
  exact List.dropLast_append_getLast hne

theorem isPlainStep_indexName : Location.IsPlainStep indexName := ⟨by decide, by decide⟩

theorem path_eq (d : Location) : path d = Location.text ⟨d.lead, d.steps ++ [indexName]⟩ := by
  rw [path, Location.below_step d isPlainStep_indexName]

theorem isPlain_index {d : Location} (h : d.IsPlain) :
    Location.IsPlain ⟨d.lead, d.steps ++ [indexName]⟩ :=
  h.append (List.forall_mem_singleton.2 isPlainStep_indexName)

/-- The index file of a plain directory is right below it. -/
theorem ofPath_path {d : Location} (h : d.IsPlain) :
    Location.ofPath (path d) = ⟨d.lead, d.steps ++ [indexName]⟩ := by
  rw [path_eq, Location.ofPath_text (isPlain_index h)]

theorem path_injective {d e : Location} (hd : d.IsPlain) (he : e.IsPlain) (h : path d = path e) :
    d = e := by
  have hofPath := congrArg Location.ofPath h
  rw [ofPath_path hd, ofPath_path he] at hofPath
  obtain ⟨hlead, hsteps⟩ := Location.mk.inj hofPath
  obtain ⟨_, _⟩ := d
  obtain ⟨_, _⟩ := e
  exact congrArg₂ Location.mk hlead (List.append_cancel_right hsteps)

theorem isSource_path {d : Location} (h : d.IsPlain) : isSource (path d) = false := by
  simp [isSource, ofPath_path h, Location.name, isModuleName]

end Barrel

namespace Layout

variable {roots : List String} {files : List PlannedFile} {d : Location}

/-- Barrels stand below no root. -/
theorem lead_of_mem_rootsOf {root : Location} (h : root ∈ rootsOf roots) : root.lead = "" := by
  obtain ⟨p, hp, rfl⟩ := List.mem_map.1 h
  obtain ⟨r, -, rfl⟩ := List.mem_map.1 (List.mem_filter.1 hp).1
  rw [Location.ofPath]
  dsimp only
  refine Location.lead_of_head? ?_
  rw [stripSlashes, String.toList_ofList]
  intro hhead
  -- what ends with a slash in reverse keeps it when slashes are dropped from the other side
  have hlast : ((r.toList.dropWhile (· = '/')).reverse.dropWhile (· = '/')).getLast? = some '/' := by
    rwa [List.head?_reverse] at hhead
  have hsuffix := List.dropWhile_suffix (l := (r.toList.dropWhile (· = '/')).reverse) (· = '/')
  obtain ⟨front, hfront⟩ := hsuffix
  have hwhole := congrArg List.getLast? hfront
  rw [List.getLast?_append, hlast, Option.some_or, List.getLast?_reverse] at hwhole
  have hstart := List.head?_dropWhile_not (· = '/') r.toList
  rw [← hwhole] at hstart
  simp at hstart

/-- The modules among planned files. -/
def sourcesOf (files : List PlannedFile) : List Location :=
  (files.filter fun f => Barrel.isSource f.path).map fun f => Location.ofPath f.path

/-- The directories of planned files with what they export. -/
def exportsIn (roots : List String) (files : List PlannedFile) : List (Location × String) :=
  (sourcesOf files).flatMap (Barrel.exportsOf (rootsOf roots))

/-- The names that a directory exports. -/
def namesIn (roots : List String) (files : List PlannedFile) (d : Location) : List String :=
  Entries.valuesOf (exportsIn roots files) d

/-- The barrel of a directory. -/
def barrelOf (roots : List String) (files : List PlannedFile) (d : Location) : PlannedFile :=
  ⟨Barrel.path d, Barrel.text (namesIn roots files d)⟩

/-- The barrels for planned files. -/
def barrelsOf (roots : List String) (files : List PlannedFile) : List PlannedFile :=
  Barrel.files (Barrel.build (rootsOf roots) (sourcesOf files))

/-- Planned modules are below no root. -/
def AreRelative (files : List PlannedFile) : Prop :=
  ∀ f ∈ files, Barrel.isSource f.path = true → (Location.ofPath f.path).lead = ""

/-- A directory between a module and the nearest root above it. -/
def GetsBarrel (roots : List String) (files : List PlannedFile) (d : Location) : Prop :=
  ∃ f ∈ files, Barrel.isSource f.path = true ∧
    ∃ root, Barrel.IsNearestRoot (rootsOf roots) (Location.ofPath f.path) root ∧
      Barrel.IsOnClimb root (Location.ofPath f.path) d

theorem withBarrels_eq : withBarrels roots files =
    files.filter (fun f => !(barrelsOf roots files).any (·.path == f.path)) ++
      barrelsOf roots files := rfl

theorem mem_exportsIn {p : Location × String} : p ∈ exportsIn roots files ↔
    ∃ f ∈ files, Barrel.isSource f.path = true ∧
      p ∈ Barrel.exportsOf (rootsOf roots) (Location.ofPath f.path) := by
  simp only [exportsIn, sourcesOf, List.mem_flatMap, List.mem_map, List.mem_filter]
  constructor
  · rintro ⟨_, ⟨f, ⟨hf, hsource⟩, rfl⟩, hp⟩
    exact ⟨f, hf, hsource, hp⟩
  · rintro ⟨f, hf, hsource, hp⟩
    exact ⟨_, ⟨f, ⟨hf, hsource⟩, rfl⟩, hp⟩

/-- A directory exports the modules in it and the steps on the climbs through it. -/
theorem mem_namesIn (hrel : AreRelative files) {name : String} : name ∈ namesIn roots files d ↔
    ∃ f ∈ files, Barrel.isSource f.path = true ∧
      ∃ root, Barrel.IsNearestRoot (rootsOf roots) (Location.ofPath f.path) root ∧ d.lead = "" ∧
        ((d.steps = (Location.ofPath f.path).parent.steps ∧
            name = Barrel.moduleName (Location.ofPath f.path)) ∨
          (root.steps <+: d.steps ∧ d.steps ++ [name] <+: (Location.ofPath f.path).parent.steps)) := by
  rw [namesIn, Entries.mem_valuesOf, mem_exportsIn]
  refine exists_congr fun f => and_congr_right fun hf => and_congr_right fun hsource => ?_
  exact Barrel.mem_exportsOf_iff (fun _ => lead_of_mem_rootsOf) (hrel f hf hsource)

theorem getsBarrel_iff (hrel : AreRelative files) :
    GetsBarrel roots files d ↔ ∃ name, (d, name) ∈ exportsIn roots files := by
  simp only [mem_exportsIn, GetsBarrel]
  rw [exists_comm]
  refine exists_congr fun f => ?_
  rw [exists_and_left]
  refine and_congr_right fun hf => ?_
  rw [exists_and_left]
  refine and_congr_right fun hsource => ?_
  exact (Barrel.exists_mem_exportsOf_iff (fun _ => lead_of_mem_rootsOf) (hrel f hf hsource)).symm

/-- The barrels are those of the directories that get one. -/
theorem mem_barrelsOf (hrel : AreRelative files) {b : PlannedFile} :
    b ∈ barrelsOf roots files ↔ ∃ d, GetsBarrel roots files d ∧ b = barrelOf roots files d := by
  have hgroups : Entries.AreGroups (exportsIn roots files)
      (Barrel.exportsByDirectory (rootsOf roots) (sourcesOf files)) :=
    Entries.areGroups_foldl_push _
  simp only [barrelsOf, Barrel.files, List.mem_mergeSort, List.mem_map, Barrel.build,
    Entries.mapValues, getsBarrel_iff hrel, ← hgroups.mem_keys]
  constructor
  · rintro ⟨_, ⟨p, hp, rfl⟩, rfl⟩
    exact ⟨p.1, List.mem_map_of_mem hp, by rw [barrelOf, namesIn, ← hgroups.values p hp]⟩
  · rintro ⟨_, hd, rfl⟩
    obtain ⟨p, hp, rfl⟩ := List.mem_map.1 hd
    exact ⟨_, ⟨p, hp, rfl⟩, by rw [barrelOf, namesIn, ← hgroups.values p hp]⟩

theorem GetsBarrel.isPlain (h : GetsBarrel roots files d) (hrel : AreRelative files) :
    d.IsPlain := by
  obtain ⟨f, hf, hsource, root, -, hclimb⟩ := h
  have hlead := hrel f hf hsource
  refine ⟨hclimb.lead.trans hlead, ?_⟩
  intro s hs
  exact Location.isPlainStep_of_mem_ofPath (List.mem_of_mem_dropLast (hclimb.above.subset hs))

/-- A directory that gets a barrel is a root or below one. -/
theorem GetsBarrel.exists_root (h : GetsBarrel roots files d) :
    ∃ r ∈ rootsOf roots, r.steps <+: d.steps := by
  obtain ⟨_, _, _, root, hroot, hclimb⟩ := h
  exact ⟨root, hroot.mem, hclimb.below⟩

theorem barrelOf_mem (hrel : AreRelative files) (h : GetsBarrel roots files d) :
    barrelOf roots files d ∈ withBarrels roots files :=
  List.mem_append.2 (.inr ((mem_barrelsOf hrel).2 ⟨d, h, rfl⟩))

/-- The file at the path of a barrel is the barrel. -/
theorem eq_barrelOf (hrel : AreRelative files) (h : GetsBarrel roots files d) {f : PlannedFile}
    (hf : f ∈ withBarrels roots files) (hpath : f.path = Barrel.path d) :
    f = barrelOf roots files d := by
  rcases List.mem_append.1 hf with hf | hf
  · have hkept := (List.mem_filter.1 hf).2
    rw [Bool.not_eq_true', List.any_eq_false] at hkept
    refine absurd ?_ (hkept _ ((mem_barrelsOf hrel).2 ⟨d, h, rfl⟩))
    simp [barrelOf, hpath]
  · obtain ⟨e, he, rfl⟩ := (mem_barrelsOf hrel).1 hf
    rw [Barrel.path_injective (he.isPlain hrel) (h.isPlain hrel) hpath]

/-- A planned file stays unless a barrel takes its path. -/
theorem mem_withBarrels_iff (hrel : AreRelative files) {f : PlannedFile} (hf : f ∈ files) :
    f ∈ withBarrels roots files ↔
      ∀ d, GetsBarrel roots files d → Barrel.path d = f.path → f = barrelOf roots files d := by
  constructor
  · intro hmem d hd hpath
    exact eq_barrelOf hrel hd hmem hpath.symm
  · intro h
    by_cases hany : (barrelsOf roots files).any (·.path == f.path) = true
    · obtain ⟨b, hb, hpath⟩ := List.any_eq_true.1 hany
      obtain ⟨d, hd, rfl⟩ := (mem_barrelsOf hrel).1 hb
      rw [h d hd (eq_of_beq hpath)]
      exact barrelOf_mem hrel hd
    · rw [withBarrels_eq, List.mem_append, List.mem_filter, Bool.not_eq_true']
      exact .inl ⟨hf, eq_false_of_ne_true hany⟩

/-- What is added has the path of a barrel. -/
theorem mem_of_mem_withBarrels (hrel : AreRelative files) {f : PlannedFile}
    (hf : f ∈ withBarrels roots files) (hpath : ∀ d, GetsBarrel roots files d → Barrel.path d ≠ f.path) :
    f ∈ files := by
  rcases List.mem_append.1 hf with hf | hf
  · exact (List.mem_filter.1 hf).1
  · obtain ⟨d, hd, rfl⟩ := (mem_barrelsOf hrel).1 hf
    exact absurd rfl (hpath d hd)

/-- Modules stay as they are. -/
theorem mem_withBarrels_of_isSource (hrel : AreRelative files) {f : PlannedFile} (hf : f ∈ files)
    (hsource : Barrel.isSource f.path = true) : f ∈ withBarrels roots files := by
  refine (mem_withBarrels_iff hrel hf).2 fun d hd hpath => ?_
  have hindex := Barrel.isSource_path (hd.isPlain hrel)
  rw [hpath, hsource] at hindex
  cases hindex

end Layout
end ApiScribe

/-! The order of planned files. What a barrel exports and where barrels stand depends on which files
are planned and not on their order, so the files after layout are the same up to order, each path
once. -/
namespace ApiScribe
namespace Barrel

theorem nodup_eraseDups (names : List String) : names.eraseDups.Nodup := by
  cases names with
  | nil => exact List.nodup_nil
  | cons name names =>
    rw [List.eraseDups_cons, List.nodup_cons, List.mem_eraseDups]
    exact ⟨by simp, nodup_eraseDups (names.filter fun n => !n == name)⟩
termination_by names.length
decreasing_by exact Nat.lt_succ_of_le (List.length_filter_le _ _)

/-- Names as a barrel has them. -/
def sortedNames (names : List String) : List String :=
  names.eraseDups.mergeSort fun a b => decide (a ≤ b)

theorem mem_sortedNames {names : List String} {name : String} :
    name ∈ sortedNames names ↔ name ∈ names := by
  rw [sortedNames, (List.mergeSort_perm _ _).mem_iff, List.mem_eraseDups]

/-- The lines of a barrel are in strictly increasing order. -/
theorem pairwise_sortedNames (names : List String) : (sortedNames names).Pairwise (· < ·) :=
  pairwise_lt_mergeSort_key id (fun _ _ => decide_eq_true_iff)
    (by simpa using nodup_eraseDups names)

/-- Strictly increasing lists with the same names are one. -/
theorem eq_of_pairwise_lt {names names' : List String} (h : names.Pairwise (· < ·))
    (h' : names'.Pairwise (· < ·)) (hmem : ∀ n, n ∈ names ↔ n ∈ names') : names = names' := by
  have hnodup : ∀ {ns : List String}, ns.Pairwise (· < ·) → ns.Nodup :=
    fun hns => hns.imp fun hlt => hlt.ne
  exact List.Perm.eq_of_pairwise (fun a b _ _ hab hba => absurd hba hab.asymm) h h'
    ((List.perm_ext_iff_of_nodup (hnodup h) (hnodup h')).2 hmem)

/-- The text of a barrel depends on the names only as a set. -/
theorem text_congr {names names' : List String} (h : ∀ n, n ∈ names ↔ n ∈ names') :
    text names = text names' := by
  have hsame : sortedNames names = sortedNames names' :=
    eq_of_pairwise_lt (pairwise_sortedNames names) (pairwise_sortedNames names') fun n => by
      rw [mem_sortedNames, mem_sortedNames, h]
  exact congrArg (fun ns => String.join (ns.map exportLine)) hsame

end Barrel

namespace Layout

variable {roots : List String} {files files' : List PlannedFile} {d : Location}

theorem getsBarrel_congr (h : ∀ f, f ∈ files ↔ f ∈ files') :
    GetsBarrel roots files d ↔ GetsBarrel roots files' d := by
  simp only [GetsBarrel, h]

theorem barrelOf_congr (h : ∀ f, f ∈ files ↔ f ∈ files') :
    barrelOf roots files d = barrelOf roots files' d := by
  have hnames : ∀ name, name ∈ namesIn roots files d ↔ name ∈ namesIn roots files' d := by
    intro name
    simp only [namesIn, Entries.mem_valuesOf, mem_exportsIn, h]
  rw [barrelOf, barrelOf, Barrel.text_congr hnames]

/-- Every directory has one barrel. -/
theorem nodup_paths_barrelsOf (hrel : AreRelative files) :
    ((barrelsOf roots files).map (·.path)).Nodup := by
  have hgroups : Entries.AreGroups (exportsIn roots files)
      (Barrel.exportsByDirectory (rootsOf roots) (sourcesOf files)) :=
    Entries.areGroups_foldl_push _
  have hdirectories : ((Barrel.exportsByDirectory (rootsOf roots) (sourcesOf files)).keys.map
      Barrel.path).Nodup := by
    refine List.Nodup.map_on ?_ hgroups.nodup
    intro d hd e he hpath
    have hplain : ∀ d ∈ (Barrel.exportsByDirectory (rootsOf roots) (sourcesOf files)).keys,
        d.IsPlain := fun d hd =>
      ((getsBarrel_iff hrel).2 ((hgroups.mem_keys d).1 hd)).isPlain hrel
    exact Barrel.path_injective (hplain d hd) (hplain e he) hpath
  have hperm : ((barrelsOf roots files).map (·.path)).Perm
      ((Barrel.exportsByDirectory (rootsOf roots) (sourcesOf files)).keys.map Barrel.path) := by
    refine ((List.mergeSort_perm _ _).map _).trans (.of_eq ?_)
    rw [Barrel.build, Entries.mapValues, Entries.keys, List.map_map, List.map_map, List.map_map]
    rfl
  exact hperm.nodup_iff.2 hdirectories

/-- With barrels every path is there once, too. -/
theorem nodup_paths_withBarrels (hrel : AreRelative files) (h : (files.map (·.path)).Nodup) :
    ((withBarrels roots files).map (·.path)).Nodup := by
  rw [withBarrels_eq, List.map_append]
  refine List.nodup_append.2 ⟨h.sublist (List.filter_sublist.map _), nodup_paths_barrelsOf hrel, ?_⟩
  rintro p hp _ hp' rfl
  obtain ⟨f, hf, rfl⟩ := List.mem_map.1 hp
  obtain ⟨b, hb, hpath⟩ := List.mem_map.1 hp'
  have hkept := (List.mem_filter.1 hf).2
  rw [Bool.not_eq_true', List.any_eq_false] at hkept
  exact hkept b hb (by simp [hpath])

theorem mem_barrelsOf_congr (hrel : AreRelative files) (h : ∀ f, f ∈ files ↔ f ∈ files')
    (b : PlannedFile) : b ∈ barrelsOf roots files ↔ b ∈ barrelsOf roots files' := by
  have hrel' : AreRelative files' := fun f hf => hrel f ((h f).2 hf)
  simp only [mem_barrelsOf hrel, mem_barrelsOf hrel', getsBarrel_congr h, barrelOf_congr h]

theorem mem_withBarrels_congr (hrel : AreRelative files) (h : ∀ f, f ∈ files ↔ f ∈ files')
    (f : PlannedFile) : f ∈ withBarrels roots files ↔ f ∈ withBarrels roots files' := by
  have hbarrels := @mem_barrelsOf_congr roots files files' hrel h
  have hany : (barrelsOf roots files).any (·.path == f.path) =
      (barrelsOf roots files').any (·.path == f.path) := by
    rw [Bool.eq_iff_iff, List.any_eq_true, List.any_eq_true]
    simp only [hbarrels]
  rw [withBarrels_eq, withBarrels_eq, List.mem_append, List.mem_append, List.mem_filter,
    List.mem_filter, h, hbarrels, hany]

/-- The same planned files in another order are laid out as the same files. -/
theorem apply_perm (layout : Layout) (hrel : AreRelative files) (hpaths : (files.map (·.path)).Nodup)
    (h : files.Perm files') : (layout.apply files).Perm (layout.apply files') ∧
      ((layout.apply files).map (·.path)).Nodup := by
  cases layout with
  | plain => exact ⟨h, hpaths⟩
  | barrels roots =>
    have hmem : ∀ f, f ∈ files ↔ f ∈ files' := fun f => h.mem_iff
    have hrel' : AreRelative files' := fun f hf => hrel f (h.mem_iff.2 hf)
    have hpaths' : (files'.map (·.path)).Nodup := (h.map _).nodup_iff.1 hpaths
    have hnodup : ((withBarrels roots files).map (·.path)).Nodup :=
      nodup_paths_withBarrels hrel hpaths
    refine ⟨?_, hnodup⟩
    exact (List.perm_ext_iff_of_nodup hnodup.of_map (nodup_paths_withBarrels hrel' hpaths').of_map).2
      (mem_withBarrels_congr hrel hmem)

end Layout
end ApiScribe

/-! What exports lead to. The names that a text exports are read from its lines, and an export of a
name in a directory stands for the module of that name, or for the index file of the subdirectory of
that name if there is no such module. Barrels export the names that they are made of. -/
namespace ApiScribe
namespace Barrel

/-- Whether a character stands for itself between the quotes of an export. -/
def isNameChar (c : Char) : Bool := c != '"' && c != '\\' && c != '\n' && c != '\r'

/-- Whether a name stands for itself between the quotes of an export. -/
def isWritable (name : String) : Bool := name.toList.all isNameChar

/-- The name that a line exports again. -/
def exportedName? (line : List Char) : Option String :=
  match Text.after? "export * from \"./".toList line with
  | some rest =>
    if rest.dropWhile isNameChar = ['"', ';'] then some (String.ofList (rest.takeWhile isNameChar))
    else none
  | none => none

/-- The names that a text exports again. -/
def exportedNames (content : String) : List String :=
  (Text.splitAt '\n' content.toList).filterMap exportedName?

theorem exportedNames_cut (front rest : String) :
    exportedNames (front ++ "\n" ++ rest) = exportedNames front ++ exportedNames rest := by
  have hlist : (front ++ "\n" ++ rest).toList = front.toList ++ '\n' :: rest.toList := by simp
  rw [exportedNames, hlist, Text.splitAt_append_cons, List.filterMap_append]
  rfl

/-- A writable name is read back from its export. -/
theorem exportedNames_export {name : String} (h : isWritable name = true) :
    exportedNames ("export * from \"./" ++ name ++ "\";") = [name] := by
  have hchars : ∀ c ∈ name.toList, isNameChar c = true := List.all_eq_true.1 h
  have hline : ("export * from \"./" ++ name ++ "\";").toList =
      "export * from \"./".toList ++ (name.toList ++ ['"', ';']) := by simp
  have hone : '\n' ∉ ("export * from \"./" ++ name ++ "\";").toList := by
    have hname : '\n' ∉ name.toList := fun hmem => absurd (hchars _ hmem) (by decide)
    rw [hline, List.mem_append, List.mem_append]
    simp only [hname, false_or, not_or]
    exact ⟨by decide, by decide⟩
  have hquote : ['"', ';'].takeWhile isNameChar = [] := by decide
  have hrest : ['"', ';'].dropWhile isNameChar = ['"', ';'] := by decide
  rw [exportedNames, Text.splitAt_eq_splitOn, List.splitOn_eq_singleton hone]
  simp only [List.filterMap_cons, List.filterMap_nil, exportedName?, hline,
    Text.after?_eq_some_iff.2 rfl, List.dropWhile_append_of_pos hchars,
    List.takeWhile_append_of_pos hchars, hquote, hrest, if_true, List.append_nil,
    String.ofList_toList]

theorem exportedNames_join (names : List String) :
    exportedNames (String.join (names.map exportLine)) =
      names.flatMap fun name => exportedNames ("export * from \"./" ++ name ++ "\";") := by
  induction names with
  | nil => rfl
  | cons name names ih =>
    have hline : exportLine name = ("export * from \"./" ++ name ++ "\";") ++ "\n" := by
      have hend : "\";\n" = "\";" ++ "\n" := by decide
      unfold exportLine
      rw [hend, @String.append_assoc ("export * from \"./" ++ name) "\";" "\n"]
    rw [List.map_cons, String.join_cons, hline, exportedNames_cut, ih, List.flatMap_cons]

/-- A barrel exports the writable names that it is made of. -/
theorem mem_exportedNames_text {names : List String} {name : String} (h : isWritable name = true)
    (hname : name ∈ names) : name ∈ exportedNames (text names) := by
  rw [text, exportedNames_join, List.mem_flatMap]
  refine ⟨name, ?_, by rw [exportedNames_export h]; exact List.mem_singleton_self name⟩
  rwa [List.mem_mergeSort, List.mem_eraseDups]

/-- A barrel exports nothing else if all the names that it is made of are writable. -/
theorem mem_of_mem_exportedNames_text {names : List String}
    (h : ∀ name ∈ names, isWritable name = true) {name : String}
    (hname : name ∈ exportedNames (text names)) : name ∈ names := by
  rw [text, exportedNames_join, List.mem_flatMap] at hname
  obtain ⟨other, hother, hname⟩ := hname
  rw [List.mem_mergeSort, List.mem_eraseDups] at hother
  rw [exportedNames_export (h other hother), List.mem_singleton] at hname
  rwa [hname]

/-- Where a path leads from a directory. -/
def target (d : Location) (p : String) : String := Path.normal (d.below ("./" ++ p)).text

/-- The file that the export of a name stands for: the module of that name in the directory if it
is planned, and else the index file of the subdirectory of that name. -/
def resolve (files : List PlannedFile) (d : Location) (name : String) : String :=
  if files.any (·.path == target d (name ++ ".ts")) then target d (name ++ ".ts")
  else target d (name ++ "/" ++ indexName)

/-- A planned file exports another one. -/
def Leads (files : List PlannedFile) (p q : String) : Prop :=
  ∃ f ∈ files, f.path = p ∧
    ∃ name ∈ exportedNames f.content, q = resolve files (Location.ofPath p).parent name

/-- A chain of exports starts at one planned file and ends at another. -/
def Reaches (files : List PlannedFile) : String → String → Prop :=
  Relation.ReflTransGen (Leads files)

theorem target_step {d : Location} (hd : d.IsPlain) (hup : ".." ∉ d.steps) {s : String}
    (hs : Location.IsPlainStep s) (hne : s ≠ "..") :
    target d s = Location.text ⟨"", d.steps ++ [s]⟩ := by
  have hplain := hd.append (List.forall_mem_singleton.2 hs)
  rw [target, Location.below_here, Location.ofPath_step hs,
    Location.normal_text hplain (by simp [hup, Ne.symm hne]), hd.lead]

theorem target_index {d : Location} (hd : d.IsPlain) (hup : ".." ∉ d.steps) {s : String}
    (hs : Location.IsPlainStep s) (hne : s ≠ "..") :
    target d (s ++ "/" ++ indexName) = path ⟨"", d.steps ++ [s]⟩ := by
  have hdeep : ∀ t ∈ [s, indexName], Location.IsPlainStep t := by
    simpa using ⟨hs, isPlainStep_indexName⟩
  have hsteps : Location.ofPath (s ++ "/" ++ indexName) = ⟨"", [s, indexName]⟩ := by
    have hjoin := Location.ofPath_intercalate (by simp) hdeep
    rwa [String.intercalate_cons_of_ne_nil (by simp), String.intercalate_singleton] at hjoin
  have hdown : ".." ∉ d.steps ++ [s, indexName] := by
    simpa [hup, Ne.symm hne] using (by decide : ".." ≠ indexName)
  rw [target, Location.below_here, hsteps, Location.normal_text (hd.append hdeep) hdown, hd.lead,
    path_eq]
  simp

/-- A name that holds no slash names a module next to it. -/
theorem isPlainStep_module {name : String} (h : '/' ∉ name.toList) :
    Location.IsPlainStep (name ++ ".ts") := by
  constructor
  · have hlength : (name ++ ".ts").length = name.length + 3 := String.length_append name ".ts"
    simp only [Location.isStep, Bool.and_eq_true, decide_eq_true_eq]
    constructor
    · intro hshort
      rw [hshort] at hlength
      exact absurd hlength (by simp)
    · intro hshort
      rw [hshort, show ".".length = 1 from rfl] at hlength
      omega
  · simpa using h

theorem isPlain_module {d : Location} (h : d.IsPlain) {name : String} (hname : '/' ∉ name.toList) :
    Location.IsPlain ⟨"", d.steps ++ [name ++ ".ts"]⟩ :=
  ⟨rfl, (h.append (List.forall_mem_singleton.2 (isPlainStep_module hname))).steps⟩

theorem append_ne_up (name : String) : name ++ ".ts" ≠ ".." := by
  intro h
  have hlength : name.length + 3 = 2 :=
    (String.length_append name ".ts").symm.trans (congrArg String.length h)
  omega

theorem parent_ofPath_path {d : Location} (h : d.IsPlain) : (Location.ofPath (path d)).parent = d := by
  rw [ofPath_path h, Location.parent, List.dropLast_concat]

theorem resolve_of_mem {files : List PlannedFile} {d : Location} {name : String}
    (h : ∃ f ∈ files, f.path = target d (name ++ ".ts")) :
    resolve files d name = target d (name ++ ".ts") := by
  have hany : files.any (·.path == target d (name ++ ".ts")) = true := by
    simpa only [List.any_eq_true, beq_iff_eq] using h
  unfold resolve
  rw [if_pos hany]

theorem resolve_of_not_mem {files : List PlannedFile} {d : Location} {name : String}
    (h : ¬ ∃ f ∈ files, f.path = target d (name ++ ".ts")) :
    resolve files d name = target d (name ++ "/" ++ indexName) := by
  have hany : ¬ files.any (·.path == target d (name ++ ".ts")) = true := by
    simpa only [List.any_eq_true, beq_iff_eq] using h
  unfold resolve
  rw [if_neg hany]

theorem isWritable_moduleName {file : Location} (h : isWritable file.name = true) :
    isWritable (moduleName file) = true := by
  refine List.all_eq_true.2 fun c hc => List.all_eq_true.1 h c ?_
  rw [moduleName, String.toList_ofList] at hc
  exact List.mem_of_mem_take hc

end Barrel
end ApiScribe
