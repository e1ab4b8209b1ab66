import ApiScribe.Proofs.Barrel.Layout
import ApiScribe.Proofs.Barrel.Recognised
import ApiScribe.Proofs.Import
import ApiScribe.Proofs.Outcome
import ApiScribe.Proofs.Text.Lines
import ApiScribe.Proofs.Workspace.Scan

/-! Scans of a directory that has barrels already. An earlier barrel makes no difference to what is
planned unless it is taken for a file that was written by hand, and that it is just if one of its
names is not recognisable. -/
namespace ApiScribe
open Path (IsDown)

namespace Barrel
variable {sources : List Location} {d : Location}

/-- Modules as a scan finds them. -/
def AreFound (sources : List Location) : Prop :=
  ∀ l ∈ sources, l.lead = "" ∧ l.steps ≠ [] ∧ IsDown l.steps

theorem isDown_of_isPrefix {ss ts : List String} (h : IsDown ts) (hs : ss <+: ts) : IsDown ss := by
  obtain ⟨rest, rfl⟩ := hs
  exact (Path.isDown_append.1 h).1

theorem mem_namesIn_here (h : AreFound sources) {name : String} :
    name ∈ namesIn [Location.here] sources d ↔ ∃ l ∈ sources, d.lead = "" ∧
      ((d.steps = l.parent.steps ∧ name = moduleName l) ∨ d.steps ++ [name] <+: l.parent.steps) := by
  simp only [namesIn, Entries.mem_valuesOf, List.mem_flatMap]
  refine exists_congr fun l => and_congr_right fun hl => ?_
  obtain ⟨hlead, -, -⟩ := h l hl
  rw [mem_exportsOf_iff (by simp [Location.here]) hlead]
  have hroot : ∀ r, IsNearestRoot [Location.here] l r ↔ r = Location.here := by
    intro r
    constructor
    · intro hr
      exact List.mem_singleton.1 hr.mem
    · rintro rfl
      exact ⟨List.mem_singleton_self _, List.nil_prefix, by simp⟩
  have hbelow : Location.here.steps <+: d.steps := List.nil_prefix
  simp only [hroot, exists_eq_left, hbelow, true_and]

/-- A directory with names is on the way to a module, and its names hold no slash. -/
theorem isPlain_of_mem_namesIn (h : AreFound sources) {name : String}
    (hname : name ∈ namesIn [Location.here] sources d) :
    d.IsPlain ∧ IsDown d.steps ∧ '/' ∉ name.toList := by
  obtain ⟨l, hl, hlead, hcase⟩ := (mem_namesIn_here h).1 hname
  obtain ⟨-, hne, hdown⟩ := h l hl
  have hparent : IsDown l.parent.steps := isDown_of_isPrefix hdown (List.dropLast_prefix _)
  rcases hcase with ⟨hsteps, rfl⟩ | hstep
  · rw [← hsteps] at hparent
    refine ⟨⟨hlead, hparent.plain⟩, hparent, fun hmem => ?_⟩
    have hlast : l.name ∈ l.steps := by
      rw [Location.name, List.getLastD_eq_getLast?, List.getLast?_eq_some_getLast hne]
      exact List.getLast_mem hne
    rw [moduleName, String.toList_ofList] at hmem
    exact (hdown.plain _ hlast).slash (List.mem_of_mem_take hmem)
  · obtain ⟨hd, hlast⟩ := Path.isDown_append.1 (isDown_of_isPrefix hparent hstep)
    exact ⟨⟨hlead, hd.plain⟩, hd, (hlast.plain name (List.mem_singleton_self name)).slash⟩

/-- A barrel of found modules stands in a directory that goes down, and its names hold no slash. -/
theorem isPlain_of_mem_build (h : AreFound sources) {p : Location × String}
    (hp : p ∈ build [Location.here] sources) : p.1.IsPlain ∧ IsDown p.1.steps ∧
      p.2 = text (namesIn [Location.here] sources p.1) ∧
      ∀ n ∈ namesIn [Location.here] sources p.1, '/' ∉ n.toList := by
  obtain ⟨⟨name, hname⟩, htext⟩ := mem_build.1 hp
  obtain ⟨hplain, hdown, -⟩ := isPlain_of_mem_namesIn h hname
  exact ⟨hplain, hdown, htext, fun n hn => (isPlain_of_mem_namesIn h hn).2.2⟩

theorem mem_sorted {p : Location × String} :
    p ∈ sorted sources ↔ p ∈ build [Location.here] sources := by
  rw [sorted, List.mem_mergeSort]

end Barrel

namespace Location
variable {root d : Location} {current : List String}

theorem index_eq (root : Location) (hd : d.IsPlain) :
    root.index d = ⟨root.lead, root.steps ++ d.steps ++ [Barrel.indexName]⟩ := by
  have hback := ofPath_text hd
  have hbelow : root.below d.text = ⟨root.lead, root.steps ++ d.steps⟩ := by
    rw [below, hback, if_pos hd.lead]
  rw [index, hbelow, below_step _ Barrel.isPlainStep_indexName]

/-- The index file of a directory is where its barrel is planned. -/
theorem below_path (root : Location) (hd : d.IsPlain) :
    root.below (Barrel.path d) = root.index d := by
  rw [index_eq root hd, below, Barrel.ofPath_path hd, if_pos hd.lead]
  simp

theorem place_index (root : Location) (current : List String) (hd : d.IsPlain)
    (hdown : IsDown d.steps) :
    (root.index d).place current = root.place current ++ d.steps ++ [Barrel.indexName] := by
  have hindex : IsDown (d.steps ++ [Barrel.indexName]) :=
    Path.isDown_append.2 ⟨hdown, by decide⟩
  rw [index_eq root hd, List.append_assoc, place_append current hindex, List.append_assoc]

end Location

namespace Workspace
variable {w w' : Workspace} {root index l : Location} {content : Bytes}

/-- A file that is read stands where it is read, and its location can be opened. -/
theorem standing_of_read (h : (Job.read l).run w = (.ok (.ok content), w)) :
    l.isStorable = true ∧ w.standing l = .ok (some (.file content)) := by
  by_cases hstorable : l.isStorable = true
  · rw [Job.read_run hstorable] at h
    have hread : w.tree.read w.current l = .ok content :=
      Except.ok.inj (congrArg Prod.fst h)
    obtain ⟨hlocate, hnode⟩ := FileTree.read_eq_ok_iff.1 hread
    exact ⟨hstorable, by rw [standing_of_ok hlocate, hnode]⟩
  · rw [Job.read_run_of_not_isStorable (Bool.eq_false_iff.2 hstorable)] at h
    cases congrArg Prod.fst h

theorem isHandWritten_of_read (h : (Job.read l).run w = (.ok (.ok content), w)) :
    w.isHandWritten l = heldByHand l content := by
  obtain ⟨hstorable, hstanding⟩ := standing_of_read h
  rw [isHandWritten, hstanding]
  exact if_pos hstorable

/-- The text of a barrel is taken for one that was written by hand if one of its names is not
recognisable. -/
theorem heldByHand_text (l : Location) {names : List String}
    (h : ∀ n ∈ names, '/' ∉ n.toList) :
    heldByHand l (Text.utf8 (Barrel.text names)) =
      .ok (decide (∃ n ∈ names, ¬ Barrel.IsRecognisable n)) := by
  have htext : Job.textOf (Text.utf8 (Barrel.text names)) = some (Barrel.readBack names) := by
    rw [Job.textOf, Text.ofUtf8?_utf8]
    rfl
  rw [heldByHand, htext]
  refine congrArg Except.ok ?_
  rw [Bool.eq_iff_iff, decide_eq_true_iff]
  exact Barrel.isHandWritten_readBack_iff h

/-- A workspace without some of its files. -/
def without (w : Workspace) (root : Location) (files : List PlannedFile) : Workspace :=
  { w with tree := w.tree.without (files.map (·.place w.current root)) }

theorem standing_without {files : List PlannedFile}
    (h : ∀ q ∈ files.map (·.place w.current root), w.tree.node? q ≠ some .directory) :
    (w.without root files).standing l = (fun n =>
      if l.place w.current ∈ files.map (·.place w.current root) then none else n) <$>
        w.standing l := by
  cases hlocate : w.tree.locate w.current l with
  | ok place =>
    obtain ⟨-, -, rfl⟩ := FileTree.locate_eq_ok_iff.1 hlocate
    have hlocate' : (w.without root files).tree.locate w.current l = .ok (l.place w.current) :=
      FileTree.locate_without_ok h hlocate
    have hnode : (w.without root files).tree.node? (l.place w.current) = _ :=
      FileTree.node?_without h _
    rw [standing_of_ok hlocate, standing_of_ok hlocate', hnode]
    rfl
  | error r =>
    obtain ⟨r', hlocate', hlong⟩ := FileTree.locate_without_error h hlocate
    have hlocate' : (w.without root files).tree.locate w.current l = .error r' := hlocate'
    rw [standing_of_error hlocate, standing_of_error hlocate']
    simp only [hlong]
    split
    · rfl
    · exact congrArg Except.ok (ite_self none).symm

theorem isHandWritten_without_of_not_mem {files : List PlannedFile}
    (h : ∀ q ∈ files.map (·.place w.current root), w.tree.node? q ≠ some .directory)
    (hl : l.place w.current ∉ files.map (·.place w.current root)) :
    (w.without root files).isHandWritten l = w.isHandWritten l := by
  have hstanding := @standing_without w root l files h
  simp only [hl, if_false] at hstanding
  have hsame : (w.without root files).standing l = w.standing l := by
    rw [hstanding]
    cases w.standing l <;> rfl
  rw [isHandWritten, isHandWritten, hsame]

theorem isHandWritten_without_of_mem {files : List PlannedFile}
    (h : ∀ q ∈ files.map (·.place w.current root), w.tree.node? q ≠ some .directory)
    (hl : l.place w.current ∈ files.map (·.place w.current root)) {n : Option FileNode}
    (hn : w.standing l = .ok n) : (w.without root files).isHandWritten l = .ok false := by
  have hstanding := @standing_without w root l files h
  simp only [hl, if_true, hn] at hstanding
  rw [isHandWritten, hstanding]
  rfl

theorem scan_without {files : List PlannedFile}
    (h : ∀ q ∈ files.map (·.place w.current root), w.tree.node? q ≠ some .directory)
    (hindex : ∀ q ∈ files.map (·.place w.current root), q.getLast? = some Barrel.indexName) :
    (w.without root files).scan root = w.scan root := by
  have hmodules : (w.without root files).tree.modulesBelow
      (root.place (w.without root files).current) =
      w.tree.modulesBelow (root.place w.current) := FileTree.modulesBelow_without hindex
  have hstanding := @standing_without w root root files h
  unfold scan
  rw [hstanding, hmodules]
  cases hcase : w.standing root with
  | error e => rfl
  | ok n =>
    by_cases hmem : root.place w.current ∈ files.map (·.place w.current root)
    · have hnot : n ≠ some .directory := by
        rintro rfl
        obtain ⟨place, hlocate, hnode⟩ := standing_eq_some hcase
        obtain ⟨-, -, rfl⟩ := FileTree.locate_eq_ok_iff.1 hlocate
        exact h _ hmem hnode
      simp only [hmem, if_true]
      rcases n with _ | _ | _
      · rfl
      · rfl
      · exact absurd rfl hnot
    · simp only [hmem, if_false]
      rfl

/-- Only a file whose index file was not written by hand is planned. -/
theorem mem_of_mem_kept {hand : Location → Outcome Bool} {barrels : List (Location × String)}
    {planned : List PlannedFile} (h : kept hand barrels = .ok planned) {f : PlannedFile}
    (hf : f ∈ planned) : ∃ p ∈ barrels, f = ⟨Barrel.path p.1, p.2⟩ := by
  induction barrels generalizing planned with
  | nil =>
    cases h
    cases hf
  | cons p more ih =>
    obtain ⟨byHand, -, h⟩ := Outcome.bind_eq_ok.1 h
    obtain ⟨rest, hrest, h⟩ := Outcome.bind_eq_ok.1 h
    obtain rfl := Outcome.pure_eq_ok.1 h
    split at hf
    · obtain ⟨q, hq, hf⟩ := ih hrest hf
      exact ⟨q, List.mem_cons_of_mem p hq, hf⟩
    · rcases List.mem_cons.1 hf with rfl | hf
      · exact ⟨p, List.mem_cons_self, rfl⟩
      · obtain ⟨q, hq, hf⟩ := ih hrest hf
        exact ⟨q, List.mem_cons_of_mem p hq, hf⟩

/-- If index files count as written by hand that do not count so elsewhere, their barrels are left out
of what is planned there. -/
theorem kept_eq_filter {hand hand' : Location → Outcome Bool} {good : PlannedFile → Bool}
    {barrels : List (Location × String)}
    (h : ∀ p ∈ barrels, (hand p.1 = hand' p.1 ∧ good ⟨Barrel.path p.1, p.2⟩ = true) ∨
      (hand' p.1 = .ok false ∧ hand p.1 = .ok (!good ⟨Barrel.path p.1, p.2⟩))) :
    kept hand barrels = List.filter good <$> kept hand' barrels := by
  induction barrels with
  | nil => rfl
  | cons p more ih =>
    obtain ⟨hp, hmore⟩ := List.forall_mem_cons.1 h
    rw [kept, kept, ih hmore]
    rcases hp with ⟨hsame, hgood⟩ | ⟨hno, hyes⟩
    · rw [hsame]
      cases hand' p.1 with
      | error e => rfl
      | ok byHand =>
        cases kept hand' more with
        | error e => rfl
        | ok rest =>
          cases byHand with
          | true => rfl
          | false => exact congrArg Except.ok (List.filter_cons_of_pos hgood).symm
    · rw [hno, hyes]
      cases kept hand' more with
      | error e => rfl
      | ok rest =>
        cases hgood : good ⟨Barrel.path p.1, p.2⟩ with
        | true => exact congrArg Except.ok (List.filter_cons_of_pos hgood).symm
        | false =>
          exact congrArg Except.ok (List.filter_cons_of_neg (by simp [hgood])).symm

end Workspace

/-- A tree of names that files can have. -/
def FileTree.HasFileNames (t : FileTree) : Prop := ∀ p ∈ t.nodes, IsDown p.1

instance (t : FileTree) : Decidable t.HasFileNames :=
  inferInstanceAs (Decidable (∀ p ∈ t.nodes, IsDown p.1))

namespace Workspace
variable {w w' : Workspace} {root : Location} {modules : List Location}
  {planned : List PlannedFile}

/-- What a scan of a tree of file names finds are modules that go down. -/
theorem areFound_of_scan (hnames : w.tree.HasFileNames) (h : w.scan root = .ok modules) :
    Barrel.AreFound modules := by
  obtain ⟨n, -, h⟩ := Outcome.bind_eq_ok.1 h
  intro l hl
  rcases n with _ | _ | _
  · obtain rfl := Outcome.pure_eq_ok.1 h
    cases hl
  · obtain rfl := Outcome.pure_eq_ok.1 h
    cases hl
  · obtain rfl := Outcome.pure_eq_ok.1 h
    obtain ⟨hlead, hsteps, -, content, hmem⟩ := FileTree.mem_modulesBelow.1 hl
    exact ⟨hlead, hsteps, (Path.isDown_append.1 (hnames _ hmem)).2⟩

/-- What is planned are barrels of the modules that are found. -/
theorem mem_build_of_mem_barrels (hmodules : w.scan root = .ok modules)
    (hplanned : w.barrels root = .ok planned) {b : PlannedFile} (hb : b ∈ planned) :
    ∃ p ∈ Barrel.build [Location.here] modules, b = ⟨Barrel.path p.1, p.2⟩ := by
  obtain ⟨modules', hmodules', hplanned⟩ := Outcome.bind_eq_ok.1 hplanned
  obtain rfl : modules = modules' := Except.ok.inj (hmodules.symm.trans hmodules')
  obtain ⟨p, hp, hb⟩ := mem_of_mem_kept hplanned hb
  exact ⟨p, Barrel.mem_sorted.1 hp, hb⟩

/-- A planned file whose names, if it was planned before, are all recognisable. -/
def keeps (modules : List Location) (planned : List PlannedFile) (f : PlannedFile) : Bool :=
  decide (∀ b ∈ planned, b.path = f.path →
    ∀ n ∈ Barrel.namesIn [Location.here] modules (Location.ofPath f.path).parent,
      Barrel.IsRecognisable n)

/-- The place of a planned barrel is that of the index file of its directory. -/
theorem place_path {d : Location} (hd : d.IsPlain) {content : String} :
    PlannedFile.place w.current root ⟨Barrel.path d, content⟩ =
      (root.index d).place w.current := by
  rw [PlannedFile.place, PlannedFile.location, Location.below_path root hd]

theorem index_place_injective {d e : Location} (hd : d.IsPlain) (he : e.IsPlain)
    (hdown : IsDown d.steps) (hdown' : IsDown e.steps)
    (h : (root.index d).place w.current = (root.index e).place w.current) : d = e := by
  rw [Location.place_index root _ hd hdown, Location.place_index root _ he hdown',
    List.append_assoc, List.append_assoc] at h
  exact Location.eq_of_steps_eq (hd.lead.trans he.lead.symm)
    (List.append_cancel_right (List.append_cancel_left h))

/-- No directory stands where a planned file can be read. -/
theorem node?_ne_directory_of_planned
    (hthere : ∀ b ∈ planned, (Job.read (root.below b.path)).run w = (.ok (.ok b.bytes), w)) :
    ∀ q ∈ planned.map (·.place w.current root), w.tree.node? q ≠ some .directory := by
  intro q hq hnode
  obtain ⟨b, hb, rfl⟩ := List.mem_map.1 hq
  obtain ⟨place, hlocate, hfile⟩ := standing_eq_some (standing_of_read (hthere b hb)).2
  obtain ⟨-, -, rfl⟩ := FileTree.locate_eq_ok_iff.1 hlocate
  rw [PlannedFile.place, PlannedFile.location, hfile] at hnode
  cases hnode

section Earlier
variable (hfound : Barrel.AreFound modules)
  (hbuild : ∀ b ∈ planned, ∃ p ∈ Barrel.build [Location.here] modules, b = ⟨Barrel.path p.1, p.2⟩)
include hfound hbuild

theorem exists_of_mem_places {q : List String} (hq : q ∈ planned.map (·.place w.current root)) :
    ∃ p ∈ Barrel.build [Location.here] modules, ⟨Barrel.path p.1, p.2⟩ ∈ planned ∧
      q = (root.index p.1).place w.current := by
  obtain ⟨b, hb, rfl⟩ := List.mem_map.1 hq
  obtain ⟨p, hp, rfl⟩ := hbuild b hb
  exact ⟨p, hp, hb, place_path (Barrel.isPlain_of_mem_build hfound hp).1⟩

theorem mem_places {d : Location} (hd : d.IsPlain) {b : PlannedFile} (hb : b ∈ planned)
    (hpath : b.path = Barrel.path d) :
    (root.index d).place w.current ∈ planned.map (·.place w.current root) := by
  obtain ⟨p, hp, rfl⟩ := hbuild b hb
  have hsame : p.1 = d :=
    Barrel.path_injective (Barrel.isPlain_of_mem_build hfound hp).1 hd hpath
  rw [← hsame, ← place_path (Barrel.isPlain_of_mem_build hfound hp).1]
  exact List.mem_map_of_mem hb

theorem scan_without_planned
    (hfile : ∀ q ∈ planned.map (·.place w.current root), w.tree.node? q ≠ some .directory) :
    (w.without root planned).scan root = w.scan root := by
  refine scan_without hfile fun q hq => ?_
  obtain ⟨p, hp, -, rfl⟩ := exists_of_mem_places hfound hbuild hq
  obtain ⟨hplain, hdown, -⟩ := Barrel.isPlain_of_mem_build hfound hp
  rw [Location.place_index root _ hplain hdown, List.getLast?_concat]

variable (hthere : ∀ b ∈ planned,
  (Job.read (root.below b.path)).run w = (.ok (.ok b.bytes), w))
include hthere

/-- Where an earlier barrel stands at the index file of a directory, it is taken for a file that was
written by hand just if it is not kept. -/
theorem isHandWritten_of_planned {d : Location} (hd : d.IsPlain) (hdown : IsDown d.steps)
    (hmem : (root.index d).place w.current ∈ planned.map (·.place w.current root))
    {content : String} :
    (w.without root planned).isHandWritten (root.index d) = .ok false ∧
      w.isHandWritten (root.index d) =
        .ok (!keeps modules planned ⟨Barrel.path d, content⟩) := by
  obtain ⟨q, hq, hb, hplaces⟩ := exists_of_mem_places hfound hbuild hmem
  obtain ⟨hplain, hdown', htext, hslash⟩ := Barrel.isPlain_of_mem_build hfound hq
  obtain rfl : d = q.1 := index_place_injective hd hplain hdown hdown' hplaces
  have hread := hthere _ hb
  rw [Location.below_path root hplain, PlannedFile.bytes, htext] at hread
  refine ⟨isHandWritten_without_of_mem (node?_ne_directory_of_planned hthere) hmem
    (standing_of_read hread).2, ?_⟩
  rw [isHandWritten_of_read hread, heldByHand_text _ hslash]
  refine congrArg Except.ok ?_
  rw [keeps, Barrel.parent_ofPath_path hplain, ← decide_not, decide_eq_decide]
  constructor
  · rintro ⟨n, hn, hbad⟩ hall
    exact hbad (hall _ hb rfl n hn)
  · intro hnot
    by_contra hall
    exact hnot fun _ _ _ n hn => of_not_not fun hbad => hall ⟨n, hn, hbad⟩

/-- With earlier barrels in place those are left out of what is planned without them that are taken
for files that were written by hand. -/
theorem barrels_eq_filter (hnames : w.tree.HasFileNames) :
    w.barrels root =
      List.filter (keeps modules planned) <$> (w.without root planned).barrels root := by
  have hfile := node?_ne_directory_of_planned hthere
  unfold barrels
  rw [scan_without_planned hfound hbuild hfile]
  cases hmodules : w.scan root with
  | error e => rfl
  | ok found =>
    have hfound' := areFound_of_scan hnames hmodules
    refine kept_eq_filter fun p hp => ?_
    obtain ⟨hplain, hdown, -⟩ := Barrel.isPlain_of_mem_build hfound' (Barrel.mem_sorted.1 hp)
    by_cases hmem : (root.index p.1).place w.current ∈ planned.map (·.place w.current root)
    · -- An earlier barrel stands at the index file.
      exact .inr (isHandWritten_of_planned hfound hbuild hthere hplain hdown hmem)
    · -- What stands at the index file is the same without the earlier barrels.
      refine .inl ⟨(isHandWritten_without_of_not_mem hfile hmem).symm, ?_⟩
      exact decide_eq_true fun b hb hpath =>
        absurd (mem_places hfound hbuild hplain hb hpath) hmem

end Earlier

end Workspace

namespace Job
variable {w w' : Workspace} {root : Location} {modules : List Location}
  {planned : List PlannedFile}

/-- A barrel that is written for modules of a tree is taken for one that was written by hand just if
one of its names is not recognisable. A scan of any tree in which barrels of an earlier scan stand
plans the same as without them, or fails alike, just if all names of those among them that are planned
again are recognisable. -/
theorem planBarrels_run_again_iff (hnames : w.tree.HasFileNames) (hnames' : w'.tree.HasFileNames)
    (hmodules : ((modulesBelow root).run w).1 = .ok modules)
    (hplanned : ((planBarrels root).run w).1 = .ok planned)
    (hthere : ∀ b ∈ planned, (read (root.below b.path)).run w' = (.ok (.ok b.bytes), w')) :
    (∀ p ∈ Barrel.build [Location.here] modules, ∀ v l,
      (read l).run v = (.ok (.ok (Text.utf8 p.2)), v) →
      (isHandWritten l).run v = (.ok (decide (∃ n ∈ Barrel.namesIn [Location.here] modules p.1,
        ¬ Barrel.IsRecognisable n)), v)) ∧
    (((planBarrels root).run w').1 = ((planBarrels root).run (w'.without root planned)).1 ↔
      ∀ again, ((planBarrels root).run (w'.without root planned)).1 = .ok again →
        ∀ b ∈ planned, b.path ∈ again.map (·.path) →
          ∀ n ∈ Barrel.namesIn [Location.here] modules (Location.ofPath b.path).parent,
            Barrel.IsRecognisable n) := by
  have hfst : ∀ v, ((planBarrels root).run v).1 = v.barrels root := fun v => by
    obtain ⟨notes, hrun⟩ := run_planBarrels root v
    rw [hrun]
  have hscan : w.scan root = .ok modules := by rw [← hmodules, run_modulesBelow]
  rw [hfst] at hplanned
  have hfound := Workspace.areFound_of_scan hnames hscan
  have hbuild : ∀ b ∈ planned, ∃ p ∈ Barrel.build [Location.here] modules,
      b = ⟨Barrel.path p.1, p.2⟩ :=
    fun b hb => Workspace.mem_build_of_mem_barrels hscan hplanned hb
  refine ⟨fun p hp v l hread => ?_, ?_⟩
  · obtain ⟨-, -, htext, hslash⟩ := Barrel.isPlain_of_mem_build hfound hp
    rw [htext] at hread
    rw [run_isHandWritten, Workspace.isHandWritten_of_read hread,
      Workspace.heldByHand_text l hslash]
  · rw [hfst, hfst, Workspace.barrels_eq_filter hfound hbuild hthere hnames']
    cases (w'.without root planned).barrels root with
    | error e => simp
    | ok again =>
      have hsame : List.filter (Workspace.keeps modules planned) <$> Except.ok again =
          (Except.ok again : Outcome (List PlannedFile)) ↔
          again.filter (Workspace.keeps modules planned) = again :=
        ⟨Except.ok.inj, congrArg Except.ok⟩
      rw [hsame, List.filter_eq_self]
      simp only [Workspace.keeps, decide_eq_true_eq]
      constructor
      · intro hall _ heq b hb hpath
        cases heq
        obtain ⟨f, hf, hpath⟩ := List.mem_map.1 hpath
        rw [← hpath]
        exact hall f hf b hb hpath.symm
      · intro hall f hf b hb hpath
        rw [← hpath]
        exact hall again rfl b hb (hpath ▸ List.mem_map_of_mem hf)

/-- A workspace with files in a directory. -/
def sourcesWorkspace (files : List PlannedFile) : Workspace where
  tree := ⟨(["src"], .directory) :: files.map fun f => (["src", f.path], .file f.bytes)⟩

/-- The barrel of a module makes no difference when another module has taken its place. -/
theorem planBarrels_run_again_letters :
    let barrel : PlannedFile := ⟨"index.ts", "export * from \"./a\";\n"⟩
    ((planBarrels (.ofPath "src")).run (sourcesWorkspace [⟨"a.ts", ""⟩])).1 = .ok [barrel] ∧
      ((planBarrels (.ofPath "src")).run (sourcesWorkspace [barrel, ⟨"c.ts", ""⟩])).1 =
        .ok [⟨"index.ts", "export * from \"./c\";\n"⟩] := by
  intro barrel
  have hplanned : ((planBarrels (.ofPath "src")).run (sourcesWorkspace [⟨"a.ts", ""⟩])).1 =
      .ok [barrel] := by decide +kernel
  have hthere : ∀ b ∈ [barrel], (read (Location.below (.ofPath "src") b.path)).run
      (sourcesWorkspace [barrel, ⟨"c.ts", ""⟩]) =
        (.ok (.ok b.bytes), sourcesWorkspace [barrel, ⟨"c.ts", ""⟩]) := by
    refine List.forall_mem_singleton.2 ((read_run (by decide +kernel) _).trans (Prod.ext ?_ rfl))
    decide +kernel
  have hagain := (@planBarrels_run_again_iff (sourcesWorkspace [⟨"a.ts", ""⟩])
    (sourcesWorkspace [barrel, ⟨"c.ts", ""⟩]) (.ofPath "src") [⟨"", ["a.ts"]⟩] [barrel]
    (by decide +kernel) (by decide +kernel) (by decide +kernel) hplanned hthere).2.2
  refine ⟨hplanned, (hagain fun again _ b hb _ => ?_).trans (by decide +kernel)⟩
  rw [List.mem_singleton.1 hb]
  decide +kernel

/-- The barrel of a module with a quote in its name is taken for a file that was written by hand, so
that nothing is planned when another module has taken its place. -/
theorem planBarrels_run_quoted :
    let barrel : PlannedFile := ⟨"index.ts", "export * from \"./a\"b\";\n"⟩
    let before := sourcesWorkspace [⟨"a\"b.ts", ""⟩]
    ((planBarrels (.ofPath "src")).run before).1 = .ok [barrel] ∧
      ((writeFiles (.ofPath "src") [barrel]).run before).2.tree =
        (sourcesWorkspace [⟨"a\"b.ts", ""⟩, barrel]).tree ∧
      ((planBarrels (.ofPath "src")).run (sourcesWorkspace [barrel, ⟨"c.ts", ""⟩])).1 = .ok [] ∧
      ((planBarrels (.ofPath "src")).run (sourcesWorkspace [⟨"c.ts", ""⟩])).1 =
        .ok [⟨"index.ts", "export * from \"./c\";\n"⟩] := by
  decide +kernel

end Job
end ApiScribe
