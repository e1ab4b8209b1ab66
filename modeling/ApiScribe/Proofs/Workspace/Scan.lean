import ApiScribe.Proofs.Barrel.Layout
import ApiScribe.Proofs.FileTree.Kept
import ApiScribe.Proofs.Workspace.Interrupted
import ApiScribe.Workspace.Barrels

/-! Scans for barrels as functions of a workspace. A scan changes nothing but what has been said, and
what it plans follows from the modules below a directory and from what stands at the index files of
their directories. -/
namespace ApiScribe
namespace Barrel

/-- The names that a directory exports for sources. -/
def namesIn (roots sources : List Location) (d : Location) : List String :=
  Entries.valuesOf (sources.flatMap (exportsOf roots)) d

theorem areGroups_exportsByDirectory (roots sources : List Location) :
    Entries.AreGroups (sources.flatMap (exportsOf roots)) (exportsByDirectory roots sources) :=
  Entries.areGroups_foldl_push _

/-- The directories with exports have barrels, of the names that they export. -/
theorem mem_build {roots sources : List Location} {p : Location × String} :
    p ∈ build roots sources ↔
      (∃ name, name ∈ namesIn roots sources p.1) ∧ p.2 = text (namesIn roots sources p.1) := by
  have hgroups := areGroups_exportsByDirectory roots sources
  have hkey : ∀ d, (∃ name, name ∈ namesIn roots sources d) ↔
      d ∈ (exportsByDirectory roots sources).keys := by
    intro d
    simp only [hgroups.mem_keys, namesIn, Entries.mem_valuesOf]
  rw [hkey, build, Entries.mapValues, List.mem_map]
  constructor
  · rintro ⟨q, hq, rfl⟩
    exact ⟨List.mem_map_of_mem hq, by rw [namesIn, ← hgroups.values q hq]⟩
  · rintro ⟨hd, htext⟩
    obtain ⟨q, hq, hd⟩ := List.mem_map.1 hd
    refine ⟨q, hq, Prod.ext hd ?_⟩
    rw [htext, ← hd, namesIn, ← hgroups.values q hq]

theorem nodup_keys_build (roots sources : List Location) : (build roots sources).keys.Nodup := by
  have hkeys : (build roots sources).keys = (exportsByDirectory roots sources).keys := by
    rw [build, Entries.mapValues, Entries.keys, Entries.keys, List.map_map]
    rfl
  rw [hkeys]
  exact (areGroups_exportsByDirectory roots sources).nodup

theorem isModuleName_indexName : isModuleName indexName = false := by simp [isModuleName]

/-- The barrels for modules, in the order of their directories. -/
def sorted (modules : List Location) : List (Location × String) :=
  (build [Location.here] modules).mergeSort fun a b => Job.stepsLe a.1.steps b.1.steps

end Barrel

/-- The index file of a directory below a root. -/
def Location.index (root d : Location) : Location := (root.below d.text).below Barrel.indexName

/-- The modules below a place, seen from there. -/
def FileTree.modulesBelow (t : FileTree) (place : List String) : List Location :=
  ((t.filesBelow place).keys.map fun steps => (⟨"", steps⟩ : Location)).filter fun l =>
    Barrel.isModuleName l.name

namespace FileTree
variable {t : FileTree} {place : List String}

/-- What a thing that stands in a tree adds to the modules below a place. -/
def moduleBelow? (place : List String) (p : List String × FileNode) : Option Location :=
  match p.2 with
  | .file _ =>
    if place.isPrefixOf p.1 && place.length < p.1.length &&
        Barrel.isModuleName (Location.name ⟨"", p.1.drop place.length⟩) then
      some ⟨"", p.1.drop place.length⟩
    else none
  | .directory => none

theorem modulesBelow_eq (t : FileTree) (place : List String) :
    t.modulesBelow place = t.nodes.filterMap (moduleBelow? place) := by
  rw [modulesBelow, filesBelow, Entries.keys, List.map_map, List.map_filterMap,
    List.filter_filterMap]
  refine List.filterMap_congr fun p _ => ?_
  obtain ⟨steps, node⟩ := p
  cases node with
  | directory => rfl
  | file content =>
    simp only [moduleBelow?]
    by_cases hbelow : (place.isPrefixOf steps && decide (place.length < steps.length)) = true
    · simp only [hbelow, if_true, Bool.true_and, Option.map_some, Function.comp_apply]
      rfl
    · simp only [hbelow, Bool.false_and]
      rfl

theorem mem_modulesBelow {l : Location} : l ∈ t.modulesBelow place ↔
    l.lead = "" ∧ l.steps ≠ [] ∧ Barrel.isModuleName l.name = true ∧
      ∃ content, (place ++ l.steps, FileNode.file content) ∈ t.nodes := by
  rw [modulesBelow_eq, List.mem_filterMap]
  constructor
  · rintro ⟨⟨steps, node⟩, hmem, hmodule⟩
    cases node with
    | directory => cases hmodule
    | file content =>
      simp only [moduleBelow?] at hmodule
      split at hmodule
      · next hcond =>
        simp only [Bool.and_eq_true, List.isPrefixOf_iff_prefix, decide_eq_true_eq] at hcond
        obtain ⟨⟨⟨rest, rfl⟩, hlength⟩, hname⟩ := hcond
        cases hmodule
        rw [List.drop_left] at hname ⊢
        refine ⟨rfl, ?_, hname, content, hmem⟩
        rintro rfl
        simp at hlength
      · cases hmodule
  · rintro ⟨hlead, hsteps, hname, content, hmem⟩
    obtain ⟨lead, steps⟩ := l
    obtain rfl : lead = "" := hlead
    refine ⟨_, hmem, ?_⟩
    have hlength : place.length < (place ++ steps).length := by
      rw [List.length_append]
      exact Nat.lt_add_of_pos_right (List.length_pos_of_ne_nil hsteps)
    have hcond : (place.isPrefixOf (place ++ steps) &&
        decide (place.length < (place ++ steps).length) &&
        Barrel.isModuleName (Location.name ⟨"", (place ++ steps).drop place.length⟩)) = true := by
      rw [List.drop_left, Bool.and_eq_true, Bool.and_eq_true, List.isPrefixOf_iff_prefix]
      exact ⟨⟨List.prefix_append _ _, decide_eq_true hlength⟩, hname⟩
    rw [moduleBelow?, if_pos hcond, List.drop_left]

/-- Index files are no modules, so that the modules remain without some of them. -/
theorem modulesBelow_without {places : List (List String)}
    (h : ∀ q ∈ places, q.getLast? = some Barrel.indexName) :
    (t.without places).modulesBelow place = t.modulesBelow place := by
  rw [modulesBelow_eq, modulesBelow_eq, nodes_without, List.filterMap_filter]
  refine List.filterMap_congr fun p _ => ?_
  by_cases hp : p.1 ∈ places
  · obtain ⟨steps, node⟩ := p
    simp only [hp, not_true_eq_false, decide_false, Bool.false_eq_true, if_false]
    cases node with
    | directory => rfl
    | file content =>
      simp only [moduleBelow?]
      rw [if_neg]
      simp only [Bool.and_eq_true, List.isPrefixOf_iff_prefix, decide_eq_true_eq]
      rintro ⟨⟨⟨rest, rfl⟩, hlength⟩, hname⟩
      have hrest : rest ≠ [] := by
        rintro rfl
        simp at hlength
      have hlast := h _ hp
      rw [List.getLast?_append_of_ne_nil _ hrest] at hlast
      rw [List.drop_left, Location.name, List.getLastD_eq_getLast?, hlast, Option.getD_some,
        Barrel.isModuleName_indexName] at hname
      cases hname
  · simp [hp]

theorem follow_ne_nameTooLong {ss : List String}
    (h : ∀ s ∈ ss, s = ".." ∨ s.utf8ByteSize ≤ nameLimit) :
    t.follow place ss ≠ .error .nameTooLong := by
  induction ss generalizing place with
  | nil => simp [follow]
  | cons s ss ih =>
    obtain ⟨hs, hss⟩ := List.forall_mem_cons.1 h
    have henter : t.enter place s ≠ .error .nameTooLong := by
      rw [enter]
      split
      · simp
      · simp
      · rcases hs with rfl | hs
        · simp
        · rw [if_neg (Nat.not_lt.2 hs)]
          split <;> simp
    rw [follow]
    split
    · exact ih hss
    · next r hr => rwa [hr] at henter

/-- No name is too long in a location within the limits. -/
theorem locate_ne_nameTooLong {current : List String} {l : Location} (h : l.Fits) :
    t.locate current l ≠ .error .nameTooLong := by
  rw [locate, if_neg (Nat.not_lt.2 h.text)]
  exact follow_ne_nameTooLong h.names

end FileTree

namespace Workspace

/-- What stands at a location. -/
def standing (w : Workspace) (l : Location) : Outcome (Option FileNode) :=
  match w.tree.locate w.current l with
  | .ok place => .ok (w.tree.node? place)
  | .error .nameTooLong => .unexpected
  | .error _ => .ok none

theorem standing_eq_some {w : Workspace} {l : Location} {n : FileNode}
    (h : w.standing l = .ok (some n)) :
    ∃ place, w.tree.locate w.current l = .ok place ∧ w.tree.node? place = some n := by
  unfold standing at h
  cases hlocate : w.tree.locate w.current l with
  | ok place =>
    rw [hlocate] at h
    exact ⟨place, rfl, Except.ok.inj h⟩
  | error r =>
    rw [hlocate] at h
    cases r <;> cases h

theorem standing_of_ok {w : Workspace} {l : Location} {place : List String}
    (h : w.tree.locate w.current l = .ok place) : w.standing l = .ok (w.tree.node? place) := by
  rw [standing, h]

theorem standing_of_error {w : Workspace} {l : Location} {r : Refusal}
    (h : w.tree.locate w.current l = .error r) :
    w.standing l = if r = .nameTooLong then Outcome.unexpected else .ok none := by
  unfold standing
  rw [h]
  cases r <;> rfl

theorem exists_standing {w : Workspace} {l : Location} (h : l.Fits) :
    ∃ n, w.standing l = .ok n := by
  cases hlocate : w.tree.locate w.current l with
  | ok place => exact ⟨_, standing_of_ok hlocate⟩
  | error r =>
    have hr : r ≠ .nameTooLong := by
      rintro rfl
      exact FileTree.locate_ne_nameTooLong h hlocate
    exact ⟨none, by rw [standing_of_error hlocate, if_neg hr]⟩

/-- The modules that a scan of a directory finds. -/
def scan (w : Workspace) (root : Location) : Outcome (List Location) := do
  match ← w.standing root with
  | some .directory => return w.tree.modulesBelow (root.place w.current)
  | _ => return []

/-- Whether what an index file holds was written by hand. -/
def heldByHand (index : Location) (content : Bytes) : Outcome Bool :=
  match Job.textOf content with
  | some s => .ok (Barrel.isHandWritten s)
  | none =>
    Outcome.fail (.write index.text ("cannot read existing barrel: " ++ Text.flawText content))

/-- Whether an index file is there and was written by hand. -/
def isHandWritten (w : Workspace) (index : Location) : Outcome Bool := do
  match ← w.standing index with
  | some (.file content) =>
    if index.isStorable then heldByHand index content else Outcome.unexpected
  | _ => return false

/-- The barrels whose index files were not written by hand. -/
def kept (hand : Location → Outcome Bool) : List (Location × String) → Outcome (List PlannedFile)
  | [] => .ok []
  | p :: more => do
    let byHand ← hand p.1
    let rest ← kept hand more
    return if byHand then rest else ⟨Barrel.path p.1, p.2⟩ :: rest

/-- If no index file was written by hand, all barrels are planned. -/
theorem kept_of_forall {hand : Location → Outcome Bool} {barrels : List (Location × String)}
    (h : ∀ p ∈ barrels, hand p.1 = .ok false) :
    kept hand barrels = .ok (barrels.map fun p => ⟨Barrel.path p.1, p.2⟩) := by
  induction barrels with
  | nil => rfl
  | cons p more ih =>
    obtain ⟨hp, hmore⟩ := List.forall_mem_cons.1 h
    rw [kept, hp, ih hmore]
    rfl

/-- A workspace in which more has been said. -/
def saying (w : Workspace) (notes : List Note) : Workspace := { w with notes := w.notes ++ notes }

theorem saying_nil (w : Workspace) : w.saying [] = w := by rw [saying, List.append_nil]

theorem saying_saying (w : Workspace) (ns ns' : List Note) :
    (w.saying ns).saying ns' = w.saying (ns ++ ns') := by
  simp only [saying, List.append_assoc]

/-- What a scan of a directory plans. -/
def barrels (w : Workspace) (root : Location) : Outcome (List PlannedFile) := do
  let modules ← w.scan root
  kept (fun d => w.isHandWritten (root.index d)) (Barrel.sorted modules)

end Workspace

namespace Job
variable {w : Workspace} {root : Location}

theorem run_standing (l : Location) (w : Workspace) : (standing l).run w = (w.standing l, w) := by
  unfold standing Workspace.standing
  rw [run_bind_ok (run_get w)]
  cases w.tree.locate w.current l with
  | ok place => rfl
  | error r => cases r <;> rfl

theorem run_isFile (l : Location) (w : Workspace) : (isFile l).run w =
    ((fun n => n matches some (.file _)) <$> w.standing l, w) := by
  unfold isFile
  rw [run_bind, run_standing]
  cases w.standing l with
  | error e => rfl
  | ok n =>
    rcases n with _ | _ | _ <;> rfl

theorem run_isDirectory (l : Location) (w : Workspace) : (isDirectory l).run w =
    ((fun n => n matches some .directory) <$> w.standing l, w) := by
  unfold isDirectory
  rw [run_bind, run_standing]
  cases w.standing l with
  | error e => rfl
  | ok n =>
    rcases n with _ | _ | _ <;> rfl

theorem run_modulesBelow (root : Location) (w : Workspace) :
    (modulesBelow root).run w = (w.scan root, w) := by
  unfold modulesBelow Workspace.scan
  rw [run_bind, run_isDirectory]
  cases hstanding : w.standing root with
  | error e => rfl
  | ok n =>
    rcases n with _ | content | _
    · rfl
    · rfl
    · obtain ⟨place, hlocate, -⟩ := Workspace.standing_eq_some hstanding
      have hplace := (FileTree.locate_eq_ok_iff.1 hlocate).2.2
      show ((get : Job Workspace) >>= _).run w = _
      rw [run_bind_ok (run_get w), hlocate, ← hplace]
      rfl

theorem run_isHandWritten (index : Location) (w : Workspace) :
    (isHandWritten index).run w = (w.isHandWritten index, w) := by
  unfold isHandWritten Workspace.isHandWritten
  rw [run_bind, run_isFile]
  cases hstanding : w.standing index with
  | error e => rfl
  | ok n =>
    rcases n with _ | content | _
    · rfl
    · obtain ⟨place, hlocate, hnode⟩ := Workspace.standing_eq_some hstanding
      have hread : w.tree.read w.current index = .ok content := by
        simp only [FileTree.read, hlocate, hnode]
      show ((read index) >>= _).run w =
        (if index.isStorable then Workspace.heldByHand index content else Outcome.unexpected, w)
      by_cases hstorable : index.isStorable = true
      · rw [run_bind_ok (read_run hstorable w), hread, if_pos hstorable, Workspace.heldByHand]
        dsimp only
        cases textOf content <;> rfl
      · rw [run_bind_error (read_run_of_not_isStorable (Bool.eq_false_iff.2 hstorable) w),
          if_neg hstorable]
        rfl
    · rfl

/-- Looking through the index files says something at most. The induction is on the barrels; what is
said makes no difference for those that follow. -/
theorem run_keepHandWritten (root : Location) (barrels : List (Location × String))
    (w : Workspace) : ∃ notes, (keepHandWritten root barrels).run w =
      (Workspace.kept (fun d => w.isHandWritten (root.index d)) barrels, w.saying notes) := by
  induction barrels generalizing w with
  | nil => exact ⟨[], by rw [Workspace.saying_nil]; rfl⟩
  | cons p more ih =>
    obtain ⟨d, content⟩ := p
    have hhand := run_isHandWritten (root.index d) w
    unfold keepHandWritten Workspace.kept
    cases hcase : w.isHandWritten (root.index d) with
    | error e =>
      rw [hcase] at hhand
      exact ⟨[], by rw [Workspace.saying_nil]; exact run_bind_error hhand⟩
    | ok byHand =>
      rw [hcase] at hhand
      cases byHand with
      | true =>
        let said : List Note := [⟨.warning, "Keeping hand-written " ++ (root.index d).text⟩]
        obtain ⟨notes, hrest⟩ := ih (w.saying said)
        refine ⟨said ++ notes, ?_⟩
        refine (run_bind_ok hhand).trans ((run_bind_ok (run_note _ _ w)).trans (hrest.trans ?_))
        rw [Workspace.saying_saying]
        show (Workspace.kept (fun d => w.isHandWritten (root.index d)) more, _) = _
        cases Workspace.kept (fun d => w.isHandWritten (root.index d)) more <;> rfl
      | false =>
        obtain ⟨notes, hrest⟩ := ih w
        refine ⟨notes, (run_bind_ok hhand).trans ?_⟩
        show ((keepHandWritten root more) >>= fun fs =>
          (return ⟨Barrel.path d, content⟩ :: fs : Job (List PlannedFile))).run w = _
        rw [run_bind, hrest]
        cases Workspace.kept (fun d => w.isHandWritten (root.index d)) more <;> rfl

/-- A scan plans what follows from the workspace, and says something at most. -/
theorem run_planBarrels (root : Location) (w : Workspace) :
    ∃ notes, (planBarrels root).run w = (w.barrels root, w.saying notes) := by
  have hscan := run_modulesBelow root w
  unfold planBarrels Workspace.barrels
  cases hcase : w.scan root with
  | error e =>
    rw [hcase] at hscan
    exact ⟨[], by rw [Workspace.saying_nil]; exact run_bind_error hscan⟩
  | ok modules =>
    rw [hcase] at hscan
    let said : List Note := [⟨.debug, "Scanned " ++ toString modules.length ++ " sources under " ++
      root.text ++ ", " ++ toString (Barrel.build [Location.here] modules).length ++ " barrels"⟩]
    obtain ⟨notes, hkept⟩ := run_keepHandWritten root (Barrel.sorted modules) (w.saying said)
    rw [Workspace.saying_saying] at hkept
    exact ⟨said ++ notes,
      (run_bind_ok hscan).trans ((run_bind_ok (run_note _ _ w)).trans hkept)⟩

end Job
end ApiScribe
