import ApiScribe.Proofs.FileTree.Kept
import ApiScribe.Proofs.Import
import ApiScribe.Proofs.Workspace.Interrupted

/-! Writing into an empty directory. Planned files that go down, none of them where another has a
directory, are all that stands below the directory once they are written, and each is read there. -/
namespace ApiScribe
open Path (IsDown)

/-- Planned files that go down, each to a place of its own that is no directory of another. -/
structure AreApart (files : List PlannedFile) : Prop where
  down : ∀ f ∈ files, IsDown (Path.steps f.path)
  distinct : (files.map (·.path)).Nodup
  apart : ∀ f ∈ files, ∀ g ∈ files, ¬ Path.steps f.path <+: (Path.steps g.path).dropLast

/-- A location within the limits of a file tree, with room for a temporary file beside it. -/
structure Location.IsWritable (current : List String) (l : Location) : Prop where
  storable : l.isStorable = true
  fits : l.Fits
  room : FileTree.hasRoom (l.parent.place current) l.name = true

instance (current : List String) (l : Location) : Decidable (l.IsWritable current) :=
  decidable_of_iff (l.isStorable = true ∧ l.Fits ∧
    FileTree.hasRoom (l.parent.place current) l.name = true)
    ⟨fun ⟨hstorable, hfits, hroom⟩ => ⟨hstorable, hfits, hroom⟩,
      fun h => ⟨h.storable, h.fits, h.room⟩⟩

/-- A directory in which nothing stands, in a tree that has every place once. -/
structure IsEmptyDirectory (w : Workspace) (out : Location) : Prop where
  tree : w.tree.IsTree
  nodup : w.tree.nodes.keys.Nodup
  current : w.tree.node? w.current = some .directory
  stands : w.tree.at? w.current out = some .directory
  empty : ∀ p ∈ w.tree.nodes, out.place w.current <+: p.1 → p.1 = out.place w.current

/-- Planned files as all that stands below a directory. -/
structure HoldsOnly (w : Workspace) (out : Location) (files : List PlannedFile) : Prop where
  nodup : w.tree.nodes.keys.Nodup
  read : ∀ f ∈ files, (Job.read (out.below f.path)).run w = (.ok (.ok f.bytes), w)
  only : ∀ ss content, ss ≠ [] → (w.tree.file? (out.place w.current ++ ss) = some content ↔
    ∃ f ∈ files, Path.steps f.path = ss ∧ f.bytes = content)

instance (w : Workspace) (out : Location) : Decidable (IsEmptyDirectory w out) :=
  decidable_of_iff (w.tree.IsTree ∧ w.tree.nodes.keys.Nodup ∧
    w.tree.node? w.current = some .directory ∧ w.tree.at? w.current out = some .directory ∧
    ∀ p ∈ w.tree.nodes, out.place w.current <+: p.1 → p.1 = out.place w.current)
    ⟨fun ⟨htree, hnodup, hcurrent, hstands, hempty⟩ => ⟨htree, hnodup, hcurrent, hstands, hempty⟩,
      fun h => ⟨h.tree, h.nodup, h.current, h.stands, h.empty⟩⟩

section
variable {w w₁ : Workspace} {out : Location} {files : List PlannedFile} {f : PlannedFile}

theorem PlannedFile.location_of_isDown (h : IsDown (Path.steps f.path)) :
    f.location out = ⟨out.lead, out.steps ++ Path.steps f.path⟩ := by
  rw [PlannedFile.location, Location.below, Path.ofPath_of_isDown h, if_pos rfl]

/-- A file whose path goes down comes to stand that far below the directory. -/
theorem PlannedFile.place_of_isDown (current : List String) (h : IsDown (Path.steps f.path)) :
    f.place current out = out.place current ++ Path.steps f.path := by
  rw [PlannedFile.place, location_of_isDown h, Location.place_append _ h]

theorem AreApart.location_eq (h : AreApart files) (hf : f ∈ files) :
    f.location out = ⟨out.lead, out.steps ++ Path.steps f.path⟩ :=
  PlannedFile.location_of_isDown (h.down f hf)

theorem AreApart.place_eq (h : AreApart files) (hf : f ∈ files) :
    f.place w.current out = out.place w.current ++ Path.steps f.path :=
  PlannedFile.place_of_isDown w.current (h.down f hf)

theorem IsEmptyDirectory.locate (h : IsEmptyDirectory w out) :
    w.tree.locate w.current out = .ok (out.place w.current) ∧
      w.tree.node? (out.place w.current) = some .directory := by
  have hstands := h.stands
  unfold FileTree.at? at hstands
  split at hstands
  · next hlocate =>
    obtain ⟨-, -, rfl⟩ := FileTree.locate_eq_ok_iff.1 hlocate
    exact ⟨hlocate, hstands⟩
  · cases hstands

theorem IsEmptyDirectory.node?_eq_none (h : IsEmptyDirectory w out) {ss : List String}
    (hss : ss ≠ []) : w.tree.node? (out.place w.current ++ ss) = none := by
  have hne : out.place w.current ++ ss ≠ [] := List.append_ne_nil_of_right_ne_nil _ hss
  rw [FileTree.node?_of_ne_nil _ hne, Option.eq_none_iff_forall_ne_some]
  intro n hn
  have hsame := h.empty _ (Entries.mem_of_get?_eq_some hn) (List.prefix_append _ _)
  exact hss (List.append_right_eq_self.1 hsame)

theorem AreApart.nodup_places (h : AreApart files) :
    (files.map (·.place w.current out)).Nodup := by
  refine List.Nodup.map_on ?_ h.distinct.of_map
  intro f hf g hg hplace
  rw [h.place_eq hf, h.place_eq hg] at hplace
  have hpath := Path.steps_injective (List.append_cancel_left hplace)
  exact List.inj_on_of_nodup_map h.distinct hf hg hpath

theorem IsEmptyDirectory.file?_place (h : IsEmptyDirectory w out) (hfiles : AreApart files)
    (hf : f ∈ files) : w.tree.file? (f.place w.current out) = none := by
  rw [hfiles.place_eq hf, FileTree.file?, h.node?_eq_none (Path.steps_ne_nil _)]

/-- Planned files within the limits can all be reached from an empty directory. -/
theorem IsEmptyDirectory.areReachable (h : IsEmptyDirectory w out) (hfiles : AreApart files)
    (hwritable : ∀ f ∈ files, (f.location out).IsWritable w.current) :
    AreReachable w out files where
  tree := h.tree
  current := h.current
  distinct := hfiles.nodup_places
  apart f hf g hg := by
    rw [hfiles.place_eq hf, hfiles.place_eq hg, List.dropLast_append_of_ne_nil (Path.steps_ne_nil _),
      List.prefix_append_right_inj]
    exact hfiles.apart f hf g hg
  directory f hf := by
    rw [hfiles.place_eq hf, h.node?_eq_none (Path.steps_ne_nil _)]
    exact Option.some_ne_none _ |>.symm
  above f hf q hq := by
    rw [hfiles.place_eq hf, List.dropLast_append_of_ne_nil (Path.steps_ne_nil _),
      List.mem_inits] at hq
    have hdirectory := h.locate.2
    rcases List.prefix_or_prefix_of_prefix hq (List.prefix_append _ _) with
      ⟨rest, hrest⟩ | ⟨front, rfl⟩
    · rcases List.eq_nil_or_concat rest with rfl | ⟨rest, s, rfl⟩
      · rw [List.append_nil] at hrest
        rw [FileTree.file?, hrest, hdirectory]
      · have habove : q <+: (out.place w.current).dropLast := by
          rw [← hrest, List.concat_eq_append, ← List.append_assoc, List.dropLast_concat]
          exact List.prefix_append _ _
        rw [FileTree.file?, h.tree.node?_of_prefix hdirectory habove]
    · by_cases hfront : front = []
      · rw [hfront, List.append_nil, FileTree.file?, hdirectory]
      · rw [FileTree.file?, h.node?_eq_none hfront]
  detour f hf q hq := by
    rw [hfiles.location_eq hf, Location.mem_passed_append (hfiles.down f hf)] at hq
    rcases hq with hout | ⟨front, s, back, hsplit, rfl⟩
    · exact .inr ((FileTree.locate_eq_ok_iff.1 h.locate.1).2.1 q hout)
    · left
      rw [hfiles.place_eq hf, hsplit, List.dropLast_append_of_ne_nil (by simp),
        List.prefix_append_right_inj, List.dropLast_append_of_ne_nil (by simp)]
      exact List.prefix_append _ _
  storable f hf := (hwritable f hf).storable
  fits f hf := (hwritable f hf).fits
  room f hf _ := (hwritable f hf).room

end

namespace Job
open FileTree
variable {w w₁ : Workspace} {root out : Location} {files : List PlannedFile} {f : PlannedFile}
  {P : FileTree → Prop}

theorem isKept_replace (hP : IsKept P) (h : P w.tree) (l : Location) (content : Bytes) :
    P ((replace l content).run w).2.tree := by
  cases hstorable : l.isStorable with
  | false =>
    rw [replace_run_of_not_isStorable hstorable]
    exact h
  | true =>
    have hreplace := @IsKept.replace P w.tree w.current hP h l content
    rcases hrun : w.tree.replace w.current l content with ⟨t, _ | r⟩
    · rw [hrun] at hreplace
      rw [replace_run hstorable hrun]
      exact hreplace
    · rw [hrun] at hreplace
      rw [replace_run_refused hstorable hrun]
      exact hreplace

/-- A planned file is compared with what is there, and replaces it if it differs. -/
theorem writeFile_run_eq (root : Location) (f : PlannedFile) (w : Workspace) :
    (writeFile root f).run w = match ((holds (f.location root) f.bytes).run w).1 with
      | .error e => (.error e, w)
      | .ok true => (.ok false, w)
      | .ok false => match (replace (f.location root) f.bytes).run w with
        | (.ok (), w') => (.ok true, { w' with notes := w'.notes ++ [f.note root] })
        | (.error e, w') => (.error e, w') := by
  have hleft := holds_run_snd (f.location root) f.bytes w
  rcases hrun : (holds (f.location root) f.bytes).run w with ⟨_ | there, w'⟩
  · rw [hrun] at hleft
    obtain rfl : w' = w := hleft
    exact run_bind_error hrun
  rw [hrun] at hleft
  obtain rfl : w' = w := hleft
  cases there with
  | true => exact run_bind_ok hrun
  | false =>
    have hwrite : (writeFile root f).run w' =
        (replace (f.location root) f.bytes >>= fun _ =>
          note .debug ("Wrote " ++ (f.location root).text) >>= fun _ =>
            return true : Job Bool).run w' := run_bind_ok hrun
    rw [hwrite, run_bind]
    rcases (replace (f.location root) f.bytes).run w' with ⟨_ | _, w''⟩ <;> rfl

theorem isKept_writeFile (hP : IsKept P) (h : P w.tree) (root : Location) (f : PlannedFile) :
    P ((writeFile root f).run w).2.tree := by
  have hreplace := isKept_replace hP h (f.location root) f.bytes
  rw [writeFile_run_eq]
  rcases ((holds (f.location root) f.bytes).run w).1 with _ | _ | _
  · exact h
  · rcases hrun : (replace (f.location root) f.bytes).run w with ⟨_ | _, w'⟩
    all_goals
      rw [hrun] at hreplace
      exact hreplace
  · exact h

/-- Writing files keeps what putting and taking away keep. -/
theorem isKept_writeFiles (hP : IsKept P) (h : P w.tree) (root : Location)
    (files : List PlannedFile) : P ((writeFiles root files).run w).2.tree := by
  induction files generalizing w with
  | nil => exact h
  | cons f files ih =>
    have hwrite := isKept_writeFile hP h root f
    rcases hrun : (writeFile root f).run w with ⟨e | wrote, w'⟩
    · rw [hrun] at hwrite
      have hstop : (writeFiles root (f :: files)).run w = (.error e, w') := run_bind_error hrun
      rw [hstop]
      exact hwrite
    · rw [hrun] at hwrite
      have hrest := ih hwrite
      rw [writeFiles_run_cons hrun]
      rcases hmore : (writeFiles root files).run w' with ⟨_ | _, w''⟩
      all_goals
        rw [hmore] at hrest
        exact hrest

/-- Where a file was replaced, its location is within the limits. -/
theorem isWritable_of_replace_run {l : Location} {content : Bytes}
    (h : (replace l content).run w = (.ok (), w₁)) : l.IsWritable w.current := by
  have hstorable := (read_of_replace_run h).1
  rcases hrun : w.tree.replace w.current l content with ⟨t, _ | r⟩
  · obtain ⟨hfits, hroom⟩ := fits_of_replace hrun
    exact ⟨hstorable, hfits, hroom⟩
  · cases h.symm.trans (replace_run_refused hstorable hrun)

/-- Where a file was written that was not there, its location is within the limits. -/
theorem isWritable_of_writeFile_run {wrote : Bool}
    (hnone : w.tree.file? (f.place w.current root) = none)
    (h : (writeFile root f).run w = (.ok wrote, w₁)) : (f.location root).IsWritable w.current := by
  have hleft := holds_run_snd (f.location root) f.bytes w
  rw [writeFile_run_eq] at h
  rcases hrun : (holds (f.location root) f.bytes).run w with ⟨_ | there, w'⟩
  · rw [hrun] at h
    cases h
  rw [hrun] at hleft h
  obtain rfl : w' = w := hleft
  cases there with
  | true =>
    have hfile := file?_of_read (read_of_holds_run hrun)
    rw [PlannedFile.place, hfile] at hnone
    cases hnone
  | false =>
    rcases hreplace : (replace (f.location root) f.bytes).run w' with ⟨_ | _, w''⟩
    · simp only [hreplace] at h
      cases congrArg Prod.fst h
    · exact isWritable_of_replace_run hreplace

/-- If all files that are not there were written, their locations are within the limits. The induction
is on the files; writing one puts nothing in the places of those that follow. -/
theorem isWritable_of_writeFiles_run {r : WriteResult}
    (hdistinct : (files.map (·.place w.current root)).Nodup)
    (hnone : ∀ f ∈ files, w.tree.file? (f.place w.current root) = none)
    (h : ((writeFiles root files).run w).1 = .ok r) :
    ∀ f ∈ files, (f.location root).IsWritable w.current := by
  induction files generalizing w r with
  | nil => simp
  | cons f files ih =>
    obtain ⟨hfresh, hdistinct⟩ := List.nodup_cons.1 hdistinct
    obtain ⟨hf, hnone⟩ := List.forall_mem_cons.1 hnone
    rcases writeFile_run_cases root f w with ⟨wrote, w', hwrite, hcurrent, hfiles⟩ | ⟨e, w', hfail, -⟩
    · rw [writeFiles_run_cons hwrite] at h
      rcases hrest : (writeFiles root files).run w' with ⟨_ | _, w''⟩
      · rw [hrest] at h
        cases h
      · refine List.forall_mem_cons.2 ⟨isWritable_of_writeFile_run hf hwrite, ?_⟩
        have hlater := ih (by rwa [hcurrent]) (fun g hg => ?_) (congrArg Prod.fst hrest)
        · rwa [hcurrent] at hlater
        · have hne : g.place w.current root ≠ f.place w.current root :=
            ne_of_mem_of_not_mem (List.mem_map_of_mem hg) hfresh
          rw [hfiles, hcurrent, Function.update_of_ne hne]
          exact hnone g hg
    · have hstop : (writeFiles root (f :: files)).run w = (.error e, w') := run_bind_error hfail
      rw [hstop] at h
      cases h

/-- Files are written into an empty directory just if their locations are within the limits. -/
theorem exists_writeFiles_run_iff (h : IsEmptyDirectory w out) (hfiles : AreApart files) :
    (∃ r w₁, (writeFiles out files).run w = (.ok r, w₁)) ↔
      ∀ f ∈ files, (f.location out).IsWritable w.current := by
  constructor
  · rintro ⟨r, w₁, hrun⟩
    exact isWritable_of_writeFiles_run hfiles.nodup_places
      (fun f hf => h.file?_place hfiles hf) (congrArg Prod.fst hrun)
  · intro hwritable
    obtain ⟨r, w₁, hrun, -⟩ := writeFiles_run (h.areReachable hfiles hwritable)
    exact ⟨r, w₁, hrun⟩

/-- Files that are all there already are skipped, and nothing changes. -/
theorem writeFiles_run_of_there
    (h : ∀ f ∈ files, (read (root.below f.path)).run w = (.ok (.ok f.bytes), w)) :
    (writeFiles root files).run w = (.ok ⟨[], files.length⟩, w) := by
  induction files with
  | nil => rfl
  | cons f files ih =>
    obtain ⟨hf, hfiles⟩ := List.forall_mem_cons.1 h
    have hholds : (holds (f.location root) f.bytes).run w = (.ok true, w) := by
      refine (run_bind_ok hf).trans ?_
      show (Except.ok (f.bytes == f.bytes), w) = _
      rw [beq_self_eq_true]
    have hskip : (writeFile root f).run w = (.ok false, w) := run_bind_ok hholds
    rw [writeFiles_run_cons hskip, ih hfiles]
    rfl

/-- Once files are written into an empty directory, they are all that stands below it, and each is
read where it was planned. -/
theorem holdsOnly_of_writeFiles_run {r : WriteResult} (h : IsEmptyDirectory w out)
    (hfiles : AreApart files) (hrun : (writeFiles out files).run w = (.ok r, w₁)) :
    HoldsOnly w₁ out files := by
  have hwritable := (exists_writeFiles_run_iff h hfiles).1 ⟨r, w₁, hrun⟩
  obtain ⟨r', w', hrun', -, -, hread, hothers, hwith, -⟩ :=
    writeFiles_run (h.areReachable hfiles hwritable)
  rw [hrun] at hrun'
  obtain ⟨-, rfl⟩ := Prod.mk.inj hrun'
  have hcurrent : w₁.current = w.current := by rw [hwith]; rfl
  have hthere : ∀ f ∈ files, (read (out.below f.path)).run w₁ = (.ok (.ok f.bytes), w₁) := by
    intro f hf
    refine (read_run (hwritable f hf).storable w₁).trans ?_
    rw [hcurrent, PlannedFile.location, hread f hf]
  refine ⟨?_, hthere, fun ss content hss => ⟨fun hfile => ?_, ?_⟩⟩
  · have hkept := isKept_writeFiles isKept_nodup h.nodup out files
    rwa [hrun] at hkept
  · rw [hcurrent] at hfile
    by_contra hno
    have hother : out.place w.current ++ ss ∉ files.map (·.place w.current out) := by
      intro hmem
      obtain ⟨f, hf, hplace⟩ := List.mem_map.1 hmem
      have hsteps : Path.steps f.path = ss := by
        rw [hfiles.place_eq hf] at hplace
        exact List.append_cancel_left hplace
      refine hno ⟨f, hf, hsteps, ?_⟩
      have hf' := file?_of_read (hread f hf)
      have hplace' : (out.below f.path).place w.current = out.place w.current ++ ss := hplace
      rw [hplace', hfile] at hf'
      exact (Option.some.inj hf').symm
    rw [hothers _ hother, FileTree.file?, h.node?_eq_none hss] at hfile
    cases hfile
  · rintro ⟨f, hf, rfl, rfl⟩
    rw [hcurrent, ← hfiles.place_eq hf]
    exact file?_of_read (hread f hf)

end Job
end ApiScribe
