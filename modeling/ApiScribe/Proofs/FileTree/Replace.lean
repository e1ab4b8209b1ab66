import ApiScribe.FileTree.Replace
import ApiScribe.Plan
import ApiScribe.Proofs.FileTree.Places
import ApiScribe.Proofs.Naming.Unique

/-! What making directories and replacing a file do to a tree, place by place. A directory is made
by making the one it is in first, and the temporary file of a replacement stands where nothing
stood, so that nothing of it is left. -/
namespace ApiScribe
namespace FileTree
variable {t : FileTree} {current : List String} {l : Location}

/-- What a new directory where nothing stands keeps, making directories keeps. The induction is on
the directories above. -/
theorem makeDirectories_induction {P : FileTree → Prop}
    (hput : ∀ {t : FileTree} {place : List String}, P t → t.node? place = none →
      P (t.put place .directory)) (ht : P t) (levels : Nat) :
    P (makeDirectories current levels l t).1 := by
  have hensure : ∀ {t : FileTree} {l : Location}, P t → P (t.ensureDirectory current l).1 := by
    intro t l ht
    unfold ensureDirectory makeDirectory
    split
    · next hmake =>
      split at hmake
      · cases hmake
      · split at hmake
        · cases hmake
        · next hnode =>
          cases hmake
          exact hput ht hnode
    · exact ht
  induction levels generalizing l with
  | zero =>
    unfold makeDirectories
    split
    · contradiction
    · exact hensure ht
  | succ levels ih =>
    have habove := ih (l := l.parent)
    unfold makeDirectories
    split
    · next hlevels =>
      cases hlevels
      split
      · next hrefused => rwa [hrefused] at habove
      · next hmade =>
        rw [hmade] at habove
        exact hensure habove
    · exact hensure ht

theorem Leads.makeDirectory_ne_missing (h : t.Leads current l) (hfits : l.Fits) :
    t.makeDirectory current l ≠ .error .missing := by
  rw [makeDirectory, h.locate hfits]
  cases hnode : t.node? (l.place current) <;> simp [hnode]

/-- Where directories lead to and no file stands, a directory is made if none is there. -/
theorem Leads.ensureDirectory (h : t.Leads current l) (hfits : l.Fits)
    (hfile : t.file? (l.place current) = none) :
    ∃ t', t.ensureDirectory current l = (t', none) ∧
      ∀ q, t'.node? q = if q = l.place current then some .directory else t.node? q := by
  have hlocate := h.locate hfits
  cases hnode : t.node? (l.place current) with
  | none =>
    have hne : l.place current ≠ [] := ne_nil_of_node? hnode (by simp)
    refine ⟨t.put (l.place current) .directory, ?_, node?_put hne _⟩
    rw [FileTree.ensureDirectory, makeDirectory, hlocate]
    simp only [hnode]
  | some n =>
    cases n with
    | file bs => exact absurd hnode (file?_eq_none.1 hfile bs)
    | directory =>
      refine ⟨t, ?_, fun q => ?_⟩
      · rw [FileTree.ensureDirectory, makeDirectory, isDirectory, at?, hlocate]
        simp only [hnode]
        rfl
      · split
        · next hq => rw [hq, hnode]
        · rfl

/-- With directories all along the way only the last one may be missing. -/
theorem Leads.makeDirectories (h : t.Leads current l) (hfits : l.Fits)
    (hfile : t.file? (l.place current) = none) (levels : Nat) :
    ∃ t', FileTree.makeDirectories current levels l t = (t', none) ∧
      ∀ q, t'.node? q = if q ∈ l.way current then some .directory else t.node? q := by
  obtain ⟨t', hensure, hnode⟩ := h.ensureDirectory hfits hfile
  refine ⟨t', ?_, fun q => ?_⟩
  · rw [← hensure]
    unfold FileTree.makeDirectories
    split
    · next hmissing => exact absurd hmissing (h.makeDirectory_ne_missing hfits)
    · rfl
  · rw [hnode]
    by_cases hq : q ∈ l.passed current
    · rw [if_pos (Location.mem_way.2 (.inl hq)), h q hq, ite_self]
    · simp only [Location.mem_way, hq, false_or]

/-- A directory is made with all those on the way to it, if no file stands on the way. The induction
is on the directories above: what is passed on the way to one is the way to the next. -/
theorem makeDirectories_spec {levels : Nat} (hlevels : l.steps.length ≤ levels) (hfits : l.Fits)
    (hfiles : ∀ q ∈ l.way current, t.file? q = none) :
    ∃ t', makeDirectories current levels l t = (t', none) ∧
      ∀ q, t'.node? q = if q ∈ l.way current then some .directory else t.node? q := by
  induction levels generalizing l with
  | zero =>
    have hnil : l.steps = [] := List.length_eq_zero_iff.1 (Nat.le_zero.1 hlevels)
    exact (leads_of_steps hnil).makeDirectories hfits (hfiles _ (Location.mem_way.2 (.inr rfl))) 0
  | succ levels ih =>
    have hown : t.file? (l.place current) = none := hfiles _ (Location.mem_way.2 (.inr rfl))
    by_cases hleads : t.Leads current l
    · exact hleads.makeDirectories hfits hown (levels + 1)
    have hsteps : l.steps ≠ [] := fun hnil => hleads (leads_of_steps hnil)
    have hway : l.passed current = l.parent.way current := Location.passed_eq_way_parent hsteps
    have hclear : t.IsClear current l := fun q hq => hfiles q (Location.mem_way.2 (.inl hq))
    have hmissing : t.makeDirectory current l = .error .missing := by
      rw [makeDirectory, hclear.locate_of_not_leads hfits hleads]
    have hlength : l.parent.steps.length ≤ levels := by
      rw [Location.parent, List.length_dropLast]
      omega
    obtain ⟨t₁, hparent, hnode₁⟩ := ih hlength hfits.parent fun q hq => hclear q (hway ▸ hq)
    rw [← hway] at hnode₁
    have hleads₁ : t₁.Leads current l := fun q hq => by rw [hnode₁, if_pos hq]
    have hown₁ : t₁.file? (l.place current) = none := by
      by_cases hq : l.place current ∈ l.passed current
      · rw [file?, hnode₁, if_pos hq]
      · rw [file?, hnode₁, if_neg hq]
        exact hown
    obtain ⟨t₂, hensure, hnode₂⟩ := hleads₁.ensureDirectory hfits hown₁
    refine ⟨t₂, ?_, fun q => ?_⟩
    · rw [makeDirectories, hparent]
      · exact hensure
      · exact hmissing
    · rw [hnode₂, hnode₁]
      by_cases hown : q = l.place current <;> by_cases hq : q ∈ l.passed current <;>
        simp only [Location.mem_way, hown, hq, true_or, or_true, or_self, if_true, if_false]

theorem temporaryName_injective (name : String) : Function.Injective (temporaryName name) := by
  intro m n h
  exact Naming.numbered_injective ("." ++ name ++ ".") ((String.append_left_inj _).1 h)

theorem temporaryName_ne (name : String) (n : Nat) : temporaryName name n ≠ name := by
  intro h
  have hlength := congrArg String.length h
  simp only [temporaryName, String.length_append] at hlength
  have hpoint : ".".length = 1 := rfl
  omega

theorem isSome_node?_concat (t : FileTree) (directory : List String) (name : String) :
    (t.node? (directory ++ [name])).isSome = true ↔ directory ++ [name] ∈ t.nodes.keys := by
  rw [node?_of_ne_nil t (by simp), Entries.isSome_get?]

theorem freeName_eq_search (t : FileTree) (directory : List String) (name : String)
    (tries n : Nat) :
    t.freeName directory name tries n = temporaryName name
      (Naming.search t.nodes.keys (fun k => directory ++ [temporaryName name k]) tries n) := by
  induction tries generalizing n with
  | zero => rfl
  | succ tries ih =>
    simp only [freeName, Naming.search, isSome_node?_concat]
    split
    · exact ih (n + 1)
    · rfl

/-- Nothing stands where a temporary file is put: the search tries as many names as there are
places. -/
theorem node?_temporaryPlace (t : FileTree) (directory : List String) (name : String) :
    t.node? (t.temporaryPlace directory name) = none := by
  have hinjective : Function.Injective fun k => directory ++ [temporaryName name k] := by
    intro i j h
    exact temporaryName_injective name (by simpa using h)
  have hfree := Naming.search_not_mem hinjective t.nodes.keys 0
  rw [← isSome_node?_concat, Option.not_isSome_iff_eq_none, Entries.keys, List.length_map] at hfree
  rw [temporaryPlace, freeName_eq_search]
  exact hfree

theorem temporaryPlace_ne_place (current : List String) (t : FileTree) {target : Location}
    (h : target.steps ≠ []) :
    t.temporaryPlace (target.parent.place current) target.name ≠ target.place current := by
  rw [temporaryPlace, freeName_eq_search, Location.place_eq_next h, Location.next]
  split
  · intro heq
    have hlength := congrArg List.length heq
    simp only [List.length_append, List.length_singleton, List.length_dropLast] at hlength
    omega
  · intro heq
    exact temporaryName_ne _ _ (by simpa using heq)

namespace Replacement
variable {r : Replacement} {s : ReplaceState}

theorem create_eq (h : s.tree.Leads r.current r.target.parent) (hfits : r.target.Fits)
    (hroom : hasRoom (r.target.parent.place r.current) r.target.name = true) :
    r.step s .createTemporary = (⟨s.tree.put (s.tree.temporaryPlace (r.target.parent.place r.current)
      r.target.name) (.file []), some (s.tree.temporaryPlace (r.target.parent.place r.current)
      r.target.name)⟩, none) := by
  rw [step, create, h.locate hfits.parent]
  simp only [hroom, if_true]

theorem removeOld_spec (h : s.tree.Leads r.current r.target) (hfits : r.target.Fits)
    (hdirectory : s.tree.node? (r.target.place r.current) ≠ some .directory) :
    ∃ t', r.step s .removeOld = ({ s with tree := t' }, none) ∧ ∀ q, t'.node? q =
      if q = r.target.place r.current then none else s.tree.node? q := by
  have hlocate := h.locate hfits
  have hne : r.target.place r.current ≠ [] := ne_nil_of_node? rfl hdirectory
  cases hnode : s.tree.node? (r.target.place r.current) with
  | none =>
    refine ⟨s.tree, by rw [step, removeOld, at?, hlocate]; simp only [hnode], fun q => ?_⟩
    split
    · next hq => rw [hq, hnode]
    · rfl
  | some n =>
    cases n with
    | directory => exact absurd hnode hdirectory
    | file bs =>
      refine ⟨s.tree.drop (r.target.place r.current), ?_, node?_drop hne⟩
      rw [step, removeOld, at?, remove, hlocate]
      simp only [hnode]

theorem rename_eq {place : List String} {content : Bytes} (htemporary : s.temporary = some place)
    (hnode : s.tree.node? place = some (.file content)) (h : s.tree.Leads r.current r.target)
    (hfits : r.target.Fits) :
    r.step s .rename = (⟨(s.tree.drop place).put (r.target.place r.current) (.file content), none⟩,
      none) := by
  rw [step, rename, htemporary, h.locate hfits]
  simp only [hnode]

theorem steps_cons {x : ReplaceStep} {xs : List ReplaceStep} {s' : ReplaceState}
    (h : r.step s x = (s', none)) : r.steps (x :: xs) s = r.steps xs s' := by
  rw [steps, h]

theorem steps_append {xs ys : List ReplaceStep} {s' : ReplaceState}
    (h : r.steps xs s = (s', none)) : r.steps (xs ++ ys) s = r.steps ys s' := by
  induction xs generalizing s with
  | nil =>
    have hsame : s = s' := congrArg Prod.fst h
    rw [hsame, List.nil_append]
  | cons x xs ih =>
    rw [steps] at h
    rcases hstep : r.step s x with ⟨s₁, _ | refused⟩
    · rw [hstep] at h
      rw [List.cons_append, steps_cons hstep, ih h]
    · rw [hstep] at h
      exact absurd (congrArg Prod.snd h) (by simp)

/-- With the old file taken away, the temporary one gets its name. -/
theorem finish_spec {temporary : List String} (htemporary : s.temporary = some temporary)
    (hnode : s.tree.node? temporary = some (.file r.content))
    (hother : temporary ≠ r.target.place r.current)
    (h : s.tree.Leads r.current r.target) (hfits : r.target.Fits)
    (hdirectory : s.tree.node? (r.target.place r.current) ≠ some .directory)
    (haside : r.target.place r.current ∉ r.target.passed r.current) :
    ∃ t', r.steps [.removeOld, .rename] s = (⟨t', none⟩, none) ∧ ∀ q, t'.node? q =
      if q = r.target.place r.current then some (.file r.content)
      else if q = temporary then none else s.tree.node? q := by
  have hne : r.target.place r.current ≠ [] := ne_nil_of_node? rfl hdirectory
  have htempne : temporary ≠ [] := ne_nil_of_node? hnode (by simp)
  obtain ⟨t₁, hremove, hnode₁⟩ := removeOld_spec h hfits hdirectory
  have hleads₁ : t₁.Leads r.current r.target := fun q hq => by
    rw [hnode₁, if_neg (ne_of_mem_of_not_mem hq haside), h q hq]
  have htemp₁ : t₁.node? temporary = some (.file r.content) := by
    rw [hnode₁, if_neg hother, hnode]
  have hrename := rename_eq (s := { s with tree := t₁ }) htemporary htemp₁ hleads₁ hfits
  refine ⟨_, by rw [steps_cons hremove, steps_cons hrename, steps], fun q => ?_⟩
  rw [node?_put hne, node?_drop htempne, hnode₁]
  split <;> rfl

/-- The new content stands in a temporary file where nothing stood, and directories lead to it. -/
theorem prepare_spec {t : FileTree} (hsteps : r.target.steps ≠ []) (hfits : r.target.Fits)
    (hclear : t.IsClear r.current r.target)
    (hroom : hasRoom (r.target.parent.place r.current) r.target.name = true) :
    ∃ t' temporary, r.steps [.makeParents, .createTemporary, .fillTemporary] ⟨t, none⟩ =
        (⟨t', some temporary⟩, none) ∧
      t.node? temporary = none ∧ temporary ∉ r.target.passed r.current ∧
      temporary ≠ r.target.place r.current ∧ ∀ q, t'.node? q =
        if q = temporary then some (.file r.content)
        else if q ∈ r.target.passed r.current then some .directory else t.node? q := by
  have hway : r.target.passed r.current = r.target.parent.way r.current :=
    Location.passed_eq_way_parent hsteps
  obtain ⟨t₁, hmake, hnode₁⟩ := makeDirectories_spec (Nat.le_refl _) hfits.parent
    fun q hq => hclear q (hway ▸ hq)
  rw [← hway] at hnode₁
  have hleads₁ : t₁.Leads r.current r.target := fun q hq => by rw [hnode₁, if_pos hq]
  have hparent₁ : t₁.Leads r.current r.target.parent := fun q hq =>
    hleads₁ q (hway ▸ Location.mem_way.2 (.inl hq))
  have hcreate := create_eq (s := ⟨t₁, none⟩) hparent₁ hfits hroom
  have hother := temporaryPlace_ne_place r.current t₁ hsteps
  have hfree := node?_temporaryPlace t₁ (r.target.parent.place r.current) r.target.name
  generalize t₁.temporaryPlace (r.target.parent.place r.current) r.target.name = temporary at *
  have hoff : temporary ∉ r.target.passed r.current := fun hq => by
    rw [hleads₁ temporary hq] at hfree
    exact absurd hfree (by simp)
  have htempne : temporary ≠ [] := ne_nil_of_node? hfree (by simp)
  have hmakeParents : r.step ⟨t, none⟩ .makeParents = (⟨t₁, none⟩, none) := by
    simp only [step, makePath, hmake]
  refine ⟨(t₁.put temporary (.file [])).put temporary (.file r.content), temporary, ?_, ?_, hoff,
    hother, fun q => ?_⟩
  · rw [steps_cons hmakeParents, steps_cons hcreate, steps_cons rfl, steps]
  · rwa [hnode₁, if_neg hoff] at hfree
  · rw [node?_put htempne, node?_put htempne, hnode₁]
    split <;> rfl

end Replacement

/-- A replacement whose target no directory stands at and no file stands on the way to succeeds. It
makes the directories on the way, puts the file, and leaves all else as it was. -/
theorem replace_spec {target : Location} (content : Bytes) (hsteps : target.steps ≠ [])
    (hfits : target.Fits) (hclear : t.IsClear current target)
    (hdirectory : t.node? (target.place current) ≠ some .directory)
    (haside : target.place current ∉ target.passed current)
    (hroom : hasRoom (target.parent.place current) target.name = true) :
    ∃ t', t.replace current target content = (t', none) ∧ ∀ q, t'.node? q =
      if q = target.place current then some (.file content)
      else if q ∈ target.passed current then some .directory else t.node? q := by
  let r : Replacement := ⟨current, target, content⟩
  obtain ⟨t₁, temporary, hprepare, hfree, hoff, hother, hnode₁⟩ :=
    Replacement.prepare_spec (r := r) hsteps hfits hclear hroom
  have hleads₁ : t₁.Leads current target := fun q hq => by
    rw [hnode₁, if_neg (ne_of_mem_of_not_mem hq hoff), if_pos hq]
  have hdirectory₁ : t₁.node? (target.place current) ≠ some .directory := by
    rwa [hnode₁, if_neg (Ne.symm hother), if_neg haside]
  have htemp₁ : t₁.node? temporary = some (.file content) := by rw [hnode₁, if_pos rfl]
  obtain ⟨t₂, hfinish, hnode₂⟩ := Replacement.finish_spec (r := r) (s := ⟨t₁, some temporary⟩) rfl
    htemp₁ hother hleads₁ hfits hdirectory₁ haside
  refine ⟨t₂, ?_, fun q => ?_⟩
  · have hall : r.steps ReplaceStep.all ⟨t, none⟩ = (⟨t₂, none⟩, none) :=
      (Replacement.steps_append hprepare).trans hfinish
    rw [replace, Replacement.run, hall]
    rfl
  · rw [hnode₂, hnode₁]
    by_cases hq : q = temporary
    · rw [hq, if_neg hother, if_neg hother, if_pos rfl, if_neg hoff, hfree]
    · rw [if_neg hq, if_neg hq]

end FileTree

/-! Planned files in a tree. A tree is ready for files if each can be put in its place without
touching the place of another or the way to it; what the files make of the tree is they themselves,
the directories on the way to them, and nothing else. -/

namespace PlannedFile

/-- The location of a planned file below a directory. -/
def location (root : Location) (f : PlannedFile) : Location := root.below f.path

/-- The place of a planned file. -/
def place (current : List String) (root : Location) (f : PlannedFile) : List String :=
  (f.location root).place current

/-- The content of a planned file in bytes. -/
def bytes (f : PlannedFile) : Bytes := Text.utf8 f.content

end PlannedFile

namespace FileTree
variable {t t' t₁ t₂ : FileTree} {current : List String} {root : Location} {f : PlannedFile}
  {fs files : List PlannedFile}

/-- A tree into which planned files can be written one after the other. -/
structure IsReady (t : FileTree) (current : List String) (root : Location)
    (files : List PlannedFile) : Prop where
  storable : ∀ f ∈ files, (f.location root).isStorable = true
  fits : ∀ f ∈ files, (f.location root).Fits
  steps : ∀ f ∈ files, (f.location root).steps ≠ []
  room : ∀ f ∈ files, t.file? (f.place current root) ≠ some f.bytes →
    hasRoom ((f.location root).parent.place current) (f.location root).name = true
  distinct : (files.map (·.place current root)).Nodup
  clear : ∀ f ∈ files, t.IsClear current (f.location root)
  directory : ∀ f ∈ files, t.node? (f.place current root) ≠ some .directory
  aside : ∀ f ∈ files, ∀ g ∈ files, f.place current root ∉ (g.location root).passed current
  reached : ∀ f ∈ files, ∀ bs, t.file? (f.place current root) = some bs →
    t.Leads current (f.location root)

/-- What planned files make of a tree: they are there, with directories on the way to them, and all
else is as before. -/
structure Holds (current : List String) (root : Location) (files : List PlannedFile)
    (t t' : FileTree) : Prop where
  content : ∀ f ∈ files, t'.file? (f.place current root) = some f.bytes
  leads : ∀ f ∈ files, t'.Leads current (f.location root)
  others : ∀ q ∉ files.map (·.place current root), t'.file? q = t.file? q
  kept : ∀ q, t.node? q = some .directory → t'.node? q = some .directory
  made : ∀ q, t'.node? q = some .directory → t.node? q = some .directory ∨
    ∃ f ∈ files, q ∈ (f.location root).passed current

theorem Leads.mono (h : t.Leads current l) (hkept : ∀ q, t.node? q = some .directory →
    t'.node? q = some .directory) : t'.Leads current l :=
  fun q hq => hkept q (h q hq)

theorem IsReady.sublist (h : t.IsReady current root files) (hsub : fs.Sublist files) :
    t.IsReady current root fs where
  storable f hf := h.storable f (hsub.subset hf)
  fits f hf := h.fits f (hsub.subset hf)
  steps f hf := h.steps f (hsub.subset hf)
  room f hf := h.room f (hsub.subset hf)
  distinct := h.distinct.sublist (hsub.map _)
  clear f hf := h.clear f (hsub.subset hf)
  directory f hf := h.directory f (hsub.subset hf)
  aside f hf g hg := h.aside f (hsub.subset hf) g (hsub.subset hg)
  reached f hf := h.reached f (hsub.subset hf)

/-- Writing one file leaves the files as they are that stand where others are planned. -/
theorem Holds.file?_place (hw : Holds current root [f] t t')
    (hdistinct : ((f :: fs).map (·.place current root)).Nodup) {g : PlannedFile} (hg : g ∈ fs) :
    t'.file? (g.place current root) = t.file? (g.place current root) := by
  refine hw.others _ fun hplace => ?_
  have hnew := (List.nodup_cons.1 hdistinct).1
  rw [← List.mem_singleton.1 hplace] at hnew
  exact hnew (List.mem_map_of_mem hg)

/-- After the first file is written the tree is ready for the rest. -/
theorem IsReady.after (h : t.IsReady current root (f :: fs)) (hw : Holds current root [f] t t') :
    t'.IsReady current root fs := by
  have hrest := h.sublist (List.sublist_cons_self f fs)
  have hself : f ∈ f :: fs := List.mem_cons_self
  have hmem : ∀ {g}, g ∈ fs → g ∈ f :: fs := fun hg => List.mem_cons_of_mem f hg
  refine { hrest with room := ?_, clear := ?_, directory := ?_, reached := ?_ }
  · intro g hg
    rw [hw.file?_place h.distinct hg]
    exact hrest.room g hg
  · intro g hg q hq
    have hne : q ≠ f.place current root := ne_of_mem_of_not_mem hq (h.aside f hself g (hmem hg))
    rw [hw.others q (by simpa using hne)]
    exact hrest.clear g hg q hq
  · intro g hg hdirectory
    rcases hw.made _ hdirectory with hold | ⟨f', hf', hpassed⟩
    · exact hrest.directory g hg hold
    · rw [List.mem_singleton.1 hf'] at hpassed
      exact h.aside g (hmem hg) f hself hpassed
  · intro g hg bs hbs
    rw [hw.file?_place h.distinct hg] at hbs
    exact (hrest.reached g hg bs hbs).mono hw.kept

/-- Files that are written one after the other are all there in the end. -/
theorem Holds.cons (hdistinct : f.place current root ∉ fs.map (·.place current root))
    (hf : Holds current root [f] t t₁) (hfs : Holds current root fs t₁ t₂) :
    Holds current root (f :: fs) t t₂ where
  content := by
    refine List.forall_mem_cons.2 ⟨?_, hfs.content⟩
    rw [hfs.others _ hdistinct]
    exact hf.content f (List.mem_singleton_self f)
  leads := List.forall_mem_cons.2
    ⟨(hf.leads f (List.mem_singleton_self f)).mono hfs.kept, hfs.leads⟩
  others q hq := by
    obtain ⟨hown, hrest⟩ := not_or.1 fun hmem => hq (List.mem_cons.2 hmem)
    rw [hfs.others q hrest, hf.others q (by simpa using hown)]
  kept q hq := hfs.kept q (hf.kept q hq)
  made q hq := by
    rcases hfs.made q hq with hq | ⟨g, hg, hpassed⟩
    · rcases hf.made q hq with hq | ⟨g, hg, hpassed⟩
      · exact .inl hq
      · exact .inr ⟨g, List.mem_cons.2 (.inl (List.mem_singleton.1 hg)), hpassed⟩
    · exact .inr ⟨g, List.mem_cons_of_mem f hg, hpassed⟩

/-- Once the files are written the tree is ready for them again. -/
theorem IsReady.again (h : t.IsReady current root files) (hw : Holds current root files t t') :
    t'.IsReady current root files :=
  { h with
    room := fun f hf hlacks => absurd (hw.content f hf) hlacks
    clear := fun f hf => (hw.leads f hf).isClear
    directory := fun f hf hdirectory => by
      rw [file?_eq_some.1 (hw.content f hf)] at hdirectory
      exact absurd hdirectory (by simp)
    reached := fun f hf _ _ => hw.leads f hf }

/-- A file that is there already is read where it is planned. -/
theorem IsReady.read_eq_ok (h : t.IsReady current root files) (hf : f ∈ files) {bs : Bytes} :
    t.read current (f.location root) = .ok bs ↔ t.file? (f.place current root) = some bs := by
  rw [(h.clear f hf).read_eq_ok (h.fits f hf)]
  exact ⟨fun hread => hread.2, fun hfile => ⟨h.reached f hf bs hfile, hfile⟩⟩

theorem IsReady.holds_of_file? (h : t.IsReady current root [f])
    (hfile : t.file? (f.place current root) = some f.bytes) : Holds current root [f] t t where
  content := List.forall_mem_singleton.2 hfile
  leads := List.forall_mem_singleton.2 (h.reached f (List.mem_singleton_self f) _ hfile)
  others _ _ := rfl
  kept _ hq := hq
  made _ hq := .inl hq

/-- A file that is not there with its content already is put in its place. -/
theorem IsReady.exists_replace (h : t.IsReady current root [f])
    (hfile : t.file? (f.place current root) ≠ some f.bytes) :
    ∃ t', t.replace current (f.location root) f.bytes = (t', none) ∧
      Holds current root [f] t t' := by
  have hf : f ∈ [f] := List.mem_singleton_self f
  have haside := h.aside f hf f hf
  obtain ⟨t', hreplace, hnode⟩ := replace_spec f.bytes (h.steps f hf) (h.fits f hf) (h.clear f hf)
    (h.directory f hf) haside (h.room f hf hfile)
  change ∀ q, t'.node? q = if q = f.place current root then some (.file f.bytes)
    else if q ∈ (f.location root).passed current then some .directory else t.node? q at hnode
  have hpassed : ∀ q ∈ (f.location root).passed current, t'.node? q = some .directory := by
    intro q hq
    rw [hnode, if_neg (ne_of_mem_of_not_mem hq haside), if_pos hq]
  refine ⟨t', hreplace, ?_, List.forall_mem_singleton.2 hpassed, ?_, ?_, ?_⟩
  · refine List.forall_mem_singleton.2 (file?_eq_some.2 ?_)
    rw [hnode, if_pos rfl]
  · intro q hq
    have hne : q ≠ f.place current root := by simpa using hq
    by_cases hmem : q ∈ (f.location root).passed current
    · rw [h.clear f hf q hmem, file?, hpassed q hmem]
    · rw [file?, file?, hnode, if_neg hne, if_neg hmem]
  · intro q hq
    have hne : q ≠ f.place current root := by
      rintro rfl
      exact h.directory f hf hq
    rw [hnode, if_neg hne, hq, ite_self]
  · intro q hq
    by_cases hmem : q ∈ (f.location root).passed current
    · exact .inr ⟨f, hf, hmem⟩
    · rw [hnode, if_neg hmem] at hq
      split at hq
      · exact absurd hq (by simp)
      · exact .inl hq

end FileTree

end ApiScribe
