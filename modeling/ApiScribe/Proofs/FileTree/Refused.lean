import Mathlib.Logic.Function.Basic
import ApiScribe.Proofs.FileTree.Replace

/-! The files of a tree under a replacement, whatever comes of it. A replacement that is refused
leaves every file as it was, one that succeeds changes the file at its target and no other, and in
neither case the temporary file is left. Directories may have been made either way. -/
namespace ApiScribe
namespace FileTree
variable {t t' : FileTree} {current place q : List String} {l : Location}

theorem file?_put_file (h : place ≠ []) (bs : Bytes) :
    (t.put place (.file bs)).file? = Function.update t.file? place (some bs) := by
  funext q
  unfold file?
  rw [node?_put h, Function.update_apply]
  by_cases hq : q = place <;> simp only [hq, if_true, if_false]

theorem file?_drop (h : place ≠ []) :
    (t.drop place).file? = Function.update t.file? place none := by
  funext q
  unfold file?
  rw [node?_drop h, Function.update_apply]
  by_cases hq : q = place <;> simp only [hq, if_true, if_false]

/-- A directory that is made where nothing stood is no file. -/
theorem file?_put_directory (h : t.node? place = none) :
    (t.put place .directory).file? = t.file? := by
  have hne : place ≠ [] := ne_nil_of_node? h (by simp)
  funext q
  unfold file?
  rw [node?_put hne]
  by_cases hq : q = place
  · simp only [hq, h, if_true]
  · simp only [hq, if_false]

/-- Making directories changes no file. -/
theorem file?_makeDirectories (levels : Nat) :
    (makeDirectories current levels l t).1.file? = t.file? :=
  makeDirectories_induction (P := fun t' => t'.file? = t.file?)
    (fun h hnode => (file?_put_directory hnode).trans h) rfl levels

theorem file?_makePath (t : FileTree) (current : List String) (l : Location) :
    (t.makePath current l).1.file? = t.file? :=
  file?_makeDirectories l.steps.length

theorem enter_eq_ok_iff {s : String} : t.enter place s = .ok q ↔
    t.node? place = some .directory ∧ (s = ".." ∨ s.utf8ByteSize ≤ nameLimit) ∧
      q = Location.next place s := by
  constructor
  · intro h
    unfold enter at h
    split at h
    · cases h
    · cases h
    next hnode =>
    refine ⟨hnode, ?_⟩
    rw [Location.next]
    by_cases hup : s = ".."
    · rw [if_pos hup] at h ⊢
      exact ⟨.inl hup, (Except.ok.inj h).symm⟩
    · rw [if_neg hup] at h ⊢
      split at h
      · cases h
      · next hsize => exact ⟨.inr (Nat.not_lt.1 hsize), (Except.ok.inj h).symm⟩
  · rintro ⟨hnode, hname, rfl⟩
    exact enter_of_directory hname hnode

theorem of_follow_eq_ok {ss : List String} (h : t.follow place ss = .ok q) :
    (∀ s ∈ ss, s = ".." ∨ s.utf8ByteSize ≤ nameLimit) ∧
      (∀ d ∈ Location.passedFrom place ss, t.node? d = some .directory) ∧
      q = ss.foldl Location.next place := by
  induction ss generalizing place with
  | nil =>
    cases h
    simp [Location.passedFrom]
  | cons s ss ih =>
    rw [follow] at h
    split at h
    · next d hd =>
      obtain ⟨hnode, hname, rfl⟩ := enter_eq_ok_iff.1 hd
      obtain ⟨hnames, hpassed, hq⟩ := ih h
      exact ⟨List.forall_mem_cons.2 ⟨hname, hnames⟩, List.forall_mem_cons.2 ⟨hnode, hpassed⟩, hq⟩
    · cases h

/-- A location leads somewhere just if it is within the limits and all on the way to it are
directories; then it leads to its place. -/
theorem locate_eq_ok_iff : t.locate current l = .ok q ↔
    l.Fits ∧ t.Leads current l ∧ q = l.place current := by
  constructor
  · intro h
    unfold locate at h
    split at h
    · cases h
    · next htext =>
      obtain ⟨hnames, hpassed, hq⟩ := of_follow_eq_ok h
      exact ⟨⟨Nat.not_lt.1 htext, hnames⟩, hpassed, hq⟩
  · rintro ⟨hfits, hleads, rfl⟩
    exact hleads.locate hfits

/-- A file is on no way, so a location leads where it led if a file is taken away. -/
theorem locate_drop {bs : Bytes} (h : t.locate current l = .ok q)
    (hfile : t.node? place = some (.file bs)) : (t.drop place).locate current l = .ok q := by
  obtain ⟨hfits, hleads, hq⟩ := locate_eq_ok_iff.1 h
  refine locate_eq_ok_iff.2 ⟨hfits, fun d hd => ?_, hq⟩
  have hdirectory := hleads d hd
  have hne : d ≠ place := by
    rintro rfl
    rw [hfile] at hdirectory
    cases hdirectory
  rw [node?_drop (ne_nil_of_node? hfile (by simp)), if_neg hne, hdirectory]

/-- A file that is put where nothing stands does not block the way to itself, so it is read. -/
theorem read_put_file (h : t.locate current l = .ok q) (hnone : t.node? (l.place current) = none)
    (bs : Bytes) : (t.put (l.place current) (.file bs)).read current l = .ok bs := by
  obtain ⟨hfits, hleads, rfl⟩ := locate_eq_ok_iff.1 h
  have hne : l.place current ≠ [] := ne_nil_of_node? hnone (by simp)
  have hleads' : (t.put (l.place current) (.file bs)).Leads current l := fun d hd => by
    have hdirectory := hleads d hd
    have hplace : d ≠ l.place current := by
      rintro heq
      rw [heq, hnone] at hdirectory
      cases hdirectory
    rw [node?_put hne, if_neg hplace, hdirectory]
  refine (hleads'.isClear.read_eq_ok hfits).2 ⟨hleads', ?_⟩
  rw [file?_eq_some, node?_put hne, if_pos rfl]

/-- A file is read where it is found, at the place of its location. -/
theorem read_eq_ok_iff {bs : Bytes} : t.read current l = .ok bs ↔
    t.locate current l = .ok (l.place current) ∧
      t.node? (l.place current) = some (.file bs) := by
  unfold read
  cases hlocate : t.locate current l with
  | error r => simp
  | ok place =>
    obtain ⟨-, -, rfl⟩ := locate_eq_ok_iff.1 hlocate
    cases hnode : t.node? (l.place current) with
    | none => simp [hnode]
    | some n => cases n <;> simp [hnode]

/-- What can be read at a location is the file at its place. -/
theorem file?_of_read {bs : Bytes} (h : t.read current l = .ok bs) :
    t.file? (l.place current) = some bs :=
  file?_eq_some.2 (read_eq_ok_iff.1 h).2

namespace Replacement
variable {r : Replacement} {s : ReplaceState} {temporary : List String}

/-- A replacement whose new content stands in a temporary file, where no file stood in the tree that
it started from; all other files are as they were. -/
structure IsPrepared (r : Replacement) (t : FileTree) (s : ReplaceState)
    (temporary : List String) : Prop where
  stands : s.temporary = some temporary
  ne_nil : temporary ≠ []
  ne_target : temporary ≠ r.target.place r.current
  fresh : t.file? temporary = none
  files : s.tree.file? = Function.update t.file? temporary (some r.content)

/-- Taking the temporary file away leaves the files of the start. -/
theorem IsPrepared.file?_cleaned (h : IsPrepared r t s temporary) :
    (cleaned s).file? = t.file? := by
  rw [cleaned, h.stands]
  show (s.tree.drop temporary).file? = t.file?
  rw [file?_drop h.ne_nil, h.files, Function.update_idem, ← h.fresh, Function.update_eq_self]

theorem temporaryPlace_ne_target (t : FileTree) (r : Replacement) :
    t.temporaryPlace (r.target.parent.place r.current) r.target.name ≠
      r.target.place r.current := by
  by_cases hsteps : r.target.steps = []
  · -- the location of a directory itself is shorter than that of anything in it
    have hparent : r.target.parent = r.target := by
      rw [Location.parent, hsteps, List.dropLast_nil, ← hsteps]
    intro heq
    have hlength := congrArg List.length heq
    rw [hparent, temporaryPlace, List.length_append, List.length_singleton] at hlength
    omega
  · exact temporaryPlace_ne_place r.current t hsteps

/-- The new content comes to stand in a temporary file, or a step before that is refused and no file
is changed. -/
theorem prepare_cases (r : Replacement) (t : FileTree) :
    (∃ s e, r.steps [.makeParents, .createTemporary, .fillTemporary] ⟨t, none⟩ = (s, some e) ∧
      (cleaned s).file? = t.file?) ∨
    ∃ s temporary, r.steps [.makeParents, .createTemporary, .fillTemporary] ⟨t, none⟩ = (s, none) ∧
      IsPrepared r t s temporary := by
  obtain ⟨t₁, refused, hmake⟩ : ∃ t₁ refused, t.makePath r.current r.target.parent = (t₁, refused) :=
    ⟨_, _, rfl⟩
  have hfiles : t₁.file? = t.file? := by
    rw [← file?_makePath t r.current r.target.parent, hmake]
  have hparents : r.step ⟨t, none⟩ .makeParents = (⟨t₁, none⟩, refused) := by
    simp only [step, hmake]
  cases refused with
  | some e => exact .inl ⟨⟨t₁, none⟩, e, by rw [steps, hparents], hfiles⟩
  | none =>
    rw [steps_cons hparents]
    have hcreate : r.step ⟨t₁, none⟩ .createTemporary = r.create ⟨t₁, none⟩ := rfl
    unfold create at hcreate
    split at hcreate
    · next e _ => exact .inl ⟨⟨t₁, none⟩, ⟨e, _⟩, by rw [steps, hcreate], hfiles⟩
    · next directory hdirectory =>
      obtain ⟨-, -, rfl⟩ := locate_eq_ok_iff.1 hdirectory
      dsimp only at hcreate
      split at hcreate
      · right
        have hfree := node?_temporaryPlace t₁ (r.target.parent.place r.current) r.target.name
        have hother := temporaryPlace_ne_target t₁ r
        generalize t₁.temporaryPlace (r.target.parent.place r.current) r.target.name = temporary at *
        have hne : temporary ≠ [] := ne_nil_of_node? hfree (by simp)
        refine ⟨⟨(t₁.put temporary (.file [])).put temporary (.file r.content), some temporary⟩,
          temporary, by rw [steps_cons hcreate, steps_cons rfl, steps], rfl, hne, hother, ?_, ?_⟩
        · rw [← hfiles, file?, hfree]
        · rw [file?_put_file hne, file?_put_file hne, hfiles, Function.update_idem]
      · exact .inl ⟨⟨t₁, none⟩, _, by rw [steps, hcreate], hfiles⟩

/-- Where nothing stands at the target, renaming puts the temporary file there, whether or not an old
file was taken away before. -/
theorem exists_step_rename (h : IsPrepared r t s temporary) {t₂ : FileTree}
    (hlocate : t₂.locate r.current r.target = .ok (r.target.place r.current))
    (hnode : t₂.node? temporary = some (.file r.content))
    (hnone : t₂.node? (r.target.place r.current) = none)
    (hothers : ∀ q, q ≠ r.target.place r.current → t₂.file? q = s.tree.file? q) :
    ∃ t', r.step { s with tree := t₂ } .rename = (⟨t', none⟩, none) ∧
      t'.read r.current r.target = .ok r.content ∧
      t'.file? = Function.update t.file? (r.target.place r.current) (some r.content) := by
  have hne : r.target.place r.current ≠ [] := ne_nil_of_node? hnone (by simp)
  obtain ⟨hfits, hleads, -⟩ := locate_eq_ok_iff.1 hlocate
  refine ⟨_, rename_eq h.stands hnode hleads hfits, ?_, ?_⟩
  · exact read_put_file (locate_drop hlocate hnode)
      (by rw [node?_drop h.ne_nil, hnone, ite_self]) r.content
  rw [file?_put_file hne, file?_drop h.ne_nil]
  funext q
  by_cases hq : q = r.target.place r.current
  · rw [hq, Function.update_self, Function.update_self]
  rw [Function.update_of_ne hq, Function.update_of_ne hq]
  by_cases hqt : q = temporary
  · rw [hqt, Function.update_self, h.fresh]
  · rw [Function.update_of_ne hqt, hothers q hq, h.files, Function.update_of_ne hqt]

/-- The temporary file gets the name of the target and is read there, or one of the last steps is
refused before anything is changed. -/
theorem finish_cases (h : IsPrepared r t s temporary) :
    (∃ e, r.steps [.removeOld, .rename] s = (s, some e)) ∨
    ∃ t', r.steps [.removeOld, .rename] s = (⟨t', none⟩, none) ∧
      t'.read r.current r.target = .ok r.content ∧
      t'.file? = Function.update t.file? (r.target.place r.current) (some r.content) := by
  have hcontent : s.tree.node? temporary = some (.file r.content) := by
    rw [← file?_eq_some, h.files, Function.update_self]
  have hremove : r.step s .removeOld = r.removeOld s := rfl
  unfold removeOld at hremove
  split at hremove
  · next hat =>
    rw [steps_cons hremove]
    cases hlocate : s.tree.locate r.current r.target with
    | error e =>
      refine .inl ⟨⟨e, r.target⟩, ?_⟩
      rw [steps, step, rename, h.stands, hlocate]
    | ok q =>
      right
      obtain ⟨-, -, rfl⟩ := locate_eq_ok_iff.1 hlocate
      have hnone : s.tree.node? (r.target.place r.current) = none := by
        rwa [at?, hlocate] at hat
      obtain ⟨t', hstep, hread, hfiles⟩ :=
        exists_step_rename h hlocate hcontent hnone fun _ _ => rfl
      exact ⟨t', by rw [steps_cons hstep, steps], hread, hfiles⟩
  · split at hremove
    · next t₂ ht₂ =>
      right
      rw [steps_cons hremove]
      unfold remove at ht₂
      split at ht₂
      · cases ht₂
      next q hlocate =>
      obtain ⟨-, -, rfl⟩ := locate_eq_ok_iff.1 hlocate
      split at ht₂
      · cases ht₂
      · cases ht₂
      next hnode =>
      cases ht₂
      have hne : r.target.place r.current ≠ [] := ne_nil_of_node? hnode (by simp)
      obtain ⟨t', hstep, hread, hfiles⟩ := exists_step_rename h (locate_drop hlocate hnode)
        (by rw [node?_drop hne, if_neg h.ne_target, hcontent])
        (by rw [node?_drop hne, if_pos rfl]) fun q hq => by
          rw [file?_drop hne, Function.update_of_ne hq]
      exact ⟨t', by rw [steps_cons hstep, steps], hread, hfiles⟩
    · next e _ => exact .inl ⟨⟨e, r.target⟩, by rw [steps, hremove]⟩

theorem steps_append_refused {xs ys : List ReplaceStep} {s' : ReplaceState} {e : Refused}
    (h : r.steps xs s = (s', some e)) : r.steps (xs ++ ys) s = (s', some e) := by
  induction xs generalizing s with
  | nil => exact absurd (congrArg Prod.snd h) (by simp [steps])
  | cons x xs ih =>
    rw [steps] at h
    rcases hstep : r.step s x with ⟨s₁, _ | refused⟩
    · rw [hstep] at h
      rw [List.cons_append, steps_cons hstep, ih h]
    · rw [hstep] at h
      rw [List.cons_append, steps, hstep]
      exact h

end Replacement

/-- A replacement puts the content at its target, where it is read, and leaves all other files, or it
is refused and leaves all files as they were. -/
theorem replace_cases (t : FileTree) (current : List String) (target : Location) (content : Bytes) :
    (∃ t', t.replace current target content = (t', none) ∧
      t'.read current target = .ok content ∧
      t'.file? = Function.update t.file? (target.place current) (some content)) ∨
    ∃ t' e, t.replace current target content = (t', some e) ∧ t'.file? = t.file? := by
  let r : Replacement := ⟨current, target, content⟩
  have hrun : ∀ {s refused}, r.steps ([.makeParents, .createTemporary, .fillTemporary] ++
      [.removeOld, .rename]) ⟨t, none⟩ = (s, refused) →
      t.replace current target content = (Replacement.cleaned s, refused) := by
    intro s refused h
    show Replacement.run r t = _
    rw [Replacement.run, ReplaceStep.all, show r.steps [.makeParents, .createTemporary,
      .fillTemporary, .removeOld, .rename] ⟨t, none⟩ = (s, refused) from h]
  rcases r.prepare_cases t with ⟨s, e, hsteps, hfiles⟩ | ⟨s, temporary, hsteps, hprepared⟩
  · exact .inr ⟨_, e, hrun (Replacement.steps_append_refused hsteps), hfiles⟩
  · rcases Replacement.finish_cases hprepared with ⟨e, hfinish⟩ | ⟨t', hfinish, hread, hfiles⟩
    · exact .inr ⟨_, e, hrun ((Replacement.steps_append hsteps).trans hfinish),
        hprepared.file?_cleaned⟩
    · exact .inl ⟨t', hrun ((Replacement.steps_append hsteps).trans hfinish), hread, hfiles⟩

end FileTree
end ApiScribe
