import ApiScribe.Proofs.FileTree.Kept

/-! Replacements that are halted between two steps, and steps that a system refuses for reasons of
its own. Up to the removal of the old file the new content stands aside, and the old file is read as
before. Between the removal and the renaming nothing is read: whoever halts the replacement there
finds no file, and if the renaming is refused the clean-up takes the only copy away. -/
namespace ApiScribe
namespace FileTree
variable {t t' t₁ t₂ : FileTree} {current place : List String} {l : Location} {bs old : Bytes}

/-- Whatever stands in a tree stands in another one as well. -/
def IsPartOf (t t' : FileTree) : Prop := ∀ q n, t.node? q = some n → t'.node? q = some n

theorem IsPartOf.refl (t : FileTree) : t.IsPartOf t := fun _ _ h => h

theorem IsPartOf.trans (h : t.IsPartOf t₁) (h' : t₁.IsPartOf t₂) : t.IsPartOf t₂ :=
  fun q n hq => h' q n (h q n hq)

theorem isPartOf_put (h : t.node? place = none) (n : FileNode) : t.IsPartOf (t.put place n) := by
  intro q m hq
  have hne : q ≠ place := by
    rintro rfl
    rw [h] at hq
    cases hq
  rw [node?_put (ne_nil_of_node? h (by simp)), if_neg hne, hq]

/-- What was not there before can be taken away or changed again. -/
theorem IsPartOf.drop (h : t.IsPartOf t') (hnone : t.node? place = none) :
    t.IsPartOf (t'.drop place) := by
  intro q m hq
  have hne : q ≠ place := by
    rintro rfl
    rw [hnone] at hq
    cases hq
  rw [node?_drop (ne_nil_of_node? hnone (by simp)), if_neg hne, h q m hq]

theorem IsPartOf.put (h : t.IsPartOf t') (hnone : t.node? place = none) (n : FileNode) :
    t.IsPartOf (t'.put place n) := by
  intro q m hq
  have hne : q ≠ place := by
    rintro rfl
    rw [hnone] at hq
    cases hq
  rw [node?_put (ne_nil_of_node? hnone (by simp)), if_neg hne, h q m hq]

/-- A file is read in every tree that its own tree is part of. -/
theorem IsPartOf.read (h : t.IsPartOf t') (hread : t.read current l = .ok bs) :
    t'.read current l = .ok bs := by
  obtain ⟨hlocate, hnode⟩ := read_eq_ok_iff.1 hread
  obtain ⟨hfits, hleads, -⟩ := locate_eq_ok_iff.1 hlocate
  have hleads' : t'.Leads current l := fun d hd => h d _ (hleads d hd)
  exact read_eq_ok_iff.2 ⟨hleads'.locate hfits, h _ _ hnode⟩

namespace Replacement
variable {r : Replacement} {s s' : ReplaceState} {temporary : List String}

/-- A replacement that has only made things so far, beside what stood in the tree. -/
structure IsAside (t : FileTree) (s : ReplaceState) : Prop where
  kept : t.IsPartOf s.tree
  fresh : ∀ q ∈ s.temporary, t.node? q = none
  files : (cleaned s).file? = t.file?

theorem isAside_start (t : FileTree) : IsAside t ⟨t, none⟩ := ⟨.refl t, by simp, rfl⟩

/-- Without its temporary file the tree still has all that it had. -/
theorem IsAside.isPartOf_cleaned (h : IsAside t s) : t.IsPartOf (cleaned s) := by
  unfold cleaned
  split
  · next q hq => exact h.kept.drop (h.fresh q hq)
  · exact h.kept

theorem isAside_makeParents (r : Replacement) (t : FileTree) :
    IsAside t (r.step ⟨t, none⟩ .makeParents).1 where
  kept := makeDirectories_induction (fun h hnode => h.trans (isPartOf_put hnode _)) (.refl t) _
  fresh := by simp [step]
  files := file?_makePath t r.current r.target.parent

theorem IsAside.create (h : IsAside t s) (hnone : s.temporary = none) :
    IsAside t (r.step s .createTemporary).1 := by
  have hfiles := h.files
  rw [cleaned, hnone] at hfiles
  show IsAside t (r.create s).1
  unfold Replacement.create
  split
  · exact h
  next directory _ =>
  dsimp only
  split
  · have hfree := node?_temporaryPlace s.tree directory r.target.name
    generalize s.tree.temporaryPlace directory r.target.name = q at *
    have hfresh : t.node? q = none := by
      cases hnode : t.node? q with
      | none => rfl
      | some n =>
        rw [h.kept q n hnode] at hfree
        cases hfree
    have hne : q ≠ [] := ne_nil_of_node? hfree (by simp)
    refine ⟨h.kept.put hfresh _, by simpa using hfresh, ?_⟩
    show ((s.tree.put q (.file [])).drop q).file? = t.file?
    rw [file?_drop hne, file?_put_file hne, Function.update_idem, hfiles]
    have hfile : t.file? q = none := by rw [file?, hfresh]
    rw [← hfile, Function.update_eq_self]
  · exact h

theorem IsAside.fill (h : IsAside t s) : IsAside t (r.step s .fillTemporary).1 := by
  unfold step
  dsimp only
  split
  · next q hq =>
    have hfresh := h.fresh q hq
    have hne : q ≠ [] := ne_nil_of_node? hfresh (by simp)
    have hfiles := h.files
    rw [cleaned, hq] at hfiles
    refine ⟨h.kept.put hfresh _, h.fresh, ?_⟩
    simp only [cleaned, hq] at hfiles ⊢
    rw [← hfiles, file?_drop hne, file?_drop hne, file?_put_file hne, Function.update_idem]
  · exact h

/-- What holds after one step, and after the others unless that one is refused, holds after all. -/
theorem steps_cons_induction {P : ReplaceState → Prop} {x : ReplaceStep} {xs : List ReplaceStep}
    (hstep : P (r.step s x).1)
    (hrest : (r.step s x).2 = none → P (r.steps xs (r.step s x).1).1) :
    P (r.steps (x :: xs) s).1 := by
  rw [steps]
  rcases hx : r.step s x with ⟨s₁, _ | e⟩
  · rw [hx] at hrest
    exact hrest rfl
  · rw [hx] at hstep
    exact hstep

/-- The steps that only make things. -/
def preparing : List ReplaceStep := [.makeParents, .createTemporary, .fillTemporary]

/-- However far the preparation goes, and whether or not a step of it is refused, all is beside what
stood in the tree. -/
theorem isAside_steps (r : Replacement) (t : FileTree) (n : Nat) :
    IsAside t (r.steps (preparing.take n) ⟨t, none⟩).1 := by
  have hparents := isAside_makeParents r t
  have hcreated := IsAside.create (r := r) hparents rfl
  rcases n with _ | _ | _ | n
  · exact isAside_start t
  · exact steps_cons_induction hparents fun _ => hparents
  · exact steps_cons_induction hparents fun _ =>
      steps_cons_induction hcreated fun _ => hcreated
  · rw [show preparing.take (n + 3) = preparing by simp [preparing]]
    exact steps_cons_induction hparents fun _ =>
      steps_cons_induction hcreated fun _ =>
        steps_cons_induction (hcreated.fill (r := r)) fun _ => hcreated.fill

theorem steps_append_eq {xs ys : List ReplaceStep} (h : r.steps (xs ++ ys) s = (s', none)) :
    ∃ s₁, r.steps xs s = (s₁, none) ∧ r.steps ys s₁ = (s', none) := by
  induction xs generalizing s with
  | nil => exact ⟨s, rfl, h⟩
  | cons x xs ih =>
    obtain ⟨s₁, hx, h⟩ := steps_cons_eq h
    obtain ⟨s₂, hxs, hys⟩ := ih h
    exact ⟨s₂, (steps_cons hx).trans hxs, hys⟩

/-- A replacement from which the old file was taken away. -/
def bare (r : Replacement) (s : ReplaceState) : ReplaceState :=
  { s with tree := s.tree.drop (r.target.place r.current) }

/-- Where the old file is read, it is taken away. -/
theorem removeOld_eq (hread : s.tree.read r.current r.target = .ok old) :
    r.step s .removeOld = (r.bare s, none) ∧
      s.tree.locate r.current r.target = .ok (r.target.place r.current) ∧
      s.tree.node? (r.target.place r.current) = some (.file old) := by
  obtain ⟨hlocate, hnode⟩ := read_eq_ok_iff.1 hread
  refine ⟨?_, hlocate, hnode⟩
  simp only [step, removeOld, at?, remove, hlocate, hnode, bare]

/-- A replacement whose new content is ready, while the old file is still read. -/
structure IsReady (r : Replacement) (t : FileTree) (s : ReplaceState) (temporary : List String)
    (old : Bytes) : Prop extends IsPrepared r t s temporary where
  aside : IsAside t s
  read : s.tree.read r.current r.target = .ok old

/-- A replacement that goes on after its preparation is ready. -/
theorem exists_isReady (hold : t.read r.current r.target = .ok old)
    (h : r.steps preparing ⟨t, none⟩ = (s, none)) : ∃ temporary, IsReady r t s temporary old := by
  have haside := isAside_steps r t 3
  rw [show preparing.take 3 = preparing from rfl, h] at haside
  rcases r.prepare_cases t with ⟨s', e, hrefused, -⟩ | ⟨s', temporary, hsteps, hprepared⟩
  · cases (show r.steps preparing ⟨t, none⟩ = (s', some e) from hrefused).symm.trans h
  · cases (show r.steps preparing ⟨t, none⟩ = (s', none) from hsteps).symm.trans h
    exact ⟨temporary, hprepared, haside, haside.kept.read hold⟩

/-- With the old file taken away and the new one not in its place nothing is read at the target, and
if the temporary file is taken away too the target is all that is lost. -/
structure IsBare (r : Replacement) (t : FileTree) (s : ReplaceState) : Prop where
  read : s.tree.read r.current r.target = .error .missing
  cleaned : (cleaned s).read r.current r.target = .error .missing
  files : (Replacement.cleaned s).file? = Function.update t.file? (r.target.place r.current) none

theorem IsReady.isBare (h : IsReady r t s temporary old) : IsBare r t (r.bare s) := by
  obtain ⟨-, hlocate, hnode⟩ := removeOld_eq h.read
  have hne : r.target.place r.current ≠ [] := ne_nil_of_node? hnode (by simp)
  have hbare : (r.bare s).tree.locate r.current r.target = .ok (r.target.place r.current) :=
    locate_drop hlocate hnode
  have hnone : (r.bare s).tree.node? (r.target.place r.current) = none := by
    rw [bare, node?_drop hne, if_pos rfl]
  have htemporary : (r.bare s).tree.node? temporary = some (.file r.content) := by
    rw [bare, node?_drop hne, if_neg h.ne_target, ← file?_eq_some, h.files, Function.update_self]
  have hcleaned : cleaned (r.bare s) = (r.bare s).tree.drop temporary := by
    rw [cleaned, bare, h.stands]
  refine ⟨?_, ?_, ?_⟩
  · rw [FileTree.read, hbare]
    simp only [hnone]
  · rw [hcleaned, FileTree.read, locate_drop hbare htemporary]
    simp only [node?_drop h.ne_nil, hnone, ite_self]
  · rw [hcleaned, file?_drop h.ne_nil, bare, file?_drop hne, h.files]
    funext q
    by_cases htemp : q = temporary
    · rw [htemp, Function.update_self, Function.update_of_ne h.ne_target, h.fresh]
    by_cases hq : q = r.target.place r.current
    · rw [hq, Function.update_of_ne (Ne.symm h.ne_target), Function.update_self,
        Function.update_self]
    · rw [Function.update_of_ne htemp, Function.update_of_ne hq, Function.update_of_ne htemp,
        Function.update_of_ne hq]

/-- A replacement that is ready is not refused any more, and then the new file is read. -/
theorem IsReady.finish (h : IsReady r t s temporary old) :
    ∃ t', r.steps [.removeOld, .rename] s = (⟨t', none⟩, none) ∧
      t'.read r.current r.target = .ok r.content ∧
      t'.file? = Function.update t.file? (r.target.place r.current) (some r.content) := by
  rcases finish_cases h.toIsPrepared with ⟨e, hrefused⟩ | hdone
  · obtain ⟨hremove, hlocate, hnode⟩ := removeOld_eq h.read
    have hbare : (r.bare s).tree.locate r.current r.target = .ok (r.target.place r.current) :=
      locate_drop hlocate hnode
    have hrename : (r.step (r.bare s) .rename).2 = none := by
      have hstands : (r.bare s).temporary = some temporary := h.stands
      rw [step, rename, hstands, hbare]
    rw [steps_cons hremove, steps] at hrefused
    rcases hstep : r.step (r.bare s) .rename with ⟨s', _ | e'⟩
    · rw [hstep] at hrefused
      cases congrArg Prod.snd hrefused
    · rw [hstep] at hrename
      cases hrename
  · exact hdone

/-- A replacement that is refused leaves the old file to be read, and every file as it was. -/
theorem read_of_run_refused (hold : t.read r.current r.target = .ok old) {e : Refused}
    (h : r.run t = (t', some e)) :
    t'.read r.current r.target = .ok old ∧ t'.file? = t.file? := by
  have hrefused : (r.steps (preparing ++ [.removeOld, .rename]) ⟨t, none⟩).2 = some e :=
    congrArg Prod.snd h
  have hcleaned : cleaned (r.steps (preparing ++ [.removeOld, .rename]) ⟨t, none⟩).1 = t' :=
    congrArg Prod.fst h
  have haside := isAside_steps r t 3
  rw [show preparing.take 3 = preparing from rfl] at haside
  rcases hprepare : r.steps preparing ⟨t, none⟩ with ⟨s, _ | e'⟩
  · obtain ⟨temporary, hready⟩ := exists_isReady hold hprepare
    obtain ⟨t₁, hfinish, -⟩ := hready.finish
    rw [steps_append hprepare, hfinish] at hrefused
    cases hrefused
  · rw [hprepare] at haside
    rw [steps_append_refused hprepare] at hcleaned
    rw [← hcleaned]
    exact ⟨haside.isPartOf_cleaned.read hold, haside.files⟩

/-- Where a replacement is halted before some of its steps, without one having been refused, it has
only made things beside the old file, or it has taken the old file away, or it is done. -/
theorem halted_cases (hold : t.read r.current r.target = .ok old) {before after : List ReplaceStep}
    (hall : before ++ after = ReplaceStep.all) (h : r.steps before ⟨t, none⟩ = (s, none)) :
    (after ≠ [.rename] ∧ after ≠ [] ∧ IsAside t s) ∨ (after = [.rename] ∧ IsBare r t s) ∨
      (after = [] ∧ s.tree.read r.current r.target = .ok r.content) := by
  have hbefore : before = ReplaceStep.all.take before.length := by rw [← hall, List.take_left]
  have hafter : after = ReplaceStep.all.drop before.length := by rw [← hall, List.drop_left]
  clear hall
  generalize before.length = n at hbefore hafter
  subst hbefore hafter
  have hmaking : ∀ k, r.steps (preparing.take k) ⟨t, none⟩ = (s, none) → IsAside t s := by
    intro k hk
    have haside := isAside_steps r t k
    rwa [hk] at haside
  rcases n with _ | _ | _ | _ | _ | n
  · exact .inl ⟨by decide, by decide, hmaking 0 h⟩
  · exact .inl ⟨by decide, by decide, hmaking 1 h⟩
  · exact .inl ⟨by decide, by decide, hmaking 2 h⟩
  · exact .inl ⟨by decide, by decide, hmaking 3 h⟩
  · have hsteps : r.steps (preparing ++ [.removeOld]) ⟨t, none⟩ = (s, none) := h
    obtain ⟨s₁, hprepare, hremove⟩ := steps_append_eq hsteps
    obtain ⟨temporary, hready⟩ := exists_isReady hold hprepare
    rw [steps_cons (removeOld_eq hready.read).1] at hremove
    cases hremove
    exact .inr (.inl ⟨rfl, hready.isBare⟩)
  · rw [show ReplaceStep.all.take (n + 5) = preparing ++ [.removeOld, .rename] by
      simp [ReplaceStep.all, preparing]] at h
    obtain ⟨s₁, hprepare, hfinish⟩ := steps_append_eq h
    obtain ⟨temporary, hready⟩ := exists_isReady hold hprepare
    obtain ⟨t', hdone, hread, -⟩ := hready.finish
    rw [hdone] at hfinish
    cases hfinish
    exact .inr (.inr ⟨by simp [ReplaceStep.all], hread⟩)

/-- Halted anywhere but between the removal and the renaming, a replacement shows the old file or
the new one; if the next step is refused, the clean-up leaves the old file unless that step is the
renaming, and never a temporary file. A replacement that a tree itself refuses leaves all files as
they were. -/
theorem read_halted_iff (hold : t.read r.current r.target = .ok old) :
    (∀ before after s, before ++ after = ReplaceStep.all → r.steps before ⟨t, none⟩ = (s, none) →
      ((s.tree.read r.current r.target = .ok old ∨ s.tree.read r.current r.target = .ok r.content) ↔
        after ≠ [.rename]) ∧
      (after ≠ [] → ((cleaned s).read r.current r.target = .ok old ↔ after ≠ [.rename]) ∧
        ∀ q ≠ r.target.place r.current, (cleaned s).file? q = t.file? q)) ∧
    ∀ t' e, r.run t = (t', some e) →
      t'.read r.current r.target = .ok old ∧ t'.file? = t.file? := by
  refine ⟨fun before after s hall h => ?_, fun t' e h => read_of_run_refused hold h⟩
  rcases halted_cases hold hall h with ⟨hrename, -, haside⟩ | ⟨rfl, hbare⟩ | ⟨rfl, hnew⟩
  · have hread := haside.isPartOf_cleaned.read hold
    exact ⟨iff_of_true (.inl (haside.kept.read hold)) hrename,
      fun _ => ⟨iff_of_true hread hrename, fun q _ => by rw [haside.files]⟩⟩
  · refine ⟨iff_of_false (by simp [hbare.read]) (by simp), fun _ =>
      ⟨iff_of_false (by simp [hbare.cleaned]) (by simp), fun q hq => ?_⟩⟩
    rw [hbare.files, Function.update_of_ne hq]
  · exact ⟨iff_of_true (.inr hnew) (by simp), fun hne => absurd rfl hne⟩

/-- The replacement of one letter by another. -/
def letterReplacement : Replacement := ⟨[], ⟨"", ["letter.ts"]⟩, [98]⟩

def letterTree : FileTree := ⟨[(["letter.ts"], .file [97])]⟩

/-- The tree of the letter when the old one is taken away, with the new one in a file aside. -/
def halfwayTree : FileTree := ⟨[([".letter.ts.0.tmp"], .file [98])]⟩

theorem read_halted_letter : letterTree.read [] letterReplacement.target = .ok [97] ∧
    (¬ (halfwayTree.read [] letterReplacement.target = .ok [97] ∨
      halfwayTree.read [] letterReplacement.target = .ok [98])) ∧
    (FileTree.read ⟨[]⟩ [] letterReplacement.target ≠ .ok [97]) := by
  have hold : letterTree.read [] letterReplacement.target = .ok [97] := by decide +kernel
  have hsteps : letterReplacement.steps (ReplaceStep.all.take 4) ⟨letterTree, none⟩ =
      (⟨halfwayTree, some [".letter.ts.0.tmp"]⟩, none) := by decide +kernel
  obtain ⟨hhalted, hcleaned⟩ := (read_halted_iff (r := letterReplacement) hold).1 _ [.rename] _ rfl
    hsteps
  obtain ⟨hgone, -⟩ := hcleaned (by decide)
  exact ⟨hold, fun h => hhalted.1 h rfl, fun h => hgone.1 h rfl⟩

/-- Between the removal and the renaming neither the old letter nor the new one is read. -/
theorem not_read_halted_letter :
    letterReplacement.steps [.makeParents, .createTemporary, .fillTemporary, .removeOld]
      ⟨letterTree, none⟩ = (⟨halfwayTree, some [".letter.ts.0.tmp"]⟩, none) ∧
    letterTree.read [] letterReplacement.target = .ok [97] ∧
    halfwayTree.read [] letterReplacement.target = .error .missing := by decide +kernel

end Replacement
end FileTree
end ApiScribe
