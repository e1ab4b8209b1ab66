import ApiScribe.Proofs.FileTree.Refused

/-! What replacing a file keeps of a tree, and what a replacement shows that succeeds. All that a
replacement does to a tree is putting things and taking things away, so what these keep it keeps. -/
namespace ApiScribe
namespace FileTree
variable {P : FileTree → Prop} {t t' : FileTree} {current : List String} {l : Location}

/-- A property that trees keep when something is put or taken away. -/
structure IsKept (P : FileTree → Prop) : Prop where
  put : ∀ {t : FileTree} (q : List String) (n : FileNode), P t → P (t.put q n)
  drop : ∀ {t : FileTree} (q : List String), P t → P (t.drop q)

/-- A tree keeps having every place once. -/
theorem isKept_nodup : IsKept fun t => t.nodes.keys.Nodup where
  put q n h := Entries.nodup_keys_put h q n
  drop _ h := h.sublist (List.filter_sublist.map _)

theorem IsKept.remove (hP : IsKept P) (ht : P t) (h : t.remove current l = .ok t') : P t' := by
  unfold FileTree.remove at h
  split at h
  · cases h
  · split at h
    · cases h
    · cases h
    · cases h
      exact hP.drop _ ht

/-- No step of a replacement breaks what is kept. -/
theorem IsKept.step (hP : IsKept P) {r : Replacement} {s : ReplaceState} (hs : P s.tree)
    (x : ReplaceStep) : P (r.step s x).1.tree := by
  cases x with
  | makeParents => exact makeDirectories_induction (fun h _ => hP.put _ _ h) hs _
  | createTemporary =>
    show P (r.create s).1.tree
    unfold Replacement.create
    split
    · exact hs
    · dsimp only
      split
      · exact hP.put _ _ hs
      · exact hs
  | fillTemporary =>
    unfold Replacement.step
    dsimp only
    split
    · exact hP.put _ _ hs
    · exact hs
  | removeOld =>
    show P (r.removeOld s).1.tree
    unfold Replacement.removeOld
    split
    · exact hs
    · split
      · next h => exact hP.remove hs h
      · exact hs
  | rename =>
    show P (r.rename s).1.tree
    unfold Replacement.rename
    split
    · exact hP.put _ _ (hP.drop _ hs)
    · exact hs
    · exact hs

/-- The induction is on the steps, up to the first that is refused. -/
theorem IsKept.steps (hP : IsKept P) {r : Replacement} {s : ReplaceState} (hs : P s.tree)
    (xs : List ReplaceStep) : P (r.steps xs s).1.tree := by
  induction xs generalizing s with
  | nil => exact hs
  | cons x xs ih =>
    have hstep := hP.step (r := r) hs x
    unfold Replacement.steps
    split
    · next h =>
      rw [h] at hstep
      exact ih hstep
    · next h =>
      rw [h] at hstep
      exact hstep

theorem IsKept.replace (hP : IsKept P) (ht : P t) (target : Location) (content : Bytes) :
    P (t.replace current target content).1 := by
  have hsteps := @IsKept.steps P hP ⟨current, target, content⟩ ⟨t, none⟩ ht ReplaceStep.all
  show P (Replacement.cleaned _)
  unfold Replacement.cleaned
  split
  · exact hP.drop _ hsteps
  · exact hsteps

/-- A step that comes before others in a replacement that is not refused is not refused. -/
theorem Replacement.steps_cons_eq {r : Replacement} {x : ReplaceStep} {xs : List ReplaceStep}
    {s s' : ReplaceState} (h : r.steps (x :: xs) s = (s', none)) :
    ∃ s₁, r.step s x = (s₁, none) ∧ r.steps xs s₁ = (s', none) := by
  unfold Replacement.steps at h
  split at h
  · next s₁ hstep => exact ⟨s₁, hstep, h⟩
  · cases congrArg Prod.snd h

/-- Where a file was replaced its location is within the limits, and there is room for a temporary
file beside it. -/
theorem fits_of_replace {target : Location} {content : Bytes}
    (h : t.replace current target content = (t', none)) :
    target.Fits ∧ hasRoom (target.parent.place current) target.name = true := by
  have hsnd : (t.replace current target content).2 = none := by rw [h]
  obtain ⟨s, hsteps⟩ : ∃ s, Replacement.steps ⟨current, target, content⟩ ReplaceStep.all ⟨t, none⟩ =
      (s, none) := ⟨_, Prod.ext rfl hsnd⟩
  obtain ⟨s₁, -, hsteps⟩ := Replacement.steps_cons_eq hsteps
  obtain ⟨s₂, hcreate, hsteps⟩ := Replacement.steps_cons_eq hsteps
  obtain ⟨s₃, -, hsteps⟩ := Replacement.steps_cons_eq hsteps
  obtain ⟨s₄, -, hsteps⟩ := Replacement.steps_cons_eq hsteps
  obtain ⟨s₅, hrename, -⟩ := Replacement.steps_cons_eq hsteps
  constructor
  · change Replacement.rename _ _ = _ at hrename
    unfold Replacement.rename at hrename
    split at hrename
    · next hlocate => exact (locate_eq_ok_iff.1 hlocate).1
    · cases congrArg Prod.snd hrename
    · cases congrArg Prod.snd hrename
  · change Replacement.create _ _ = _ at hcreate
    unfold Replacement.create at hcreate
    split at hcreate
    · cases congrArg Prod.snd hcreate
    · next hlocate =>
      obtain ⟨-, -, rfl⟩ := locate_eq_ok_iff.1 hlocate
      dsimp only at hcreate
      split at hcreate
      · next hroom => exact hroom
      · cases congrArg Prod.snd hcreate

end FileTree
end ApiScribe

/-! A tree without some of its files. A file is on no way, so every location leads where it led, and
where one led nowhere it leads nowhere still. -/
namespace ApiScribe
namespace FileTree
variable {t : FileTree} {current place : List String} {places : List (List String)} {l : Location}

/-- A tree without what stands at some places. -/
def without (t : FileTree) (places : List (List String)) : FileTree := places.foldl drop t

theorem nodes_without (t : FileTree) (places : List (List String)) :
    (t.without places).nodes = t.nodes.filter fun p => p.1 ∉ places := by
  induction places generalizing t with
  | nil => simp [without]
  | cons q places ih =>
    have hrest : t.without (q :: places) = (t.drop q).without places := rfl
    rw [hrest, ih, drop, List.filter_filter]
    refine List.filter_congr fun p _ => ?_
    by_cases hp : p.1 = q <;> simp [hp]

theorem node?_without (h : ∀ q ∈ places, t.node? q ≠ some .directory) (q : List String) :
    (t.without places).node? q = if q ∈ places then none else t.node? q := by
  have hne : ∀ q ∈ places, q ≠ [] := fun q hq => ne_nil_of_node? rfl (h q hq)
  clear h
  induction places generalizing t with
  | nil => simp [without]
  | cons p places ih =>
    obtain ⟨hp, hplaces⟩ := List.forall_mem_cons.1 hne
    have hrest : t.without (p :: places) = (t.drop p).without places := rfl
    rw [hrest, ih hplaces, node?_drop hp]
    by_cases hq : q = p <;> simp [hq]

theorem node?_without_directory (h : ∀ q ∈ places, t.node? q ≠ some .directory) {q : List String}
    (hq : t.node? q = some .directory) : (t.without places).node? q = some .directory := by
  rw [node?_without h, if_neg fun hmem => h q hmem hq, hq]

theorem locate_without_ok (h : ∀ q ∈ places, t.node? q ≠ some .directory)
    (hlocate : t.locate current l = .ok place) :
    (t.without places).locate current l = .ok place := by
  obtain ⟨hfits, hleads, hplace⟩ := locate_eq_ok_iff.1 hlocate
  exact locate_eq_ok_iff.2
    ⟨hfits, fun q hq => node?_without_directory h (hleads q hq), hplace⟩

/-- What cannot be followed is as little followed without some files, and a name is too long only if
it was. The induction is on the steps, of which all but the last start in directories. -/
theorem follow_without_error (h : ∀ q ∈ places, t.node? q ≠ some .directory) {ss : List String}
    {r : Refusal} (hfollow : t.follow place ss = .error r) :
    ∃ r', (t.without places).follow place ss = .error r' ∧
      (r' = .nameTooLong ↔ r = .nameTooLong) := by
  induction ss generalizing place with
  | nil => cases hfollow
  | cons s ss ih =>
    cases hnode : t.node? place with
    | none =>
      have hnode' : (t.without places).node? place = none := by
        rw [node?_without h, hnode, ite_self]
      simp only [follow, enter, hnode] at hfollow
      exact ⟨.missing, by simp only [follow, enter, hnode'], by cases hfollow; simp⟩
    | some n =>
      cases n with
      | file bs =>
        simp only [follow, enter, hnode] at hfollow
        by_cases hmem : place ∈ places
        · have hnode' : (t.without places).node? place = none := by
            rw [node?_without h, if_pos hmem]
          exact ⟨.missing, by simp only [follow, enter, hnode'], by cases hfollow; simp⟩
        · have hnode' : (t.without places).node? place = some (.file bs) := by
            rw [node?_without h, if_neg hmem, hnode]
          exact ⟨.notDirectory, by simp only [follow, enter, hnode'], by cases hfollow; simp⟩
      | directory =>
        have hsame : (t.without places).enter place s = t.enter place s := by
          simp only [enter, hnode, node?_without_directory h hnode]
        rw [follow] at hfollow
        rw [follow, hsame]
        cases henter : t.enter place s with
        | ok q =>
          rw [henter] at hfollow
          exact ih hfollow
        | error r' =>
          rw [henter] at hfollow
          cases hfollow
          exact ⟨_, rfl, Iff.rfl⟩

theorem locate_without_error (h : ∀ q ∈ places, t.node? q ≠ some .directory) {r : Refusal}
    (hlocate : t.locate current l = .error r) :
    ∃ r', (t.without places).locate current l = .error r' ∧
      (r' = .nameTooLong ↔ r = .nameTooLong) := by
  unfold locate at hlocate ⊢
  split at hlocate
  · next htext =>
    rw [if_pos htext]
    cases hlocate
    exact ⟨_, rfl, Iff.rfl⟩
  · next htext =>
    rw [if_neg htext]
    exact follow_without_error h hlocate

end FileTree
end ApiScribe
