import ApiScribe.Import
import ApiScribe.Proofs.Location

/-! Sources of relative imports. From the directory of the importing file a source leads back to the
imported file without its ending, however far the two files are apart. -/
namespace ApiScribe
namespace Path

open Location

/-- Steps that go down only, each to a name of its own. -/
structure IsDown (ss : List String) : Prop where
  plain : ∀ s ∈ ss, IsPlainStep s
  up : ".." ∉ ss

instance (ss : List String) : Decidable (IsDown ss) :=
  decidable_of_iff ((∀ s ∈ ss, isStep s = true ∧ '/' ∉ s.toList) ∧ ".." ∉ ss)
    ⟨fun ⟨hplain, hup⟩ => ⟨fun s hs => ⟨(hplain s hs).1, (hplain s hs).2⟩, hup⟩,
      fun h => ⟨fun s hs => ⟨(h.plain s hs).step, (h.plain s hs).slash⟩, h.up⟩⟩

theorem isDown_append {ss ts : List String} : IsDown (ss ++ ts) ↔ IsDown ss ∧ IsDown ts := by
  constructor
  · rintro ⟨hplain, hup⟩
    rw [List.forall_mem_append] at hplain
    rw [List.mem_append, not_or] at hup
    exact ⟨⟨hplain.1, hup.1⟩, ⟨hplain.2, hup.2⟩⟩
  · rintro ⟨hs, ht⟩
    refine ⟨List.forall_mem_append.2 ⟨hs.plain, ht.plain⟩, ?_⟩
    rw [List.mem_append, not_or]
    exact ⟨hs.up, ht.up⟩

theorem IsDown.steps {ss : List String} (h : IsDown ss) (hne : ss ≠ []) :
    steps ("/".intercalate ss) = ss :=
  Text.splitString_intercalate hne fun s hs => (h.plain s hs).slash

theorem IsDown.isAbsolute {ss : List String} (h : IsDown ss) (hne : ss ≠ []) :
    isAbsolute ("/".intercalate ss) = false :=
  isAbsolute_of_head? (head?_intercalate hne h.plain)

/-- A path below another is its steps behind those of the other. -/
theorem steps_append_slash (p q : String) : Path.steps (p ++ "/" ++ q) = steps p ++ steps q := by
  have hlist : (p ++ "/" ++ q).toList = p.toList ++ '/' :: q.toList := by simp
  rw [Path.steps, Text.splitString, hlist, Text.splitAt_append_cons, List.map_append]
  rfl

/-- Steps that go nowhere make no difference. -/
theorem foldl_step_filter (absolute : Bool) (ss done : List String) :
    (ss.filter isStep).foldl (step absolute) done = ss.foldl (step absolute) done := by
  induction ss generalizing done with
  | nil => rfl
  | cons s ss ih =>
    by_cases hs : isStep s = true
    · rw [List.filter_cons_of_pos hs, List.foldl_cons, List.foldl_cons, ih]
    · have hstay : step absolute done s = done := by
        have hhere : s = "" ∨ s = "." := by
          simpa [isStep, Classical.or_iff_not_imp_left] using hs
        simp [step, hhere]
      rw [List.filter_cons_of_neg hs, ih, List.foldl_cons, hstay]

/-- Two points for each step take the steps back. -/
theorem foldl_step_up {absolute : Bool} {back done : List String} (h : ".." ∉ back) :
    (back.map fun _ => "..").foldl (step absolute) (back ++ done) = done := by
  induction back with
  | nil => rfl
  | cons s back ih =>
    obtain ⟨hs, hback⟩ := not_or.1 fun hmem => h (List.mem_cons.2 hmem)
    have hup : step absolute (s :: back ++ done) ".." = back ++ done := by
      simp [step, Ne.symm hs]
    rw [List.map_cons, List.foldl_cons, hup, ih hback]

theorem rooted_intercalate {ss : List String} (h : IsDown ss) (hne : ss ≠ []) :
    rooted ("/".intercalate ss) = base.filter isStep ++ ss := by
  have hup : ".." ∉ base ++ ss := by
    rw [List.mem_append, not_or]
    exact ⟨by decide, h.up⟩
  rw [rooted, h.isAbsolute hne, h.steps hne, normalSteps, if_neg Bool.false_ne_true,
    foldl_step hup, List.append_nil, List.reverse_reverse, List.filter_append, filter_isStep h.plain]

theorem between_append (front ss ts : List String) :
    between (front ++ ss) (front ++ ts) = between ss ts := by
  induction front with
  | nil => rfl
  | cons s front ih => rw [List.cons_append, List.cons_append, between, if_pos rfl, ih]

/-- The way between two places goes up to where their ways part, and then down. -/
theorem exists_between (ss ts : List String) : ∃ front ups downs, ss = front ++ ups ∧
    ts = front ++ downs ∧ between ss ts = ups.map (fun _ => "..") ++ downs := by
  induction ss generalizing ts with
  | nil => exact ⟨[], [], ts, rfl, rfl, by unfold between; rfl⟩
  | cons s ss ih =>
    cases ts with
    | nil => exact ⟨[], s :: ss, [], rfl, rfl, by unfold between; rfl⟩
    | cons t ts =>
      by_cases hst : s = t
      · obtain ⟨front, ups, downs, hs, ht, hbetween⟩ := ih ts
        refine ⟨s :: front, ups, downs, by rw [hs]; rfl, by rw [← hst, ht]; rfl, ?_⟩
        rw [between, if_pos hst, hbetween]
      · exact ⟨[], s :: ss, t :: ts, rfl, rfl, by rw [between, if_neg hst]⟩

theorem forall_mem_between {P : String → Prop} (hup : P "..") {ss ts : List String}
    (h : ∀ t ∈ ts, P t) : ∀ s ∈ between ss ts, P s := by
  obtain ⟨front, ups, downs, -, rfl, hbetween⟩ := exists_between ss ts
  rw [hbetween, List.forall_mem_append]
  refine ⟨fun s hs => ?_, (List.forall_mem_append.1 h).2⟩
  obtain ⟨-, -, rfl⟩ := List.mem_map.1 hs
  exact hup

theorem isPlainStep_of_mem_between {ss ts : List String} (h : ∀ t ∈ ts, IsPlainStep t) :
    ∀ s ∈ between ss ts, IsPlainStep s :=
  forall_mem_between ⟨by decide, by decide⟩ h

/-- From one place the way between leads to the other. -/
theorem foldl_step_between {absolute : Bool} {ss ts : List String} (hs : ".." ∉ ss)
    (ht : IsDown ts) : (between ss ts).foldl (step absolute) ss.reverse = ts.reverse := by
  obtain ⟨front, ups, downs, rfl, rfl, hbetween⟩ := exists_between ss ts
  obtain ⟨-, hdowns⟩ := isDown_append.1 ht
  have hups : ".." ∉ ups.reverse := fun hmem =>
    hs (List.mem_append_right _ (List.mem_reverse.1 hmem))
  have hback : ups.map (fun _ => "..") = ups.reverse.map fun _ => ".." := by
    rw [List.map_const', List.map_const', List.length_reverse]
  rw [hbetween, List.foldl_append, hback, List.reverse_append, foldl_step_up hups,
    foldl_step hdowns.up, filter_isStep hdowns.plain, List.reverse_append]

theorem isPlainStep_concat {ss : List String} {s : String} (h : IsDown (ss ++ [s])) :
    IsPlainStep s :=
  (isDown_append.1 h).2.plain s (List.mem_singleton_self s)

/-- Steps joined by slashes end with the last step. -/
theorem exists_intercalate_concat (ss : List String) (s : String) :
    ∃ front, "/".intercalate (ss ++ [s]) = front ++ s := by
  cases ss with
  | nil => exact ⟨"", by simp⟩
  | cons t ss =>
    rw [String.intercalate_append_of_ne_nil (by simp) (by simp)]
    exact ⟨_, by rw [String.intercalate_singleton]⟩

theorem IsDown.getLast?_intercalate {ss : List String} (h : IsDown ss) (hne : ss ≠ []) :
    ("/".intercalate ss).toList ≠ [] ∧ ("/".intercalate ss).toList.getLast? ≠ some '/' := by
  obtain ⟨front, last, rfl⟩ := List.eq_nil_or_concat' ss |>.resolve_left hne
  have hlast := isPlainStep_concat h
  obtain ⟨start, hstart⟩ := exists_intercalate_concat front last
  rw [hstart, String.toList_append]
  refine ⟨by simp [hlast.ne_nil], ?_⟩
  rw [List.getLast?_append_of_ne_nil _ hlast.ne_nil]
  exact fun hmem => hlast.slash (List.mem_of_getLast? hmem)

theorem IsDown.intercalate_ne {ss : List String} (h : IsDown ss) (hne : ss ≠ []) :
    "/".intercalate ss ≠ "" :=
  fun hnil => (h.getLast?_intercalate hne).1 (by rw [hnil]; rfl)

/-- The directory of a file is what stands before its name. -/
theorem directory_intercalate {ss : List String} {s : String} (h : IsDown (ss ++ [s]))
    (hne : ss ≠ []) : directory ("/".intercalate (ss ++ [s])) = "/".intercalate ss := by
  have hs := isPlainStep_concat h
  obtain ⟨hsome, hlast⟩ := (isDown_append.1 h).1.getLast?_intercalate hne
  have hback : ("/".intercalate (ss ++ [s])).toList.reverse =
      s.toList.reverse ++ '/' :: ("/".intercalate ss).toList.reverse := by
    rw [String.intercalate_append_of_ne_nil hne (by simp)]
    simp
  have hhead : (s.toList.reverse ++ '/' :: ("/".intercalate ss).toList.reverse).dropWhile
      (· ≠ '/') = '/' :: ("/".intercalate ss).toList.reverse := by
    rw [List.dropWhile_append_of_pos, List.dropWhile_cons_of_neg (by decide)]
    intro c hc
    simpa using ne_of_mem_of_not_mem (List.mem_reverse.1 hc) hs.slash
  have hcut : ('/' :: ("/".intercalate ss).toList.reverse).dropWhile (· = '/') =
      ("/".intercalate ss).toList.reverse := by
    obtain ⟨c, cs, hc⟩ := List.exists_cons_of_ne_nil (List.reverse_ne_nil_iff.2 hsome)
    have hslash : c ≠ '/' := by
      rintro rfl
      rw [← List.head?_reverse, hc] at hlast
      exact hlast rfl
    rw [List.dropWhile_cons_of_pos (by decide), hc, List.dropWhile_cons_of_neg (by simpa using hslash)]
  simp only [directory, hback, hhead, hcut]
  rw [if_neg (by simpa using hsome), List.reverse_reverse, String.ofList_toList]

/-- A file name that is more than points loses its ending. -/
theorem withoutSuffix_append {front stem : String} (hslash : '/' ∉ stem.toList)
    (hstem : ∃ c ∈ stem.toList, c ≠ '.') : withoutSuffix (front ++ stem ++ ".ts") = front ++ stem := by
  have hback : (front ++ stem ++ ".ts").toList.reverse =
      's' :: 't' :: '.' :: (stem.toList.reverse ++ front.toList.reverse) := by simp
  have hname : (stem.toList.reverse ++ front.toList.reverse).takeWhile (· ≠ '/') =
      stem.toList.reverse ++ front.toList.reverse.takeWhile (· ≠ '/') := by
    refine List.takeWhile_append_of_pos fun c hc => ?_
    have hne : c ≠ '/' := ne_of_mem_of_not_mem (List.mem_reverse.1 hc) hslash
    simpa using hne
  have hany : (stem.toList.reverse ++ front.toList.reverse.takeWhile (· ≠ '/')).any (· ≠ '.') =
      true := by
    obtain ⟨c, hc, hdot⟩ := hstem
    exact List.any_eq_true.2 ⟨c, by simp [hc], by simpa using hdot⟩
  have hdots : ('s' :: 't' :: '.' :: (stem.toList.reverse ++ front.toList.reverse)).takeWhile
      (· ≠ '/') = 's' :: 't' :: '.' :: (stem.toList.reverse ++
        front.toList.reverse.takeWhile (· ≠ '/')) := by
    rw [List.takeWhile_cons_of_pos (by decide), List.takeWhile_cons_of_pos (by decide),
      List.takeWhile_cons_of_pos (by decide), hname]
  have hending : ∀ cs : List Char, ('s' :: 't' :: '.' :: cs).dropWhile (· ≠ '.') = '.' :: cs ∧
      ('s' :: 't' :: '.' :: cs).takeWhile (· ≠ '.') = ['s', 't'] := fun cs => ⟨rfl, rfl⟩
  simp only [withoutSuffix, hback, hdots, (hending _).1, (hending _).2]
  rw [if_pos hany]
  simp

theorem mem_of_mem_withoutSuffix {p : String} {c : Char} (h : c ∈ (withoutSuffix p).toList) :
    c ∈ p.toList := by
  unfold withoutSuffix at h
  dsimp only at h
  split at h
  · split at h
    · rw [String.toList_ofList, List.mem_reverse] at h
      exact List.mem_reverse.1 (List.mem_of_mem_drop h)
    · exact h
  · exact h

end Path

namespace Import

open Location Path

/-- As a source a path has the same steps. -/
theorem steps_source (p : String) : (ofPath (source p)).steps = (ofPath p).steps := by
  unfold source
  split
  · next hp =>
    rcases by simpa using hp with rfl | rfl <;> decide +kernel
  · split
    · rfl
    · exact steps_ofPath_here p

theorem isAbsolute_source {p : String} (h : isAbsolute p = false) :
    isAbsolute (source p) = false := by
  unfold source
  split
  · decide +kernel
  · split
    · exact h
    · exact isAbsolute_of_head? (by simp)

/-- A source below a directory is its steps behind those of the directory. -/
theorem normal_join_source {ds : List String} (hds : IsDown ds) (hd : ds ≠ []) {p : String}
    (hp : isAbsolute p = false) {ts : List String} (hts : IsDown ts) (ht : ts ≠ [])
    (h : ((ofPath p).steps.foldl (step false) ds.reverse) = ts.reverse) :
    normal (join ("/".intercalate ds) (source p)) = "/".intercalate ts := by
  obtain ⟨hsome, hlast⟩ := hds.getLast?_intercalate hd
  have hslash : ("/".intercalate ds).endsWith "/" = false := by
    rw [String.endsWith_eq_endsWith_toSlice, String.Slice.endsWith_string_eq_false_iff,
      String.copy_toSlice]
    rintro ⟨rest, hrest⟩
    exact hlast (by rw [← hrest]; simp)
  have hempty := hds.intercalate_ne hd
  have hjoin : join ("/".intercalate ds) (source p) = "/".intercalate ds ++ "/" ++ source p := by
    rw [join, isAbsolute_source hp, if_neg Bool.false_ne_true, if_neg (by simp [hempty, hslash])]
  have habsolute : isAbsolute ("/".intercalate ds ++ "/" ++ source p) = false := by
    refine isAbsolute_of_head? ?_
    rw [String.append_assoc, String.toList_append, List.head?_append_of_ne_nil _ hsome]
    exact head?_intercalate hd hds.plain
  have hsteps : normalSteps false (Path.steps ("/".intercalate ds ++ "/" ++ source p)) = ts := by
    have hsource : (Path.steps (source p)).filter isStep = (ofPath p).steps := steps_source p
    rw [normalSteps, steps_append_slash, hds.steps hd, List.foldl_append, foldl_step hds.up,
      filter_isStep hds.plain, List.append_nil, ← foldl_step_filter, hsource, h, List.reverse_reverse]
  rw [hjoin, normal, habsolute, hsteps, Path.lead, habsolute]
  exact if_neg (by simpa using hts.intercalate_ne ht)

/-- A source leads from the directory of the importing file to the imported file without its
ending. -/
theorem relative?_leads {ds ts : List String} {name stem : String} (hds : IsDown (ds ++ [name]))
    (hd : ds ≠ []) (hts : IsDown (ts ++ [stem])) (hstem : ∃ c ∈ stem.toList, c ≠ '.') :
    ∃ s, relative? ("/".intercalate (ds ++ [name])) ("/".intercalate (ts ++ [stem]) ++ ".ts") =
        some s ∧
      normal (join (directory ("/".intercalate (ds ++ [name]))) s) = "/".intercalate (ts ++ [stem]) := by
  have hdown := (isDown_append.1 hds).1
  have hne : ts ++ [stem] ≠ [] := by simp
  obtain ⟨front, hfront⟩ := exists_intercalate_concat ts stem
  have hsuffix : withoutSuffix ("/".intercalate (ts ++ [stem]) ++ ".ts") =
      "/".intercalate (ts ++ [stem]) := by
    rw [hfront, withoutSuffix_append (isPlainStep_concat hts).slash hstem]
  have hhere : directoryOf ("/".intercalate (ds ++ [name])) = "/".intercalate ds := by
    rw [directoryOf, directory_intercalate hds hd]
    exact if_neg (hdown.intercalate_ne hd)
  let way := between ds (ts ++ [stem])
  have hplain : ∀ s ∈ way, IsPlainStep s := isPlainStep_of_mem_between hts.plain
  let p := if way.isEmpty then "." else "/".intercalate way
  have hrelative : Path.relative? ("/".intercalate (ts ++ [stem])) ("/".intercalate ds) = some p := by
    rw [Path.relative?, if_neg (hts.intercalate_ne hne), rooted_intercalate hdown hd,
      rooted_intercalate hts hne, between_append]
  have hp : isAbsolute p = false ∧ (ofPath p).steps = way := by
    by_cases hway : way = []
    · simp only [p, hway]
      decide +kernel
    · have hnone : p = "/".intercalate way := if_neg (by simpa using hway)
      rw [hnone, ofPath_intercalate hway hplain]
      exact ⟨isAbsolute_of_head? (head?_intercalate hway hplain), rfl⟩
  refine ⟨source p, ?_, ?_⟩
  · rw [relative?, hsuffix, hhere, hrelative]
    rfl
  · rw [directory_intercalate hds hd]
    refine normal_join_source hdown hd hp.1 hts hne ?_
    rw [hp.2]
    exact foldl_step_between hdown.up hts

end Import
end ApiScribe
