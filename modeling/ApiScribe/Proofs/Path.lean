import ApiScribe.Proofs.FileTree.Places
import ApiScribe.Proofs.Import
import ApiScribe.Proofs.Reference

/-! Paths that stay inside a directory. A relative path leads above the place that it starts from
exactly if its normal form starts with a step up; otherwise it names, below any directory, the place
that the steps of its normal form lead to from there. Normal forms, directories and joined paths
are told by the way that a path goes. -/
namespace ApiScribe
namespace Path

open Location

/-- Whether a step leads down to a name. -/
def isName (s : String) : Bool := isStep s && s != ".."

/-- Steps that never lead above the place that they start from: however far they are followed, they
have gone down at least as often as up. -/
def StaysBelow (ss : List String) : Prop :=
  ∀ front, front <+: ss → front.count ".." ≤ front.countP isName

instance (ss : List String) : Decidable (StaysBelow ss) :=
  decidable_of_iff (∀ front ∈ ss.inits, front.count ".." ≤ front.countP isName)
    (forall_congr' fun front => by rw [List.mem_inits])

/-- A relative path with no step up in its normal form. -/
structure IsInside (p : String) : Prop where
  relative : isAbsolute p = false
  up : ".." ∉ normalSteps false (steps p)

instance (p : String) : Decidable (IsInside p) :=
  decidable_of_iff (isAbsolute p = false ∧ ".." ∉ normalSteps false (steps p))
    ⟨fun ⟨hrelative, hup⟩ => ⟨hrelative, hup⟩, fun h => ⟨h.relative, h.up⟩⟩

/-- A name that a file can have inside any directory: what stands before its last slash never leads
above the directory. -/
structure IsConfined (name : String) : Prop where
  relative : isAbsolute name = false
  stays : StaysBelow (steps name).dropLast

instance (name : String) : Decidable (IsConfined name) :=
  decidable_of_iff (isAbsolute name = false ∧ StaysBelow (steps name).dropLast)
    ⟨fun ⟨hrelative, hstays⟩ => ⟨hrelative, hstays⟩, fun h => ⟨h.relative, h.stays⟩⟩

/-- A step stays where it is, or it leads down to a name, or up. -/
theorem step_cases (s : String) : (isStep s = false ∧ isName s = false ∧ s ≠ "..") ∨
    (isName s = true ∧ isStep s = true ∧ s ≠ "..") ∨ s = ".." := by
  by_cases hup : s = ".."
  · exact .inr (.inr hup)
  · cases hstep : isStep s with
    | false => exact .inl ⟨rfl, by simp [isName, hstep], hup⟩
    | true => exact .inr (.inl ⟨by simp [isName, hstep, hup], rfl, hup⟩)

theorem step_of_not_isStep {absolute : Bool} {s : String} (h : isStep s = false)
    (done : List String) : step absolute done s = done := by
  have hhere : s = "" ∨ s = "." := by simpa [isStep, Classical.or_iff_not_imp_left] using h
  simp [step, hhere]

theorem step_of_isName {absolute : Bool} {s : String} (h : isName s = true) (done : List String) :
    step absolute done s = s :: done := by
  simp only [isName, isStep, Bool.and_eq_true, decide_eq_true_eq, bne_iff_ne] at h
  simp [step, h.1.1, h.1.2, h.2]

/-- A step up that leads above the start is never taken back. -/
theorem up_mem_foldl_step {ss done : List String} (h : ".." ∈ done) :
    ".." ∈ ss.foldl (step false) done := by
  induction ss generalizing done with
  | nil => exact h
  | cons s ss ih =>
    refine ih ?_
    rcases step_cases s with ⟨hstep, -⟩ | ⟨hname, -⟩ | rfl
    · rwa [step_of_not_isStep hstep]
    · rw [step_of_isName hname]
      exact List.mem_cons_of_mem s h
    · cases done with
      | nil => cases h
      | cons last before =>
        by_cases hlast : last = ".."
        · simp [step, hlast]
        · have hbefore : ".." ∈ before := (List.mem_cons.1 h).resolve_left (Ne.symm hlast)
          simpa [step, hlast] using hbefore

/-- Behind steps down there is no step up in the normal form as long as the steps have not gone up
more often than all of them down. The induction is on the steps that are still to be taken. -/
theorem up_not_mem_foldl_step_iff {ss done : List String} (h : ".." ∉ done) :
    ".." ∉ ss.foldl (step false) done ↔
      ∀ front, front <+: ss → front.count ".." ≤ done.length + front.countP isName := by
  induction ss generalizing done with
  | nil => simp [h]
  | cons s ss ih =>
    have hprefix : ∀ n, (∀ front, front <+: s :: ss →
        front.count ".." ≤ n + front.countP isName) ↔
        ∀ front, front <+: ss → (s :: front).count ".." ≤ n + (s :: front).countP isName := by
      intro n
      simp only [List.prefix_cons_iff]
      constructor
      · exact fun hall front hfront => hall _ (.inr ⟨front, rfl, hfront⟩)
      · rintro hall _ (rfl | ⟨front, rfl, hfront⟩)
        · exact Nat.zero_le _
        · exact hall front hfront
    rw [List.foldl_cons, hprefix]
    simp only [List.count_cons, List.countP_cons]
    rcases step_cases s with ⟨hstep, hname, hup⟩ | ⟨hname, -, hup⟩ | rfl
    · rw [step_of_not_isStep hstep, ih h]
      simp [hname, hup]
    · have hdone : ".." ∉ s :: done := by simp [h, Ne.symm hup]
      rw [step_of_isName hname, ih hdone]
      refine forall_congr' fun front => imp_congr_right fun _ => ?_
      simp only [hname, hup, beq_iff_eq, if_true, if_false, List.length_cons]
      omega
    · have hnot : isName ".." = false := by decide
      cases done with
      | nil =>
        -- nothing is left to be taken back
        have hfold : ".." ∈ ss.foldl (step false) (step false [] "..") :=
          up_mem_foldl_step (by decide)
        refine iff_of_false (not_not.2 hfold) fun hall => ?_
        have hfirst := hall [] List.nil_prefix
        simp [hnot] at hfirst
      | cons last before =>
        obtain ⟨hlast, hbefore⟩ := not_or.1 fun hmem => h (List.mem_cons.2 hmem)
        have hback : step false (last :: before) ".." = before := by simp [step, Ne.symm hlast]
        rw [hback, ih hbefore]
        refine forall_congr' fun front => imp_congr_right fun _ => ?_
        simp only [hnot, beq_self_eq_true, if_true, Bool.false_eq_true, if_false, List.length_cons]
        omega

/-- The normal form of a way has a step up exactly if the way leads above its start. -/
theorem up_not_mem_normalSteps_iff {ss : List String} :
    ".." ∉ normalSteps false ss ↔ StaysBelow ss := by
  rw [normalSteps, List.mem_reverse, up_not_mem_foldl_step_iff (by simp)]
  simp [StaysBelow]

theorem staysBelow_concat {ss : List String} {s : String} (h : isName s = true) :
    StaysBelow (ss ++ [s]) ↔ StaysBelow ss := by
  constructor
  · exact fun hall front hfront => hall front (hfront.trans (List.prefix_append _ _))
  · intro hall front hfront
    rcases List.prefix_concat_iff.1 hfront with rfl | hfront
    · have hwhole := hall ss List.prefix_rfl
      rw [List.count_append, List.countP_append]
      have hup : s ≠ ".." := by
        rintro rfl
        exact absurd h (by decide)
      simp [h, hup]
      omega
    · exact hall front hfront

theorem isAbsolute_eq (p : String) : isAbsolute p = (p.toList.head? == some '/') := by
  cases hp : p.toList.head? == some '/' with
  | false => exact isAbsolute_of_head? (by simpa using hp)
  | true =>
    rw [isAbsolute, String.startsWith_eq_startsWith_toSlice, String.Slice.startsWith_string_iff,
      String.copy_toSlice]
    obtain ⟨rest, hrest⟩ := List.head?_eq_some_iff.1 (beq_iff_eq.1 hp)
    exact ⟨rest, hrest.symm⟩

/-- What stands behind the last slash goes on with what is put behind a path. -/
theorem exists_steps_append (p : String) {ending : String} (h : '/' ∉ ending.toList) :
    ∃ last, steps (p ++ ending) = (steps p).dropLast ++ [last ++ ending] := by
  have hsplit : ∀ cs : List Char, ∃ front last, Text.splitAt '/' cs = front ++ [last] ∧
      Text.splitAt '/' (cs ++ ending.toList) = front ++ [last ++ ending.toList] := by
    intro cs
    induction cs with
    | nil => exact ⟨[], [], rfl, Text.splitAt_of_not_mem h⟩
    | cons c cs ih =>
      obtain ⟨front, last, hcs, hend⟩ := ih
      rw [List.cons_append, Text.splitAt, Text.splitAt, hcs, hend]
      split
      · exact ⟨[] :: front, last, rfl, rfl⟩
      · cases front with
        | nil => exact ⟨[], c :: last, rfl, rfl⟩
        | cons piece front => exact ⟨(c :: piece) :: front, last, rfl, rfl⟩
  obtain ⟨front, last, hp, hend⟩ := hsplit p.toList
  refine ⟨String.ofList last, ?_⟩
  rw [steps, steps, Text.splitString, Text.splitString, String.toList_append, hp, hend]
  simp [String.ofList_append]

/-- With an ending a name makes a path inside exactly if it is confined. -/
theorem isInside_append_iff {name ending : String} (hslash : '/' ∉ ending.toList)
    (hending : ∃ c ∈ ending.toList, c ≠ '.') : IsInside (name ++ ending) ↔ IsConfined name := by
  obtain ⟨c, hc, hdot⟩ := hending
  obtain ⟨last, hsteps⟩ := exists_steps_append name hslash
  have hname : isName (last ++ ending) = true := by
    have hne : ∀ t : String, c ∉ t.toList → last ++ ending ≠ t := by
      rintro t ht rfl
      exact ht (by simp [hc])
    simp [isName, isStep, hne "" (by simp), hne "." (by simpa using hdot),
      hne ".." (by simpa using hdot)]
  have habsolute : isAbsolute (name ++ ending) = isAbsolute name := by
    rw [isAbsolute_eq, isAbsolute_eq, String.toList_append]
    cases hlist : name.toList with
    | cons d ds => rfl
    | nil =>
      have hhead : ending.toList.head? ≠ some '/' := fun hmem =>
        hslash (List.mem_of_mem_head? hmem)
      simpa using hhead
  have hup : ".." ∉ normalSteps false (steps (name ++ ending)) ↔
      StaysBelow (steps name).dropLast := by
    rw [up_not_mem_normalSteps_iff, hsteps, staysBelow_concat hname]
  constructor
  · rintro ⟨hrelative, hinside⟩
    exact ⟨habsolute ▸ hrelative, hup.1 hinside⟩
  · rintro ⟨hrelative, hstays⟩
    exact ⟨habsolute ▸ hrelative, hup.2 hstays⟩

/-- From any place a way that stays below it leads where its normal form leads. -/
theorem foldl_next_of_stays {place ss done : List String} (hss : ∀ s ∈ ss, isStep s = true)
    (h : ".." ∉ done) (hend : ".." ∉ ss.foldl (step false) done) :
    ss.foldl next (place ++ done.reverse) = place ++ (ss.foldl (step false) done).reverse := by
  induction ss generalizing done with
  | nil => rfl
  | cons s ss ih =>
    obtain ⟨hs, hss⟩ := List.forall_mem_cons.1 hss
    rw [List.foldl_cons] at hend
    have hdone : ".." ∉ step false done s := fun hmem => hend (up_mem_foldl_step hmem)
    have hnext : next (place ++ done.reverse) s = place ++ (step false done s).reverse := by
      rcases step_cases s with ⟨hstep, -⟩ | ⟨hname, -, hup⟩ | rfl
      · rw [hs] at hstep
        cases hstep
      · rw [step_of_isName hname, next, if_neg hup, List.reverse_cons, List.append_assoc]
      · cases done with
        | nil => exact absurd hdone (by decide)
        | cons last before =>
          have hlast : last ≠ ".." := fun heq => h (by simp [heq])
          simp [next, step, hlast, ← List.append_assoc]
    rw [List.foldl_cons, List.foldl_cons, hnext, ih hss hdone hend]

/-- Below a directory a path inside names a place below that of the directory. -/
theorem IsInside.place_below {p : String} (h : IsInside p) (root : Location)
    (current : List String) :
    (root.below p).place current = root.place current ++ normalSteps false (steps p) := by
  have hlead : (ofPath p).lead = "" := by
    rw [ofPath, Path.lead, h.relative]
    rfl
  have hfold : (ofPath p).steps.foldl (step false) [] = (steps p).foldl (step false) [] :=
    foldl_step_filter false (steps p) []
  have hup := h.up
  rw [normalSteps, List.mem_reverse, ← hfold] at hup
  have hplace := @foldl_next_of_stays (root.place current) (ofPath p).steps []
    (fun s hs => (isPlainStep_of_mem_ofPath hs).step) (by simp) hup
  rw [List.reverse_nil, List.append_nil, hfold] at hplace
  rw [below, if_pos hlead]
  show (root.steps ++ (ofPath p).steps).foldl next (root.start current) = _
  rw [List.foldl_append]
  exact hplace

theorem intercalate_steps (p : String) : "/".intercalate (steps p) = p := by
  have hslash : "/".toList = ['/'] := by decide
  rw [← String.toList_inj, String.toList_intercalate, hslash, steps, Text.splitString,
    Text.splitAt_eq_splitOn, List.map_map]
  have hid : (String.toList ∘ String.ofList) = id := funext fun _ => String.toList_ofList
  rw [hid, List.map_id, List.intercalate_splitOn]

theorem steps_injective {p q : String} (h : steps p = steps q) : p = q := by
  rw [← intercalate_steps p, h, intercalate_steps]

theorem steps_ne_nil (p : String) : steps p ≠ [] := by
  rw [steps, Text.splitString, Text.splitAt_eq_splitOn, Ne, List.map_eq_nil_iff]
  exact List.splitOnP_ne_nil _ _

theorem ofPath_of_isDown {p : String} (h : IsDown (steps p)) :
    Location.ofPath p = ⟨"", steps p⟩ := by
  have hofPath := Location.ofPath_intercalate (steps_ne_nil p) h.plain
  rwa [intercalate_steps] at hofPath

/-- Steps that stay below the place that they start from lead there from any place. -/
theorem foldl_step_append {absolute : Bool} {ss done : List String} (outer : List String)
    (h : ".." ∉ ss.foldl (step false) done) :
    ss.foldl (step absolute) (done ++ outer) = ss.foldl (step false) done ++ outer := by
  induction ss generalizing done with
  | nil => rfl
  | cons s ss ih =>
    rw [List.foldl_cons] at h
    have hdone : ".." ∉ step false done s := fun hmem => h (up_mem_foldl_step hmem)
    have hstep : step absolute (done ++ outer) s = step false done s ++ outer := by
      rcases step_cases s with ⟨hstay, -⟩ | ⟨hname, -⟩ | rfl
      · rw [step_of_not_isStep hstay, step_of_not_isStep hstay]
      · rw [step_of_isName hname, step_of_isName hname, List.cons_append]
      · cases done with
        | nil => exact absurd hdone (by decide)
        | cons last before =>
          have hlast : last ≠ ".." := by
            rintro rfl
            exact hdone (by simp [step])
          simp [step, hlast]
    rw [List.foldl_cons, List.foldl_cons, hstep, ih h]

/-- At the root nothing leads further up. -/
theorem up_not_mem_foldl_step {ss done : List String} (h : ".." ∉ done) :
    ".." ∉ ss.foldl (step true) done := by
  induction ss generalizing done with
  | nil => exact h
  | cons s ss ih =>
    refine ih ?_
    rcases step_cases s with ⟨hstay, -⟩ | ⟨hname, -, hup⟩ | rfl
    · rwa [step_of_not_isStep hstay]
    · rw [step_of_isName hname]
      simp [h, Ne.symm hup]
    · cases done with
      | nil => decide
      | cons last before =>
        obtain ⟨hlast, hbefore⟩ := not_or.1 fun hmem => h (List.mem_cons.2 hmem)
        simpa [step, Ne.symm hlast] using hbefore

/-- Steps up that are never taken back come before all others. -/
theorem getLast?_foldl_step {ss done : List String}
    (hdone : ".." ∈ done → done.getLast? = some "..") (h : ".." ∈ ss.foldl (step false) done) :
    (ss.foldl (step false) done).getLast? = some ".." := by
  induction ss generalizing done with
  | nil => exact hdone h
  | cons s ss ih =>
    refine ih ?_ h
    rcases step_cases s with ⟨hstay, -⟩ | ⟨hname, -, hup⟩ | rfl
    · rwa [step_of_not_isStep hstay]
    · rw [step_of_isName hname]
      intro hmem
      have hrest := (List.mem_cons.1 hmem).resolve_left (Ne.symm hup)
      cases done with
      | nil => cases hrest
      | cons last before =>
        rw [List.getLast?_cons_cons]
        exact hdone hrest
    · cases done with
      | nil => exact fun _ => rfl
      | cons last before => cases before <;> by_cases hlast : last = ".." <;> simp_all [step]

theorem mem_foldl_step {absolute : Bool} {ss done : List String} {s : String}
    (h : s ∈ ss.foldl (step absolute) done) : s ∈ ss ∨ s ∈ done := by
  induction ss generalizing done with
  | nil => exact .inr h
  | cons t ss ih =>
    have hstep : ∀ u ∈ step absolute done t, u = t ∨ u ∈ done := by
      intro u hu
      rcases step_cases t with ⟨hstay, -⟩ | ⟨hname, -⟩ | rfl
      · rw [step_of_not_isStep hstay] at hu
        exact .inr hu
      · rw [step_of_isName hname] at hu
        exact List.mem_cons.1 hu
      · cases done with
        | nil => cases absolute <;> simp_all [step]
        | cons last before => by_cases hlast : last = ".." <;> simp_all [step]
    rcases ih h with hs | hs
    · exact .inl (List.mem_cons_of_mem t hs)
    · refine (hstep s hs).imp (fun heq => ?_) id
      rw [heq]
      exact List.mem_cons_self

theorem mem_of_mem_steps {p s : String} {c : Char} (h : s ∈ steps p) (hc : c ∈ s.toList) :
    c ∈ p.toList := by
  obtain ⟨piece, hpiece, rfl⟩ := List.mem_map.1 h
  exact Text.mem_of_mem_splitAt hpiece (by simpa using hc)

theorem mem_rooted {p s : String} (h : s ∈ rooted p) : s ∈ base ∨ s ∈ steps p := by
  rw [rooted, normalSteps, List.mem_reverse] at h
  have hmem := (mem_foldl_step h).resolve_right (by simp)
  split at hmem
  · exact .inr hmem
  · exact List.mem_append.1 hmem

section
variable {p q : String}

/-- The steps of the normal form of a path. -/
def way (p : String) : List String := normalSteps (isAbsolute p) (steps p)

theorem way_eq (p : String) : way p = normalSteps (isAbsolute p) (ofPath p).steps := by
  rw [way, normalSteps, normalSteps, ofPath, foldl_step_filter]

theorem isPlainStep_of_mem_way {s : String} (h : s ∈ way p) : IsPlainStep s := by
  rw [way_eq, normalSteps, List.mem_reverse] at h
  exact isPlainStep_of_mem_ofPath ((mem_foldl_step h).resolve_right (by simp))

theorem isDown_way (h : ".." ∉ way p) : IsDown (way p) :=
  ⟨fun _ => isPlainStep_of_mem_way, h⟩

/-- A way that leads above its start starts with a step up, and not at the root. -/
theorem head?_way (h : ".." ∈ way p) : isAbsolute p = false ∧ (way p).head? = some ".." := by
  cases habs : isAbsolute p with
  | true =>
    rw [way, habs, normalSteps, List.mem_reverse] at h
    exact absurd h (up_not_mem_foldl_step (by simp))
  | false =>
    rw [way, habs, normalSteps] at h ⊢
    rw [List.head?_reverse]
    exact ⟨rfl, getLast?_foldl_step (by simp) (List.mem_reverse.1 h)⟩

/-- With more steps behind a path its way goes on from where it leads. -/
theorem way_of_steps {r : String} {ss : List String} (habs : isAbsolute r = isAbsolute p)
    (hsteps : (ofPath r).steps = (ofPath p).steps ++ ss) :
    way r = (ss.foldl (step (isAbsolute p)) (way p).reverse).reverse := by
  rw [way_eq, hsteps, habs, normalSteps, List.foldl_append, way_eq p, normalSteps,
    List.reverse_reverse]

/-- A path that starts, if at the root, with one slash only. -/
def IsSingle (p : String) : Prop := ¬ ['/', '/'] <+: p.toList

theorem startsWith_iff {t : String} : p.startsWith t = true ↔ t.toList <+: p.toList := by
  rw [String.startsWith_eq_startsWith_toSlice, String.Slice.startsWith_string_iff,
    String.copy_toSlice]

theorem endsWith_iff {t : String} : p.endsWith t = true ↔ t.toList <:+ p.toList := by
  rw [String.endsWith_eq_endsWith_toSlice, String.Slice.endsWith_string_iff,
    String.copy_toSlice]

theorem isSingle_iff : IsSingle p ↔ p.startsWith "//" = false := by
  rw [IsSingle, ← Bool.not_eq_true, startsWith_iff]
  rfl

theorem isSingle_of_relative (h : isAbsolute p = false) : IsSingle p := by
  rintro ⟨rest, hrest⟩
  rw [isAbsolute_eq, ← hrest] at h
  cases h

theorem isAbsolute_empty : isAbsolute "" = false := isAbsolute_of_head? (by decide)

theorem isAbsolute_slash (p : String) : isAbsolute ("/" ++ p) = true := by
  simp [isAbsolute_eq]

theorem isSingle_slash (h : isAbsolute p = false) : IsSingle ("/" ++ p) := by
  rintro ⟨rest, hrest⟩
  rw [String.toList_append] at hrest
  have htail : '/' :: rest = p.toList := (List.cons.inj hrest).2
  rw [isAbsolute_eq, ← htail] at h
  cases h

theorem isAbsolute_append (hp : p ≠ "") (t : String) : isAbsolute (p ++ t) = isAbsolute p := by
  have hlist : p.toList ≠ [] := fun hnil => hp (String.toList_inj.1 hnil)
  rw [isAbsolute_eq, isAbsolute_eq, String.toList_append, List.head?_append_of_ne_nil _ hlist]

theorem IsSingle.append {t : String} (h : IsSingle p) (hp : p ≠ "")
    (ht : p = "/" → isAbsolute t = false) : IsSingle (p ++ t) := by
  rintro ⟨rest, hrest⟩
  rw [String.toList_append] at hrest
  match hlist : p.toList with
  | [] => exact hp (String.toList_inj.1 hlist)
  | [c] =>
    simp only [hlist, List.cons_append, List.nil_append, List.cons.injEq] at hrest
    have hslash : p = "/" := String.toList_inj.1 (by rw [hlist, ← hrest.1]; rfl)
    have hrelative := ht hslash
    rw [isAbsolute_eq, ← hrest.2] at hrelative
    cases hrelative
  | c :: d :: cs =>
    simp only [hlist, List.cons_append, List.nil_append, List.cons.injEq] at hrest
    exact h ⟨cs, by rw [hlist, ← hrest.1, ← hrest.2.1]; rfl⟩

theorem lead_of_isSingle (h : IsSingle p) : lead p = if isAbsolute p then "/" else "" := by
  cases habs : isAbsolute p <;> simp [lead, habs, isSingle_iff.1 h]

theorem isAbsolute_of_lead (h : (ofPath p).lead = "") : isAbsolute p = false := by
  cases habs : isAbsolute p with
  | false => rfl
  | true =>
    rw [ofPath, lead, habs, if_neg (by decide)] at h
    dsimp only at h
    split at h <;> exact absurd h (by decide)

theorem isAbsolute_text {l : Location} (h : l.IsPlain) : isAbsolute l.text = false :=
  isAbsolute_of_lead (by rw [ofPath_text h, h.lead])

theorem ofPath_intercalate_of_plain {ss : List String} (h : ∀ s ∈ ss, IsPlainStep s) :
    ofPath ("/".intercalate ss) = ⟨"", ss⟩ := by
  by_cases hne : ss = []
  · rw [hne, String.intercalate_nil, ofPath, lead, isAbsolute_empty]
    decide
  · exact ofPath_intercalate hne h

theorem steps_ofPath_empty : (ofPath "").steps = [] := by decide

theorem steps_ofPath_slash (p q : String) :
    (ofPath (p ++ "/" ++ q)).steps = (ofPath p).steps ++ (ofPath q).steps := by
  rw [ofPath, steps_append_slash, List.filter_append]
  rfl

theorem normal_ne (p : String) : normal p ≠ "" := by
  rw [normal]
  split
  · decide
  · assumption

theorem normal_of_relative (h : isAbsolute p = false) : normal p = text ⟨"", way p⟩ := by
  have hlead := lead_of_isSingle (isSingle_of_relative h)
  rw [h, if_neg Bool.false_ne_true] at hlead
  rw [normal, hlead]
  rfl

theorem normal_of_absolute (hp : IsSingle p) (h : isAbsolute p = true) :
    normal p = "" ++ "/" ++ "/".intercalate (way p) := by
  have hlead := lead_of_isSingle hp
  rw [h, if_pos rfl] at hlead
  rw [normal, hlead, ← way]
  simp

/-- The normal form of a path goes the way of the path, from the same start. -/
theorem normal_spec (h : IsSingle p) : isAbsolute (normal p) = isAbsolute p ∧
    IsSingle (normal p) ∧ (ofPath (normal p)).steps = way p := by
  have hplain : ∀ s ∈ way p, IsPlainStep s := fun s => isPlainStep_of_mem_way
  cases habs : isAbsolute p with
  | true =>
    have hback := ofPath_intercalate_of_plain hplain
    have hrelative : isAbsolute ("/".intercalate (way p)) = false :=
      isAbsolute_of_lead (by rw [hback])
    rw [normal_of_absolute h habs, steps_ofPath_slash, hback, String.empty_append]
    exact ⟨isAbsolute_slash _, isSingle_slash hrelative, rfl⟩
  | false =>
    have htext : IsPlain ⟨"", way p⟩ := ⟨rfl, hplain⟩
    have hrelative := isAbsolute_text htext
    rw [normal_of_relative habs, ofPath_text htext]
    exact ⟨hrelative, isSingle_of_relative hrelative, rfl⟩

/-- The last step of a normal form is the last step of the way. -/
theorem getLast?_steps_normal (h : IsSingle p) (hne : way p ≠ []) :
    (steps (normal p)).getLast? = (way p).getLast? := by
  have hplain : ∀ s ∈ way p, IsPlainStep s := fun s => isPlainStep_of_mem_way
  cases habs : isAbsolute p with
  | true =>
    rw [normal_of_absolute h habs, steps_append_slash,
      List.getLast?_append_of_ne_nil _ (steps_ne_nil _), ← text_of_ne_nil hne hplain,
      getLast?_steps_text hne hplain]
  | false => rw [normal_of_relative habs, getLast?_steps_text hne hplain]

theorem way_normal (h : IsSingle p) (hup : ".." ∉ way p) : way (normal p) = way p := by
  obtain ⟨-, -, hsteps⟩ := normal_spec h
  rw [way_eq, hsteps, normalSteps, foldl_step hup, List.append_nil, List.reverse_reverse,
    filter_isStep (isDown_way hup).plain]

/-- The start and the way of a path make up its normal form. -/
theorem normal_congr (hp : IsSingle p) (hq : IsSingle q) (habs : isAbsolute p = isAbsolute q)
    (hway : way p = way q) : normal p = normal q := by
  rw [way, way] at hway
  rw [normal, normal, hway, lead_of_isSingle hp, lead_of_isSingle hq, habs]

/-- What a relative path is put behind when it is joined to a path, up to the slash between. -/
theorem join_cases (p : String) (hq : isAbsolute q = false) : (p = "" ∧ join p q = q) ∨
    (p ≠ "" ∧ ∃ front ending, join p q = front ++ "/" ++ q ∧ join p q = p ++ ending ∧
      (ofPath front).steps = (ofPath p).steps ∧ (p = "/" → isAbsolute ending = false)) := by
  rw [join, hq, if_neg Bool.false_ne_true]
  by_cases hp : p = ""
  · exact .inl ⟨hp, by simp [hp]⟩
  refine .inr ⟨hp, ?_⟩
  by_cases hend : p.endsWith "/" = true
  · obtain ⟨front, hfront⟩ := endsWith_iff.1 hend
    have hcut : p = String.ofList front ++ "/" ++ "" :=
      String.toList_inj.1 (by simpa using hfront.symm)
    have hsteps : (ofPath (String.ofList front)).steps = (ofPath p).steps := by
      rw [hcut, steps_ofPath_slash, steps_ofPath_empty, List.append_nil]
    rw [if_pos (by simp [hend])]
    refine ⟨String.ofList front, q, ?_, rfl, hsteps, fun _ => hq⟩
    rw [hcut, String.append_empty]
  · have hslash : p ≠ "/" := by
      rintro rfl
      exact hend (endsWith_iff.2 List.suffix_rfl)
    rw [if_neg (by simp [hp, hend])]
    exact ⟨p, "/" ++ q, rfl, String.append_assoc, rfl, fun hroot => absurd hroot hslash⟩

/-- A relative path joined to a path goes on from where that leads. -/
theorem join_spec (p : String) (hq : isAbsolute q = false) : isAbsolute (join p q) = isAbsolute p ∧
    (IsSingle p → IsSingle (join p q)) ∧
    (ofPath (join p q)).steps = (ofPath p).steps ++ (ofPath q).steps ∧
    (steps (join p q)).getLast? = (steps q).getLast? := by
  rcases join_cases p hq with ⟨rfl, hjoin⟩ | ⟨hp, front, ending, hfront, hending, hsteps, hroot⟩
  · rw [hjoin, hq, steps_ofPath_empty, isAbsolute_empty]
    exact ⟨rfl, fun _ => isSingle_of_relative hq, rfl, rfl⟩
  · refine ⟨?_, fun h => ?_, ?_, ?_⟩
    · rw [hending, isAbsolute_append hp]
    · rw [hending]
      exact h.append hp hroot
    · rw [hfront, steps_ofPath_slash, hsteps]
    · rw [hfront, steps_append_slash, List.getLast?_append_of_ne_nil _ (steps_ne_nil q)]

theorem way_join (p : String) (hq : isAbsolute q = false) (hup : ".." ∉ steps q) :
    way (join p q) = way p ++ (ofPath q).steps := by
  obtain ⟨habs, -, hsteps, -⟩ := join_spec p hq
  have hplain : (ofPath q).steps.filter isStep = (ofPath q).steps :=
    filter_isStep fun s => isPlainStep_of_mem_ofPath
  have hnone : ".." ∉ (ofPath q).steps := fun hmem => hup (List.mem_of_mem_filter hmem)
  rw [way_of_steps habs hsteps, foldl_step hnone, hplain, List.reverse_append,
    List.reverse_reverse, List.reverse_reverse]

theorem up_not_mem_way_join (hp : ".." ∉ way p) (hq : isAbsolute q = false)
    (hup : ".." ∉ steps q) : ".." ∉ way (join p q) := by
  rw [way_join p hq hup, List.mem_append, not_or]
  exact ⟨hp, fun hmem => hup (List.mem_of_mem_filter hmem)⟩

/-- As many slashes as given. -/
def slashes (n : Nat) : String := String.ofList (List.replicate n '/')

theorem steps_ofPath_slashes (p : String) (n : Nat) :
    (ofPath (p ++ slashes n)).steps = (ofPath p).steps := by
  induction n with
  | zero => rw [slashes, List.replicate_zero, String.ofList_nil, String.append_empty]
  | succ n ih =>
    have hlast : p ++ slashes (n + 1) = p ++ slashes n ++ "/" ++ "" := by
      rw [← String.toList_inj]
      simp [slashes, List.replicate_succ']
    rw [hlast, steps_ofPath_slash, steps_ofPath_empty, List.append_nil, ih]

theorem steps_of_not_mem (h : '/' ∉ p.toList) : steps p = [p] := by
  rw [steps, Text.splitString, Text.splitAt_of_not_mem h, List.map_singleton, String.ofList_toList]

theorem directory_prefix (p : String) : (directory p).toList <+: p.toList := by
  rw [directory, String.toList_ofList, ← List.reverse_suffix, List.reverse_reverse]
  have hhead := List.dropWhile_suffix (fun c => decide (c ≠ '/')) (l := p.toList.reverse)
  split
  · exact hhead
  · exact (List.dropWhile_suffix _).trans hhead

theorem directory_of_not_mem (h : '/' ∉ p.toList) : directory p = "" := by
  have hall : p.toList.reverse.dropWhile (· ≠ '/') = [] := by
    rw [← List.append_nil p.toList.reverse, List.dropWhile_append_of_pos, List.dropWhile_nil]
    exact fun c hc => by simpa using ne_of_mem_of_not_mem (List.mem_reverse.1 hc) h
  simp only [directory, hall]
  rfl

/-- Slashes and the last step are what is cut off a path that has a directory. -/
theorem exists_directory (h : '/' ∈ p.toList) : directory p ≠ "" ∧
    ∃ front last m n, p = front ++ "/" ++ last ∧ '/' ∉ last.toList ∧
      directory p ++ slashes m = front ++ slashes n := by
  obtain ⟨last, front, hback, hlast⟩ := List.eq_append_cons_of_mem (List.mem_reverse.2 h)
  have hhead : p.toList.reverse.dropWhile (· ≠ '/') = '/' :: front := by
    rw [hback, List.dropWhile_append_of_pos, List.dropWhile_cons_of_neg (by decide)]
    exact fun c hc => by simpa using ne_of_mem_of_not_mem hc hlast
  have hp : p = String.ofList front.reverse ++ "/" ++ String.ofList last.reverse := by
    rw [← String.toList_inj, ← List.reverse_inj, hback]
    simp
  have hslash : '/' ∉ (String.ofList last.reverse).toList := by simpa using hlast
  have hcut : ('/' :: front).dropWhile (· = '/') = front.dropWhile (· = '/') :=
    List.dropWhile_cons_of_pos (by decide)
  simp only [directory, hhead, hcut]
  by_cases hfront : (front.dropWhile (· = '/')) = []
  · -- nothing but slashes stands before the last step
    rw [hfront, List.isEmpty_nil, if_pos rfl]
    refine ⟨?_, _, _, 0, 1, hp, hslash, ?_⟩
    · rw [Ne, ← String.toList_inj]
      simp
    · rw [← String.toList_inj]
      simp [slashes]
  · rw [if_neg (by simpa using hfront)]
    refine ⟨?_, _, _, (front.takeWhile (· = '/')).length, 0, hp, hslash, ?_⟩
    · rw [Ne, ← String.toList_inj]
      simpa using hfront
    · have hslashes : front.takeWhile (· = '/') =
          List.replicate (front.takeWhile (· = '/')).length '/' :=
        List.eq_replicate_iff.2 ⟨rfl, fun c hc => by
          simpa using List.all_eq_true.1 List.all_takeWhile c hc⟩
      rw [← String.toList_inj, ← List.reverse_inj]
      simp only [slashes, String.toList_append, String.toList_ofList, List.reverse_append,
        List.reverse_reverse, List.reverse_replicate, List.replicate_zero]
      rw [← hslashes, List.takeWhile_append_dropWhile]
      rfl

/-- The directory of a path stops before the last step. -/
theorem directory_spec (p : String) : isAbsolute (directory p) = isAbsolute p ∧
    (IsSingle p → IsSingle (directory p)) ∧
    (ofPath (directory p)).steps = (steps p).dropLast.filter isStep := by
  have hprefix := directory_prefix p
  have hsingle : IsSingle p → IsSingle (directory p) := fun h hslashes =>
    h (hslashes.trans hprefix)
  by_cases hslash : '/' ∈ p.toList
  · obtain ⟨hsome, front, last, m, n, hp, hlast, hdirectory⟩ := exists_directory hslash
    refine ⟨?_, hsingle, ?_⟩
    · obtain ⟨rest, hrest⟩ := hprefix
      have happend : p = directory p ++ String.ofList rest :=
        String.toList_inj.1 (by simpa using hrest.symm)
      conv_rhs => rw [happend]
      exact (isAbsolute_append hsome _).symm
    · rw [← steps_ofPath_slashes _ m, hdirectory, steps_ofPath_slashes]
      conv_rhs => rw [hp, steps_append_slash, steps_of_not_mem hlast, List.dropLast_concat]
      rfl
  · have hhead : p.toList.head? ≠ some '/' := fun hmem => hslash (List.mem_of_mem_head? hmem)
    refine ⟨?_, hsingle, ?_⟩
    · rw [directory_of_not_mem hslash, isAbsolute_of_head? hhead, isAbsolute_empty]
    · rw [directory_of_not_mem hslash, steps_of_not_mem hslash, steps_ofPath_empty]
      rfl

/-- The directory of a path that ends with a name leads to where the path leads but for the name. -/
theorem way_directory {name : String} (hlast : (steps p).getLast? = some name)
    (hname : isName name = true) : way (directory p) = (way p).dropLast := by
  obtain ⟨habs, -, hsteps⟩ := directory_spec p
  obtain ⟨front, hfront⟩ := List.getLast?_eq_some_iff.1 hlast
  rw [way_eq, habs, hsteps, way, hfront, List.dropLast_concat, normalSteps, foldl_step_filter,
    normalSteps, List.foldl_append, List.foldl_cons, List.foldl_nil, step_of_isName hname,
    List.reverse_cons, List.dropLast_concat]

theorem way_directory_normal (hp : IsSingle p) (hup : ".." ∉ way p) :
    way (directory (normal p)) = (way p).dropLast := by
  rcases List.eq_nil_or_concat' (way p) with hnil | ⟨front, name, hway⟩
  · obtain ⟨-, -, hsteps⟩ := normal_spec hp
    obtain ⟨-, -, hdirectory⟩ := directory_spec (normal p)
    have hnothing : (steps (normal p)).filter isStep = [] := hsteps.trans hnil
    have hnone : (ofPath (directory (normal p))).steps = [] := by
      rw [hdirectory, List.filter_eq_nil_iff]
      exact fun s hs => List.filter_eq_nil_iff.1 hnothing s (List.mem_of_mem_dropLast hs)
    rw [way_eq, hnone, hnil]
    rfl
  · have hlast : (steps (normal p)).getLast? = some name := by
      rw [getLast?_steps_normal hp (by simp [hway]), hway, List.getLast?_concat]
    have hdown : IsDown (front ++ [name]) := hway ▸ isDown_way hup
    have hname : isName name = true := by
      have hne : name ≠ ".." := by
        rintro rfl
        exact hdown.up (by simp)
      simp [isName, (isPlainStep_concat hdown).step, hne]
    rw [way_directory hlast hname, way_normal hp hup]

/-- `rooted` for a tool that runs in a given directory. -/
def rootedFrom (working : List String) (p : String) : List String :=
  normalSteps true (if isAbsolute p then steps p else working ++ steps p)

/-- `relative?` for a tool that runs in a given directory. -/
def relativeFrom? (working : List String) (target start : String) : Option String :=
  if target = "" then none
  else
    let ss := between (rootedFrom working start) (rootedFrom working target)
    some (if ss.isEmpty then "." else "/".intercalate ss)

theorem rootedFrom_eq (working : List String) (hup : ".." ∉ way p) :
    rootedFrom working p = (if isAbsolute p then [] else normalSteps true working) ++ way p := by
  cases habs : isAbsolute p with
  | true => simp [rootedFrom, habs, way]
  | false =>
    rw [way, habs, normalSteps, List.mem_reverse] at hup
    have hfold := @foldl_step_append true (steps p) [] (working.foldl (step true) []) hup
    rw [List.nil_append] at hfold
    rw [rootedFrom, habs, if_neg Bool.false_ne_true, normalSteps, List.foldl_append, hfold,
      List.reverse_append, if_neg Bool.false_ne_true, normalSteps, way, habs, normalSteps]

/-- Between paths that start at one place the way is the same wherever that place is. -/
theorem relativeFrom?_eq (working : List String) (hne : q ≠ "")
    (habs : isAbsolute p = isAbsolute q) (hp : ".." ∉ way p) (hq : ".." ∉ way q) :
    relativeFrom? working q p = some (text ⟨"", between (way p) (way q)⟩) := by
  rw [relativeFrom?, if_neg hne, rootedFrom_eq working hp, rootedFrom_eq working hq, habs,
    between_append]
  by_cases hway : between (way p) (way q) = []
  · simp only [hway]
    decide +kernel
  · have hplain := @isPlainStep_of_mem_between (way p) _ (isDown_way hq).plain
    simp [hway, text_of_ne_nil hway hplain]

end

end Path

namespace Location
variable {ss : List String} {l : Location}

theorem foldl_next_of_isDown {place : List String} (h : Path.IsDown ss) :
    ss.foldl next place = place ++ ss := by
  induction ss generalizing place with
  | nil => simp
  | cons s ss ih =>
    have hs : s ≠ ".." := fun hs => h.up (hs ▸ List.mem_cons_self)
    obtain ⟨-, hss⟩ := Path.isDown_append.1 (show Path.IsDown ([s] ++ ss) from h)
    rw [List.foldl_cons, ih hss, next, if_neg hs, List.append_assoc, List.singleton_append]

theorem passedFrom_append (place ss ts : List String) :
    passedFrom place (ss ++ ts) = passedFrom place ss ++ passedFrom (ss.foldl next place) ts := by
  induction ss generalizing place with
  | nil => rfl
  | cons s ss ih => simp only [List.cons_append, passedFrom, ih, List.foldl_cons]

/-- Steps down pass the places of what stands before them. -/
theorem mem_passedFrom_of_isDown {place : List String} (h : Path.IsDown ss) {q : List String} :
    q ∈ passedFrom place ss ↔ ∃ front s back, ss = front ++ s :: back ∧ q = place ++ front := by
  induction ss generalizing place with
  | nil => simp [passedFrom]
  | cons s ss ih =>
    have hs : s ≠ ".." := fun hs => h.up (hs ▸ List.mem_cons_self)
    obtain ⟨-, hss⟩ := Path.isDown_append.1 (show Path.IsDown ([s] ++ ss) from h)
    have hnext : next place s = place ++ [s] := if_neg hs
    rw [passedFrom, List.mem_cons, hnext, ih hss]
    constructor
    · rintro (rfl | ⟨front, t, back, rfl, rfl⟩)
      · exact ⟨[], s, ss, rfl, (List.append_nil _).symm⟩
      · exact ⟨s :: front, t, back, rfl, by simp⟩
    · rintro ⟨_ | ⟨t, front⟩, u, back, hsplit, rfl⟩
      · exact .inl (List.append_nil _)
      · obtain ⟨rfl, rfl⟩ := List.cons.inj hsplit
        exact .inr ⟨front, u, back, rfl, by simp⟩

/-- Below a location steps down lead to the places below its place. -/
theorem place_append (current : List String) (h : Path.IsDown ss) :
    place current ⟨l.lead, l.steps ++ ss⟩ = l.place current ++ ss := by
  show (l.steps ++ ss).foldl next (l.start current) = _
  rw [List.foldl_append, foldl_next_of_isDown h]
  rfl

theorem mem_passed_append {current : List String} (h : Path.IsDown ss) {q : List String} :
    q ∈ passed current ⟨l.lead, l.steps ++ ss⟩ ↔ q ∈ l.passed current ∨
      ∃ front s back, ss = front ++ s :: back ∧ q = l.place current ++ front := by
  show q ∈ passedFrom (l.start current) (l.steps ++ ss) ↔ _
  rw [passedFrom_append, List.mem_append, mem_passedFrom_of_isDown h]
  rfl

end Location

end ApiScribe
