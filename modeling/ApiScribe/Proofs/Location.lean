import Mathlib.Data.List.Basic
import ApiScribe.Location

/-! Plain locations: below no root, with steps that are neither empty nor points. A plain location
is read back from its text, and a path that is the text of its location is normal. -/
namespace ApiScribe
namespace Text

theorem splitAt_eq_splitOn (sep : Char) (cs : List Char) : splitAt sep cs = cs.splitOn sep := by
  induction cs with
  | nil => simp [splitAt]
  | cons c cs ih =>
    rw [splitAt, ih, List.splitOn_eq_splitOnP, List.splitOn_eq_splitOnP,
      List.splitOnP_cons_eq_if_modifyHead]
    by_cases hc : c = sep
    · simp [hc]
    · simp only [hc, if_false, beq_iff_eq]
      cases hsplit : cs.splitOnP (· == sep) with
      | nil => exact absurd hsplit (List.splitOnP_ne_nil _ _)
      | cons piece pieces => rfl

theorem not_mem_of_mem_splitAt {sep : Char} {cs piece : List Char} (h : piece ∈ splitAt sep cs) :
    sep ∉ piece := by
  induction cs generalizing piece with
  | nil => simp_all [splitAt]
  | cons c cs ih =>
    unfold splitAt at h
    split at h
    · rcases List.mem_cons.1 h with rfl | h
      · simp
      · exact ih h
    · next hc =>
      split at h
      · simp [List.mem_singleton.1 h, Ne.symm hc]
      · next first rest hsplit =>
        rcases List.mem_cons.1 h with rfl | h
        · rw [List.mem_cons, not_or]
          exact ⟨Ne.symm hc, ih (by rw [hsplit]; exact List.mem_cons_self)⟩
        · exact ih (by rw [hsplit]; exact List.mem_cons_of_mem first h)

/-- A separator splits what stands before it from what stands behind it. -/
theorem splitAt_append_cons (sep : Char) (as bs : List Char) :
    splitAt sep (as ++ sep :: bs) = splitAt sep as ++ splitAt sep bs := by
  induction as with
  | nil => simp [splitAt]
  | cons c as ih =>
    by_cases hc : c = sep
    · simp [splitAt, hc, ih]
    · simp only [List.cons_append, splitAt, hc, if_false, ih]
      cases hsplit : splitAt sep as with
      | nil => exact absurd hsplit (by rw [splitAt_eq_splitOn]; exact List.splitOnP_ne_nil _ _)
      | cons piece pieces => rfl

/-- Pieces without the separator are what their joined text is split into. -/
theorem splitString_intercalate {sep : Char} {pieces : List String} (hne : pieces ≠ [])
    (h : ∀ p ∈ pieces, sep ∉ p.toList) :
    splitString sep ((String.singleton sep).intercalate pieces) = pieces := by
  rw [splitString, splitAt_eq_splitOn, String.toList_intercalate, String.toList_singleton,
    List.splitOn_intercalate sep (by simpa using h) (by simpa using hne), List.map_map]
  exact List.map_id'' (fun _ => String.ofList_toList) pieces

end Text

namespace Location

/-- A text that stands between two slashes as it is. -/
structure IsPlainStep (s : String) : Prop where
  step : isStep s = true
  slash : '/' ∉ s.toList

/-- A location below no root, with plain steps. -/
structure IsPlain (l : Location) : Prop where
  lead : l.lead = ""
  steps : ∀ s ∈ l.steps, IsPlainStep s

/-- Plain steps lead from a plain location to another one. -/
theorem IsPlain.append {l : Location} (h : l.IsPlain) {ss : List String}
    (hss : ∀ s ∈ ss, IsPlainStep s) : IsPlain ⟨l.lead, l.steps ++ ss⟩ :=
  ⟨h.lead, List.forall_mem_append.2 ⟨h.steps, hss⟩⟩

theorem IsPlainStep.ne_nil {s : String} (h : IsPlainStep s) : s.toList ≠ [] := by
  intro hnil
  have hempty : s = "" := String.toList_inj.1 hnil
  have hstep := h.step
  rw [hempty] at hstep
  exact absurd hstep (by decide)

theorem isAbsolute_of_head? {p : String} (h : p.toList.head? ≠ some '/') :
    Path.isAbsolute p = false := by
  rw [Path.isAbsolute, String.startsWith_eq_startsWith_toSlice,
    String.Slice.startsWith_string_eq_false_iff, String.copy_toSlice]
  rintro ⟨rest, hrest⟩
  exact h (by rw [← hrest]; rfl)

/-- A text that no slash starts leads to nothing above it. -/
theorem lead_of_head? {p : String} (h : p.toList.head? ≠ some '/') : Path.lead p = "" := by
  simp [Path.lead, isAbsolute_of_head? h]

theorem isPlainStep_of_mem_ofPath {p s : String} (h : s ∈ (ofPath p).steps) : IsPlainStep s := by
  obtain ⟨hmem, hstep⟩ := List.mem_filter.1 h
  obtain ⟨piece, hpiece, rfl⟩ := List.mem_map.1 hmem
  exact ⟨hstep, by simpa using Text.not_mem_of_mem_splitAt hpiece⟩

/-- What a relative path names is plain. -/
theorem isPlain_ofPath {p : String} (h : (ofPath p).lead = "") : (ofPath p).IsPlain :=
  ⟨h, fun _ => isPlainStep_of_mem_ofPath⟩

theorem filter_isStep {ss : List String} (h : ∀ s ∈ ss, IsPlainStep s) : ss.filter isStep = ss :=
  List.filter_eq_self.2 fun s hs => (h s hs).step

/-- Plain steps joined by slashes do not start with one. -/
theorem head?_intercalate {ss : List String} (hne : ss ≠ []) (h : ∀ s ∈ ss, IsPlainStep s) :
    ("/".intercalate ss).toList.head? ≠ some '/' := by
  obtain ⟨s, rest, rfl⟩ := List.exists_cons_of_ne_nil hne
  have hs := h s List.mem_cons_self
  obtain ⟨more, hmore⟩ : ∃ more, ("/".intercalate (s :: rest)).toList = s.toList ++ more := by
    cases rest with
    | nil => exact ⟨[], by simp⟩
    | cons t rest =>
      rw [String.intercalate_cons_of_ne_nil (by simp), String.append_assoc, String.toList_append]
      exact ⟨_, rfl⟩
  rw [hmore, List.head?_append_of_ne_nil _ hs.ne_nil]
  exact fun hmem => hs.slash (List.mem_of_mem_head? hmem)

/-- Plain steps joined by slashes name the location of these steps. -/
theorem ofPath_intercalate {ss : List String} (hne : ss ≠ []) (h : ∀ s ∈ ss, IsPlainStep s) :
    ofPath ("/".intercalate ss) = ⟨"", ss⟩ := by
  have hsteps : Path.steps ("/".intercalate ss) = ss :=
    Text.splitString_intercalate hne fun s hs => (h s hs).slash
  rw [ofPath, lead_of_head? (head?_intercalate hne h), hsteps, filter_isStep h]

theorem text_of_ne_nil {ss : List String} (hne : ss ≠ []) (h : ∀ s ∈ ss, IsPlainStep s) :
    text ⟨"", ss⟩ = "/".intercalate ss := by
  have hsome : "/".intercalate ss ≠ "" := by
    intro hempty
    have hback := ofPath_intercalate hne h
    rw [hempty] at hback
    have hnone : (ofPath "").steps = [] := by decide
    exact hne ((congrArg steps hback).symm.trans hnone)
  simp [text, hsome]

/-- A plain location is read back from its text. -/
theorem ofPath_text {l : Location} (h : l.IsPlain) : ofPath l.text = l := by
  obtain ⟨lead, ss⟩ := l
  obtain rfl : lead = "" := h.lead
  by_cases hne : ss = []
  · rw [hne]
    decide +kernel
  · rw [text_of_ne_nil hne h.steps, ofPath_intercalate hne h.steps]

/-- The last step of a location with steps ends its text. -/
theorem getLast?_steps_text {ss : List String} (hne : ss ≠ []) (h : ∀ s ∈ ss, IsPlainStep s) :
    (Path.steps (text ⟨"", ss⟩)).getLast? = ss.getLast? := by
  have hsteps : Path.steps ("/".intercalate ss) = ss :=
    Text.splitString_intercalate hne fun s hs => (h s hs).slash
  rw [text_of_ne_nil hne h, hsteps]

/-- What stands behind the last slash is the last step. -/
theorem getLast?_steps_append (front : String) {s : String} (h : '/' ∉ s.toList) :
    (Path.steps (front ++ "/" ++ s)).getLast? = some s := by
  have hlist : (front ++ "/" ++ s).toList = front.toList ++ '/' :: s.toList := by simp
  have hlast : Text.splitAt '/' s.toList = [s.toList] := by
    rw [Text.splitAt_eq_splitOn, List.splitOn_eq_singleton h]
  rw [Path.steps, Text.splitString, hlist, Text.splitAt_append_cons, hlast]
  simp

theorem text_injective {l m : Location} (hl : l.IsPlain) (hm : m.IsPlain) (h : l.text = m.text) :
    l = m := by
  rw [← ofPath_text hl, ← ofPath_text hm, h]

theorem ofPath_step {s : String} (h : IsPlainStep s) : ofPath s = ⟨"", [s]⟩ := by
  have hone := @ofPath_intercalate [s] (by simp) (by simpa using h)
  rwa [String.intercalate_singleton] at hone

/-- One step below a location. -/
theorem below_step (l : Location) {s : String} (h : IsPlainStep s) :
    l.below s = { l with steps := l.steps ++ [s] } := by
  rw [below, ofPath_step h]
  rfl

/-- A point and a slash in front go nowhere. -/
theorem steps_ofPath_here (p : String) : (ofPath ("./" ++ p)).steps = (ofPath p).steps := by
  have hlist : ("./" ++ p).toList = '.' :: '/' :: p.toList := by simp
  simp [ofPath, Path.steps, Text.splitString, hlist, Text.splitAt, isStep]

/-- A point and a slash in front make a path relative. -/
theorem below_here (l : Location) (p : String) :
    l.below ("./" ++ p) = { l with steps := l.steps ++ (ofPath p).steps } := by
  have hlead : Path.lead ("./" ++ p) = "" := lead_of_head? (by simp)
  rw [below, if_pos (by rw [ofPath, hlead]), steps_ofPath_here]

/-- Steps without two points among them are normal but for those that go nowhere. -/
theorem foldl_step {absolute : Bool} {ss done : List String} (h : ".." ∉ ss) :
    ss.foldl (Path.step absolute) done = (ss.filter isStep).reverse ++ done := by
  induction ss generalizing done with
  | nil => rfl
  | cons s ss ih =>
    obtain ⟨hs, hss⟩ := not_or.1 fun hmem => h (List.mem_cons.2 hmem)
    rw [List.foldl_cons, ih hss]
    by_cases hstep : isStep s = true
    · have hhere : ¬ (s = "" ∨ s = ".") := by simpa [isStep, not_or] using hstep
      simp [Path.step, hstep, hhere, Ne.symm hs]
    · have hhere : s = "" ∨ s = "." := by
        simpa [isStep, Classical.or_iff_not_imp_left] using hstep
      simp [Path.step, hstep, hhere]

/-- The text of a plain location that goes nowhere up makes no detours. -/
theorem normal_text {l : Location} (h : l.IsPlain) (hup : ".." ∉ l.steps) :
    Path.normal l.text = l.text := by
  have hback := ofPath_text h
  have hlead : Path.lead l.text = "" := (congrArg lead hback).trans h.lead
  have hfilter : (Path.steps l.text).filter isStep = l.steps := congrArg steps hback
  have hsteps : ".." ∉ Path.steps l.text := by
    intro hmem
    rw [← hfilter] at hup
    exact hup (List.mem_filter.2 ⟨hmem, by decide⟩)
  rw [Path.normal, Path.normalSteps, foldl_step hsteps, hfilter, List.append_nil,
    List.reverse_reverse, hlead]
  simp [text, h.lead]

/-- A relative path without detours: it is the text of its location and goes nowhere up. -/
structure IsNormal (p : String) : Prop where
  lead : (ofPath p).lead = ""
  text : (ofPath p).text = p
  up : ".." ∉ (ofPath p).steps

instance (p : String) : Decidable (IsNormal p) :=
  decidable_of_iff ((ofPath p).lead = "" ∧ (ofPath p).text = p ∧ ".." ∉ (ofPath p).steps)
    ⟨fun ⟨hlead, htext, hup⟩ => ⟨hlead, htext, hup⟩, fun h => ⟨h.lead, h.text, h.up⟩⟩

theorem IsNormal.plain {p : String} (h : IsNormal p) : (ofPath p).IsPlain := isPlain_ofPath h.lead

end Location
end ApiScribe
