import ApiScribe.Request
import ApiScribe.Proofs.Text.Lines
import ApiScribe.Proofs.Text.Standing

/-! Comments. The text of a comment is on one line, and no blanks stand at its ends. -/
namespace ApiScribe
namespace Text

theorem mem_wordsFrom {word cs w : List Char} (hw : w ∈ wordsFrom word cs)
    (hword : ∀ c ∈ word, isBlank c = false) : w ≠ [] ∧ ∀ c ∈ w, isBlank c = false := by
  fun_induction wordsFrom word cs with
  | case1 word hempty => cases hw
  | case2 word hempty =>
    rw [List.mem_singleton.1 hw]
    exact ⟨by simpa using hempty, by simpa using hword⟩
  | case3 word c cs hblank hempty ih => exact ih hw (by simp)
  | case4 word c cs hblank hempty ih =>
    rcases List.mem_cons.1 hw with rfl | hw
    · exact ⟨by simpa using hempty, by simpa using hword⟩
    · exact ih hw (by simp)
  | case5 word c cs hblank ih =>
    exact ih hw (List.forall_mem_cons.2 ⟨by simpa using hblank, hword⟩)

/-- A word is not empty, and nothing in it is blank. -/
theorem mem_words {cs w : List Char} (hw : w ∈ words cs) :
    w ≠ [] ∧ ∀ c ∈ w, isBlank c = false := mem_wordsFrom hw (by simp)

/-- Blanks between words are the only ones. -/
theorem mem_intercalate_words {ws : List (List Char)} (h : ∀ w ∈ ws, ∀ c ∈ w, isBlank c = false) :
    ∀ c ∈ List.intercalate [' '] ws, c = ' ' ∨ isBlank c = false := by
  induction ws with
  | nil => simp
  | cons w ws ih =>
    have hw := h w List.mem_cons_self
    have ih := ih fun u hu => h u (List.mem_cons_of_mem w hu)
    cases ws with
    | nil => simpa using fun c hc => .inr (hw c hc)
    | cons u ws =>
      intro c hc
      simp only [List.intercalate_cons_cons, List.mem_append, List.mem_singleton] at hc
      rcases hc with (hc | rfl) | hc
      · exact .inr (hw c hc)
      · exact .inl rfl
      · exact ih c hc

theorem IsTrimmed.append {as bs : List Char} (ha : IsTrimmed as) (hane : as ≠ [])
    (hb : IsTrimmed bs) (hbne : bs ≠ []) (ms : List Char) : IsTrimmed (as ++ ms ++ bs) := by
  constructor
  · intro c hc
    obtain ⟨a, as, rfl⟩ := List.exists_cons_of_ne_nil hane
    exact ha.head c (by simpa using hc)
  · intro c hc
    rw [List.getLast?_append, List.getLast?_eq_some_getLast hbne] at hc
    exact hb.last c (by rwa [List.getLast?_eq_some_getLast hbne])

theorem isTrimmed_intercalate_words {ws : List (List Char)}
    (h : ∀ w ∈ ws, w ≠ [] ∧ ∀ c ∈ w, isBlank c = false) :
    IsTrimmed (List.intercalate [' '] ws) ∧ (ws ≠ [] → List.intercalate [' '] ws ≠ []) := by
  induction ws with
  | nil => exact ⟨.nil, by simp⟩
  | cons w ws ih =>
    obtain ⟨hne, hblank⟩ := h w List.mem_cons_self
    obtain ⟨htrimmed, hrest⟩ := ih fun u hu => h u (List.mem_cons_of_mem w hu)
    cases ws with
    | nil => simpa using ⟨isTrimmed_of_no_blank hblank, hne⟩
    | cons u ws =>
      rw [List.intercalate_cons_cons]
      refine ⟨?_, by simp⟩
      exact (isTrimmed_of_no_blank hblank).append hne htrimmed (hrest (by simp)) [' ']

variable {pattern replacement : List Char}

theorem replaceFrom_zero_ne_nil (hne : replacement ≠ []) {cs : List Char} (h : cs ≠ []) :
    replaceFrom pattern replacement 0 cs ≠ [] := by
  cases cs with
  | nil => exact absurd rfl h
  | cons c cs =>
    simp only [replaceFrom]
    split
    · simp [hne]
    · simp

/-- A replaced text ends as the text does, or as the replacement. -/
theorem getLast?_replaceFrom (hne : replacement ≠ []) {skip : Nat} {cs : List Char} {c : Char}
    (h : (replaceFrom pattern replacement skip cs).getLast? = some c) :
    cs.getLast? = some c ∨ c ∈ replacement := by
  induction cs generalizing skip with
  | nil => cases h
  | cons d cs ih =>
    have hcons : cs.getLast? = some c → (d :: cs).getLast? = some c := by
      intro hlast
      simp [List.getLast?_cons, hlast]
    unfold replaceFrom at h
    split at h
    · exact (ih h).imp_left hcons
    · split at h
      · rw [List.getLast?_append] at h
        cases hrest : (replaceFrom pattern replacement (pattern.length - 1) cs).getLast? with
        | some e =>
          rw [hrest] at h
          cases h
          exact (ih hrest).imp_left hcons
        | none =>
          rw [hrest] at h
          exact .inr (List.mem_of_getLast? h)
      · by_cases hnil : cs = []
        · rw [hnil] at h ⊢
          exact .inl h
        · have hrest := @replaceFrom_zero_ne_nil pattern replacement hne cs hnil
          obtain ⟨e, es, heq⟩ := List.exists_cons_of_ne_nil hrest
          rw [heq, List.getLast?_cons_cons, ← heq] at h
          exact (ih h).imp_left hcons

/-- A replaced text is trimmed if the text and the replacement are. -/
theorem IsTrimmed.replaceAll {cs : List Char} (h : IsTrimmed cs) (hne : replacement ≠ [])
    (hblank : ∀ c ∈ replacement, isBlank c = false) :
    IsTrimmed (replaceAll pattern replacement cs) := by
  constructor
  · intro c hc
    cases cs with
    | nil => cases hc
    | cons d cs =>
      simp only [Text.replaceAll, replaceFrom] at hc
      split at hc
      · obtain ⟨r, rs, rfl⟩ := List.exists_cons_of_ne_nil hne
        cases hc
        exact hblank _ List.mem_cons_self
      · cases hc
        exact h.head _ rfl
  · intro c hc
    exact (getLast?_replaceFrom hne hc).elim (h.last c) (hblank c)

theorem head?_replaceAll_end (cs : List Char) :
    (replaceAll ['*', '/'] ['*', '\\', '/'] cs).head? = cs.head? := by
  cases cs with
  | nil => rfl
  | cons c cs =>
    by_cases h : startsWith ['*', '/'] (c :: cs) = true
    · obtain ⟨rest, hrest⟩ := startsWith_iff.1 h
      rw [← hrest, replaceAll_append_self (by simp)]
      rfl
    · rw [replaceAll_cons (Bool.eq_false_iff.2 h)]
      rfl

/-- Where every end of a comment is written another way, none is left. -/
theorem not_infix_replaceAll_end (cs : List Char) :
    ¬ ['*', '/'] <:+: replaceAll ['*', '/'] ['*', '\\', '/'] cs := by
  induction hn : cs.length using Nat.strongRecOn generalizing cs with
  | ind n ih =>
    subst hn
    cases cs with
    | nil => decide
    | cons c cs =>
      by_cases h : startsWith ['*', '/'] (c :: cs) = true
      · obtain ⟨rest, hrest⟩ := startsWith_iff.1 h
        have hlength := congrArg List.length hrest
        have hshorter : rest.length < (c :: cs).length := by simp at hlength ⊢; omega
        rw [← hrest, replaceAll_append_self (by simp)]
        simpa [List.infix_cons_iff] using ih rest.length hshorter rest rfl
      · rw [replaceAll_cons (Bool.eq_false_iff.2 h), List.infix_cons_iff]
        rintro (hfirst | hrest)
        · obtain ⟨rfl, hslash⟩ := List.cons_prefix_cons.1 hfirst
          have hhead : cs.head? = some '/' := by
            obtain ⟨rest, hrest⟩ := hslash
            rw [← head?_replaceAll_end, ← hrest]
            rfl
          obtain ⟨rest, rfl⟩ := List.head?_eq_some_iff.1 hhead
          exact h (startsWith_iff.2 ⟨rest, rfl⟩)
        · exact ih cs.length (by simp) cs rfl hrest

end Text

theorem toList_commentText (text : Option String) : (commentText text).toList =
    Text.replaceAll ['*', '/'] ['*', '\\', '/']
      (List.intercalate [' '] (Text.words (text.getD "").toList)) := by
  simp [commentText, Text.replaceString, String.toList_intercalate, Function.comp_def]

theorem isTrimmed_commentText (text : Option String) :
    Text.IsTrimmed (commentText text).toList := by
  rw [toList_commentText]
  exact (Text.isTrimmed_intercalate_words fun w hw => Text.mem_words hw).1.replaceAll (by simp)
    (Text.not_blank_of_all (by decide))

theorem isLineEnd_commentText {text : Option String} :
    ∀ c ∈ (commentText text).toList, Text.isLineEnd c = false := by
  intro c hc
  rw [toList_commentText] at hc
  rcases Text.mem_replaceFrom hc with hc | hc
  · rcases Text.mem_intercalate_words (fun w hw => (Text.mem_words hw).2) c hc with rfl | hc
    · decide
    · cases hend : Text.isLineEnd c with
      | false => rfl
      | true =>
        rw [Text.isBlank_of_isLineEnd hend] at hc
        cases hc
  · simp only [List.mem_cons, List.not_mem_nil, or_false] at hc
    rcases hc with rfl | rfl | rfl <;> decide

/-- The text of a comment does not end the comment. -/
theorem not_infix_commentText (text : Option String) :
    ¬ ['*', '/'] <:+: (commentText text).toList := by
  rw [toList_commentText]
  exact Text.not_infix_replaceAll_end _

end ApiScribe
