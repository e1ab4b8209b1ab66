import Mathlib.Data.List.TakeWhile
import ApiScribe.Naming

/-! Words of a text. Splitting keeps every ASCII letter and digit in its order and drops everything
else, so a name made of words has as many characters as the text has letters and digits. -/
namespace ApiScribe
namespace Naming

theorem isUpper_iff (c : Char) : c.isUpper = true ↔ 65 ≤ c.toNat ∧ c.toNat ≤ 90 := by
  have hupper : c.isUpper = decide ('A'.val ≤ c.val ∧ c.val ≤ 'Z'.val) := rfl
  rw [hupper, decide_eq_true_eq, UInt32.le_iff_toNat_le, UInt32.le_iff_toNat_le]
  rfl

theorem isLower_iff (c : Char) : c.isLower = true ↔ 97 ≤ c.toNat ∧ c.toNat ≤ 122 := by
  have hlower : c.isLower = (decide ('a'.val ≤ c.val) && decide (c.val ≤ 'z'.val)) := rfl
  rw [hlower, Bool.and_eq_true, decide_eq_true_eq, decide_eq_true_eq, UInt32.le_iff_toNat_le,
    UInt32.le_iff_toNat_le]
  rfl

theorem isDigit_iff (c : Char) : c.isDigit = true ↔ 48 ≤ c.toNat ∧ c.toNat ≤ 57 := by
  simp only [Char.isDigit, Bool.and_eq_true, decide_eq_true_eq, UInt32.le_iff_toNat_le, ge_iff_le]
  rfl

theorem isAlphanum_iff (c : Char) : c.isAlphanum = true ↔
    (65 ≤ c.toNat ∧ c.toNat ≤ 90) ∨ (97 ≤ c.toNat ∧ c.toNat ≤ 122) ∨
      (48 ≤ c.toNat ∧ c.toNat ≤ 57) := by
  have hparts : c.isAlphanum = (c.isUpper || c.isLower || c.isDigit) := rfl
  rw [hparts, Bool.or_eq_true, Bool.or_eq_true, isUpper_iff, isLower_iff, isDigit_iff, or_assoc]

theorem isWordChar_eq_isAlphanum (c : Char) : isWordChar c = c.isAlphanum := by
  have hparts : c.isAlphanum = (c.isUpper || c.isLower || c.isDigit) := rfl
  rw [hparts]
  unfold isWordChar classOf
  cases c.isUpper <;> cases c.isLower <;> cases c.isDigit <;> rfl

theorem isWordChar_iff (c : Char) : isWordChar c = true ↔
    (65 ≤ c.toNat ∧ c.toNat ≤ 90) ∨ (97 ≤ c.toNat ∧ c.toNat ≤ 122) ∨
      (48 ≤ c.toNat ∧ c.toNat ≤ 57) := by
  rw [isWordChar_eq_isAlphanum, isAlphanum_iff]

/-- No letter and no digit is blank. -/
theorem not_isWordChar_of_isBlank {c : Char} (h : Text.isBlank c = true) :
    isWordChar c = false := by
  rw [Bool.eq_false_iff, ne_eq, isWordChar_iff]
  simp only [Text.isBlank, Text.inRanges_iff, Text.blankRanges] at h
  simp at h
  omega

theorem toNat_toLower (c : Char) : c.toLower.toNat =
    if 65 ≤ c.toNat ∧ c.toNat ≤ 90 then c.toNat + 32 else c.toNat := by
  unfold Char.toLower
  split
  · next h =>
    have h1 : 65 ≤ c.val.toNat := UInt32.le_iff_toNat_le.1 h.1
    have h2 : c.val.toNat ≤ 90 := UInt32.le_iff_toNat_le.1 h.2
    rw [if_pos ⟨h1, h2⟩]
    show (c.val.toNat + 32) % 4294967296 = c.val.toNat + 32
    omega
  · next h =>
    rw [if_neg]
    exact fun h' => h ⟨UInt32.le_iff_toNat_le.2 h'.1, UInt32.le_iff_toNat_le.2 h'.2⟩

theorem toNat_toUpper (c : Char) : c.toUpper.toNat =
    if 97 ≤ c.toNat ∧ c.toNat ≤ 122 then c.toNat - 32 else c.toNat := by
  unfold Char.toUpper
  split
  · next h =>
    have h1 : 97 ≤ c.val.toNat := UInt32.le_iff_toNat_le.1 h.1
    have h2 : c.val.toNat ≤ 122 := UInt32.le_iff_toNat_le.1 h.2
    rw [if_pos ⟨h1, h2⟩]
    have hx : ('A'.val - 'a'.val).toNat = 4294967264 := by decide
    show (c.val + ('A'.val - 'a'.val)).toNat = c.val.toNat - 32
    rw [UInt32.toNat_add, hx]
    omega
  · next h =>
    rw [if_neg]
    exact fun h' => h ⟨UInt32.le_iff_toNat_le.2 h'.1, UInt32.le_iff_toNat_le.2 h'.2⟩

@[simp] theorem isWordChar_toLower (c : Char) : isWordChar c.toLower = isWordChar c := by
  rw [Bool.eq_iff_iff, isWordChar_iff, isWordChar_iff, toNat_toLower]
  split <;> omega

@[simp] theorem isWordChar_toUpper (c : Char) : isWordChar c.toUpper = isWordChar c := by
  rw [Bool.eq_iff_iff, isWordChar_iff, isWordChar_iff, toNat_toUpper]
  split <;> omega

theorem isWordChar_iff_classOf_ne (c : Char) : isWordChar c = true ↔ classOf c ≠ .other := by
  simp [isWordChar]

/-- A text of letters and digits only. -/
def IsWordText (cs : List Char) : Prop := ∀ c ∈ cs, isWordChar c = true

instance (cs : List Char) : Decidable (IsWordText cs) :=
  decidable_of_iff (cs.all isWordChar = true) List.all_eq_true

theorem IsWordText.append {cs ds : List Char} (h : IsWordText cs) (h' : IsWordText ds) :
    IsWordText (cs ++ ds) := by
  intro c hc
  rcases List.mem_append.1 hc with hc | hc
  · exact h c hc
  · exact h' c hc

theorem run_isPrefix (k : LetterClass) (cs : List Char) : run k cs <+: cs :=
  List.takeWhile_prefix _

theorem isWordText_run {k : LetterClass} (hk : k ≠ .other) (cs : List Char) :
    IsWordText (run k cs) := by
  intro c hc
  have := List.mem_takeWhile_imp hc
  rw [isWordChar_iff_classOf_ne, of_decide_eq_true this]
  exact hk

/-- The first word stands at the front of the text. -/
theorem firstWord_isPrefix (cs : List Char) : firstWord cs <+: cs := by
  simp only [firstWord]
  split
  · exact List.nil_prefix
  · split
    · exact List.nil_prefix
    · exact run_isPrefix ..
    · exact run_isPrefix ..
    · split
      · exact run_isPrefix ..
      · split
        · split
          · simpa using run_isPrefix _ _
          · exact (List.take_prefix _ _).trans (run_isPrefix ..)
        · exact run_isPrefix ..

theorem isWordText_firstWord (cs : List Char) : IsWordText (firstWord cs) := by
  simp only [firstWord]
  split
  · simp [IsWordText]
  · next c cs =>
    split
    · simp [IsWordText]
    · exact isWordText_run (by simp) _
    · exact isWordText_run (by simp) _
    · next hc =>
      have hu := isWordText_run (k := .upper) (by simp) (c :: cs)
      split
      · exact hu
      · split
        · split
          · intro d hd
            rcases List.mem_cons.1 hd with rfl | hd
            · rw [isWordChar_iff_classOf_ne, hc]
              simp
            · exact isWordText_run (k := .lower) (by simp) _ d hd
          · exact fun d hd => hu d (List.mem_of_mem_take hd)
        · exact hu

theorem filter_isWordChar_of_isWordText {cs : List Char} (h : IsWordText cs) :
    cs.filter isWordChar = cs := List.filter_eq_self.2 h

/-- The words of a text are its letters and digits, none lost, repeated or moved. -/
theorem splitWords_flatten (cs : List Char) : (splitWords cs).flatten = cs.filter isWordChar := by
  fun_induction splitWords cs with
  | case1 => rfl
  | case2 c cs h ih => simp [ih, isWordChar, h]
  | case3 c cs h word ih =>
    obtain ⟨rest, hrest⟩ := firstWord_isPrefix (c :: cs)
    have hdrop : (c :: cs).drop word.length = rest := by
      rw [← hrest, List.drop_left]
    rw [List.flatten_cons, ih, hdrop, ← hrest, List.filter_append,
      filter_isWordChar_of_isWordText (isWordText_firstWord _)]

theorem isWordText_of_mem_splitWords {w cs : List Char} (h : w ∈ splitWords cs) :
    IsWordText w := by
  intro c hc
  have hf : c ∈ (splitWords cs).flatten := List.mem_flatten.2 ⟨w, h, hc⟩
  rw [splitWords_flatten] at hf
  exact (List.mem_filter.1 hf).2

@[simp] theorem length_capitalize (cs : List Char) : (capitalize cs).length = cs.length := by
  cases cs <;> simp [capitalize]

@[simp] theorem length_lowered (cs : List Char) : (lowered cs).length = cs.length := by
  simp [lowered]

theorem isWordText_lowered {cs : List Char} (h : IsWordText cs) : IsWordText (lowered cs) := by
  intro c hc
  obtain ⟨d, hd, rfl⟩ := List.mem_map.1 hc
  rw [isWordChar_toLower]
  exact h d hd

theorem isWordText_capitalize {cs : List Char} (h : IsWordText cs) :
    IsWordText (capitalize cs) := by
  cases cs with
  | nil => exact h
  | cons c cs =>
    intro d hd
    rcases List.mem_cons.1 hd with rfl | hd
    · rw [isWordChar_toUpper]
      exact h c List.mem_cons_self
    · exact isWordText_lowered (fun e he => h e (List.mem_cons_of_mem c he)) d hd

theorem isWordText_flatMap_capitalize {ws : List (List Char)} (h : ∀ w ∈ ws, IsWordText w) :
    IsWordText (ws.flatMap capitalize) := by
  intro c hc
  obtain ⟨w, hw, hc⟩ := List.mem_flatMap.1 hc
  exact isWordText_capitalize (h w hw) c hc

theorem isWordText_pascalChars (cs : List Char) : IsWordText (pascalChars cs) :=
  isWordText_flatMap_capitalize fun _ => isWordText_of_mem_splitWords

theorem isWordText_camelChars (cs : List Char) : IsWordText (camelChars cs) := by
  unfold camelChars
  split
  · simp [IsWordText]
  · next w ws h =>
    have hw : ∀ v ∈ w :: ws, IsWordText v := fun v hv =>
      @isWordText_of_mem_splitWords v cs (h ▸ hv)
    exact (isWordText_lowered (hw w List.mem_cons_self)).append
      (isWordText_flatMap_capitalize fun v hv => hw v (List.mem_cons_of_mem w hv))

theorem length_flatMap_capitalize (ws : List (List Char)) :
    (ws.flatMap capitalize).length = ws.flatten.length := by
  induction ws with
  | nil => rfl
  | cons w ws ih => simp [ih]

/-- A name in words has the letters and digits of its text. -/
theorem length_pascalChars (cs : List Char) : (pascalChars cs).length = cs.countP isWordChar := by
  rw [pascalChars, length_flatMap_capitalize, splitWords_flatten, List.countP_eq_length_filter]

theorem length_camelChars (cs : List Char) : (camelChars cs).length = cs.countP isWordChar := by
  rw [List.countP_eq_length_filter, ← splitWords_flatten]
  unfold camelChars
  split
  · next h => rw [h, List.flatten_nil]
  · next w ws h => simp [h]

theorem countP_of_isWordText {cs : List Char} (h : IsWordText cs) :
    cs.countP isWordChar = cs.length := List.countP_eq_length.2 h

/-- A letter at the front becomes a capital. -/
theorem head?_pascalChars {c : Char} (cs : List Char) (h : isWordChar c = true) :
    (pascalChars (c :: cs)).head? = some c.toUpper := by
  have hclass := (isWordChar_iff_classOf_ne c).1 h
  obtain ⟨rest, hrest⟩ := firstWord_isPrefix (c :: cs)
  obtain ⟨word, hword⟩ : ∃ word, firstWord (c :: cs) = c :: word := by
    have hpos := @firstWord_pos c cs hclass
    cases hfirst : firstWord (c :: cs) with
    | nil =>
      rw [hfirst] at hpos
      cases hpos
    | cons d word =>
      rw [hfirst, List.cons_append] at hrest
      exact ⟨word, by rw [(List.cons.inj hrest).1]⟩
  rw [pascalChars, splitWords, dif_neg hclass]
  simp [hword, capitalize]

theorem mem_of_mem_intersperse {α : Type} {a b : α} {xs : List α}
    (h : a ∈ List.intersperse b xs) : a ∈ xs ∨ a = b := by
  induction xs with
  | nil => simp at h
  | cons x xs ih =>
    cases xs with
    | nil => exact .inl h
    | cons y ys =>
      rw [List.intersperse_cons_cons] at h
      rcases List.mem_cons.1 h with rfl | h
      · exact .inl List.mem_cons_self
      · rcases List.mem_cons.1 h with rfl | h
        · exact .inr rfl
        · exact (ih h).imp_left (List.mem_cons_of_mem x)

theorem mem_kebabChars {c : Char} {cs : List Char} (h : c ∈ kebabChars cs) :
    isWordChar c = true ∨ c = '-' := by
  have hw : ∀ ws : List (List Char), (∀ w ∈ ws, IsWordText w) →
      c ∈ List.intercalate ['-'] (ws.map lowered) → isWordChar c = true ∨ c = '-' := by
    intro ws hws hc
    simp only [List.intercalate, List.mem_flatten] at hc
    obtain ⟨l, hl, hc⟩ := hc
    rcases mem_of_mem_intersperse hl with hl | rfl
    · obtain ⟨w, hw, rfl⟩ := List.mem_map.1 hl
      exact .inl (isWordText_lowered (hws w hw) c hc)
    · exact .inr (by simpa using hc)
  exact hw _ (fun _ => isWordText_of_mem_splitWords) h

end Naming
end ApiScribe
