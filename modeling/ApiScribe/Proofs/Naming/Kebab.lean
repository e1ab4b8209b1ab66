import ApiScribe.Proofs.Naming.Respelling

/-! Texts in `get-order-list` style: words of small letters or of digits with single hyphens between
them. Joined in `GetOrderList` style, such a text shows where its words start, except that numbers
run into one another. So two of these texts become one name exactly when they are one text without
the hyphens between their digits. -/
namespace ApiScribe
namespace Naming

/-- Words of small letters or of digits joined by single hyphens, read on behind a character of the
given class. -/
def IsKebabFrom (before : LetterClass) : List Char → Prop
  | [] => before ≠ .other
  | c :: cs =>
    match classOf c with
    | .upper => False
    | .lower => before ≠ .digit ∧ IsKebabFrom .lower cs
    | .digit => before ≠ .lower ∧ IsKebabFrom .digit cs
    | .other => c = '-' ∧ before ≠ .other ∧ IsKebabFrom .other cs

/-- A text in `get-order-list` style with at least one word. -/
def IsKebab (s : String) : Prop := IsKebabFrom .other s.toList

/-- A text in `get-order-list` style holds letters, digits and hyphens only. -/
theorem not_mem_of_isKebabFrom {d : Char} (hd : classOf d = .other) (hne : d ≠ '-')
    {before : LetterClass} {cs : List Char} (h : IsKebabFrom before cs) : d ∉ cs := by
  induction cs generalizing before with
  | nil => simp
  | cons c cs ih =>
    have hother : classOf c ≠ .other → d ≠ c := by
      rintro hc rfl
      exact hc hd
    rw [List.mem_cons, not_or]
    rw [IsKebabFrom] at h
    split at h
    · exact h.elim
    · next hc => exact ⟨hother (by simp [hc]), ih h.2⟩
    · next hc => exact ⟨hother (by simp [hc]), ih h.2⟩
    · exact ⟨fun heq => hne (heq.trans h.1), ih h.2.2⟩

theorem IsKebab.ne_nil {s : String} (h : IsKebab s) : s.toList ≠ [] := by
  intro hnil
  rw [IsKebab, hnil] at h
  exact h rfl

/-- Small letters, or digits, behind a hyphen or behind others of their kind. -/
theorem isKebabFrom_append_run {k before : LetterClass} (hk : k = .lower ∨ k = .digit)
    (hbefore : before = .other ∨ before = k) {word rest : List Char} (hne : word ≠ [])
    (hword : ∀ c ∈ word, classOf c = k) (hrest : IsKebabFrom k rest) :
    IsKebabFrom before (word ++ rest) := by
  induction word generalizing before with
  | nil => exact absurd rfl hne
  | cons c word ih =>
    have hmore : IsKebabFrom k (word ++ rest) := by
      cases word with
      | nil => exact hrest
      | cons d word =>
        exact ih (.inr rfl) (by simp) fun e he => hword e (List.mem_cons_of_mem c he)
    rw [List.cons_append, IsKebabFrom, hword c List.mem_cons_self]
    rcases hk with rfl | rfl <;> rcases hbefore with rfl | rfl <;> exact ⟨by simp, hmore⟩

/-- A word of one kind: small letters, or digits. -/
structure IsPlainWord (word : List Char) : Prop where
  ne_nil : word ≠ []
  kind : (∀ c ∈ word, classOf c = .lower) ∨ ∀ c ∈ word, classOf c = .digit

theorem isKebabFrom_append_word {word rest : List Char} (h : IsPlainWord word)
    (hrest : ∀ k, k ≠ .other → IsKebabFrom k rest) : IsKebabFrom .other (word ++ rest) := by
  rcases h.kind with hword | hword
  · exact isKebabFrom_append_run (.inl rfl) (.inl rfl) h.ne_nil hword (hrest .lower (by simp))
  · exact isKebabFrom_append_run (.inr rfl) (.inl rfl) h.ne_nil hword (hrest .digit (by simp))

/-- Plain words joined by hyphens. -/
theorem isKebabFrom_intercalate {words : List (List Char)} (hne : words ≠ [])
    (h : ∀ w ∈ words, IsPlainWord w) : IsKebabFrom .other (List.intercalate ['-'] words) := by
  induction words with
  | nil => exact absurd rfl hne
  | cons w words ih =>
    have hw := h w List.mem_cons_self
    cases words with
    | nil =>
      have hlast := isKebabFrom_append_word hw fun k hk => show IsKebabFrom k [] from hk
      simpa [List.intercalate] using hlast
    | cons v words =>
      have hrest := ih (by simp) fun u hu => h u (List.mem_cons_of_mem w hu)
      rw [List.intercalate_cons_cons, List.append_assoc]
      exact isKebabFrom_append_word hw fun k hk => ⟨rfl, hk, hrest⟩

theorem classOf_toLower_of_letter {c : Char} (h : classOf c = .upper ∨ classOf c = .lower) :
    classOf c.toLower = .lower := by
  rcases h with h | h
  · exact classOf_toLower h
  · rw [toLower_of_not_upper (by simp [h]), h]

/-- In small letters a word is of one kind. -/
theorem Cut.isPlainWord_lowered {word rest : List Char} (h : Cut word rest) :
    IsPlainWord (lowered word) := by
  have hsmall : ∀ {w : List Char}, (∀ c ∈ w, classOf c = .upper ∨ classOf c = .lower) →
      ∀ c ∈ lowered w, classOf c = .lower := by
    intro w hw c hc
    obtain ⟨d, hd, rfl⟩ := List.mem_map.1 hc
    exact classOf_toLower_of_letter (hw d hd)
  cases h with
  | digits h =>
    refine ⟨by simp [lowered], .inr fun c hc => ?_⟩
    obtain ⟨d, hd, rfl⟩ := List.mem_map.1 hc
    rw [toLower_of_not_upper (by simp [h d hd]), h d hd]
  | small h hrest => exact ⟨by simp [lowered], .inl (hsmall fun c hc => .inr (h c hc))⟩
  | titled hc h hrest =>
    refine ⟨by simp [lowered], .inl (hsmall fun e he => ?_)⟩
    rcases List.mem_cons.1 he with rfl | he
    · exact .inl hc
    · exact .inr (h e he)
  | capitals h hrest hstarts =>
    exact ⟨by simp [lowered], .inl (hsmall fun c hc => .inl (h c hc))⟩

theorem isPlainWord_of_mem_splitWords {w cs : List Char} (h : w ∈ splitWords cs) :
    IsPlainWord (lowered w) := by
  fun_induction splitWords cs with
  | case1 => cases h
  | case2 c cs hc ih => exact ih h
  | case3 c cs hc word ih =>
    rcases List.mem_cons.1 h with rfl | h
    · exact (cut_firstWord hc).isPlainWord_lowered
    · exact ih h

theorem isPlainWord_of_mem_map_lowered (cs : List Char) :
    ∀ w ∈ (splitWords cs).map lowered, IsPlainWord w := by
  intro w hw
  obtain ⟨v, hv, rfl⟩ := List.mem_map.1 hw
  exact isPlainWord_of_mem_splitWords hv

/-- What is written in `get-order-list` style is empty or of that style. -/
theorem isKebab_kebab {s : String} (h : kebab s ≠ "") : IsKebab (kebab s) := by
  rw [IsKebab, kebab, String.toList_ofList, kebabChars]
  refine isKebabFrom_intercalate (fun hnil => h ?_) (isPlainWord_of_mem_map_lowered s.toList)
  rw [kebab, kebabChars, hnil]
  rfl

/-- Whether a text goes on with a digit. -/
def goesOnNumber (cs : List Char) : Bool := cs.head?.any fun c => classOf c = .digit

/-- A text without the hyphens that stand between two digits, read on behind a character of the
given class. -/
def joinNumbersFrom (before : LetterClass) : List Char → List Char
  | [] => []
  | c :: cs =>
    (if c = '-' && before = .digit && goesOnNumber cs then [] else [c])
      ++ joinNumbersFrom (classOf c) cs

/-- A text without the hyphens that stand between two digits. -/
def joinNumbers (s : String) : String := String.ofList (joinNumbersFrom .other s.toList)

theorem ne_hyphen {c : Char} (h : classOf c ≠ .other) : c ≠ '-' := by
  rintro rfl
  exact h (by decide)

/-- In `GetOrderList` style the hyphens between digits leave no trace. -/
theorem joinedFrom_joinNumbersFrom {before : LetterClass} {cs : List Char}
    (h : IsKebabFrom before cs) :
    joinedFrom before (joinNumbersFrom before cs) = joinedFrom before cs := by
  induction cs generalizing before with
  | nil => rfl
  | cons c cs ih =>
    rw [IsKebabFrom] at h
    cases hc : classOf c with
    | upper => simp [hc] at h
    | lower =>
      rw [hc] at h
      have hsign := ne_hyphen (c := c) (by simp [hc])
      simp [joinNumbersFrom, joinedFrom, hc, hsign, ih h.2]
    | digit =>
      rw [hc] at h
      have hsign := ne_hyphen (c := c) (by simp [hc])
      simp [joinNumbersFrom, joinedFrom, hc, hsign, ih h.2]
    | other =>
      rw [hc] at h
      obtain ⟨rfl, -, hrest⟩ := h
      have hjoined := ih hrest
      by_cases hnumber : before = .digit ∧ goesOnNumber cs = true
      · -- the hyphen is dropped, and a digit is joined no differently behind another
        obtain ⟨rfl, hgoes⟩ := hnumber
        cases cs with
        | nil => cases hgoes
        | cons d cs =>
          have hd : classOf d = .digit := by simpa [goesOnNumber] using hgoes
          have hsign := ne_hyphen (c := d) (by simp [hd])
          simp only [joinNumbersFrom, hc, hd, hsign, joinedFrom] at hjoined ⊢
          simpa [goesOnNumber, hd, joinedFrom] using hjoined
      · have hkept : (decide ('-' = '-') && decide (before = .digit) && goesOnNumber cs) = false := by
          simpa using hnumber
        rw [joinNumbersFrom, hkept, hc]
        simp [joinedFrom, hc, hjoined]

/-- A name in `GetOrderList` style with hyphens in front of its words again, but for the first. Words
start with a capital, or with a digit behind a letter. The name is read on behind a character of the
given class. -/
def hyphenatedFrom (before : LetterClass) : List Char → List Char
  | [] => []
  | c :: cs =>
    match classOf c with
    | .upper => (if before = .other then [] else ['-']) ++ c.toLower :: hyphenatedFrom .upper cs
    | .digit => (if before.isLetter then ['-'] else []) ++ c :: hyphenatedFrom .digit cs
    | k => c :: hyphenatedFrom k cs

/-- The class of the last character of a name and the class of the character that a text goes on
behind: they agree unless the text stands at the start or behind a hyphen. -/
def Meet (written before : LetterClass) : Prop :=
  (before = .lower → written.isLetter = true) ∧ (before = .digit → written = .digit)

/-- The hyphen that a text behind a hyphen is still owed. -/
def owedHyphen (written before : LetterClass) (cs : List Char) : List Char :=
  if before = .other ∧ written ≠ .other ∧ ¬ (written = .digit ∧ goesOnNumber cs = true) then ['-']
  else []

theorem toLower_toUpper {c : Char} (h : classOf c = .lower) : c.toUpper.toLower = c := by
  rw [classOf_eq_lower_iff] at h
  refine Char.toNat_inj.1 ?_
  rw [toNat_toLower, toNat_toUpper, if_pos h, if_pos (by omega)]
  omega

/-- A name shows the words it was joined from, except where one number follows another. -/
theorem hyphenatedFrom_joinedFrom {written before : LetterClass} {cs : List Char}
    (h : IsKebabFrom before cs) (hbefore : before ≠ .upper) (hmeet : Meet written before) :
    hyphenatedFrom written (joinedFrom before cs) =
      owedHyphen written before cs ++ joinNumbersFrom before cs := by
  induction cs generalizing written before with
  | nil =>
    have hnone : before ≠ .other := h
    simp [joinedFrom, hyphenatedFrom, joinNumbersFrom, owedHyphen, hnone]
  | cons c cs ih =>
    rw [IsKebabFrom] at h
    cases hc : classOf c with
    | upper => simp [hc] at h
    | lower =>
      rw [hc] at h
      obtain ⟨hdigit, hcs⟩ := h
      have hsign := ne_hyphen (c := c) (by simp [hc])
      cases before with
      | upper => exact absurd rfl hbefore
      | digit => exact absurd rfl hdigit
      | lower =>
        have hrest := ih hcs (by simp) (show Meet .lower .lower from ⟨fun _ => rfl, by simp⟩)
        simpa [joinedFrom, hc, LetterClass.isLetter, hyphenatedFrom, joinNumbersFrom, hsign,
          owedHyphen] using hrest
      | other =>
        have hrest := ih hcs (by simp) (show Meet .upper .lower from ⟨fun _ => rfl, by simp⟩)
        have hup := classOf_toUpper hc
        cases written <;>
          simpa [joinedFrom, hc, LetterClass.isLetter, hyphenatedFrom, hup, joinNumbersFrom, hsign,
            owedHyphen, goesOnNumber, toLower_toUpper hc] using hrest
    | digit =>
      rw [hc] at h
      obtain ⟨hlower, hcs⟩ := h
      have hsign := ne_hyphen (c := c) (by simp [hc])
      have hrest := ih hcs (by simp) (show Meet .digit .digit from ⟨by simp, fun _ => rfl⟩)
      cases before with
      | upper => exact absurd rfl hbefore
      | lower => exact absurd rfl hlower
      | digit =>
        rw [hmeet.2 rfl]
        simpa [joinedFrom, hc, LetterClass.isLetter, hyphenatedFrom, joinNumbersFrom, hsign,
          owedHyphen] using hrest
      | other =>
        cases written <;>
          simpa [joinedFrom, hc, LetterClass.isLetter, hyphenatedFrom, joinNumbersFrom, hsign,
            owedHyphen, goesOnNumber] using hrest
    | other =>
      rw [hc] at h
      obtain ⟨rfl, hsome, hcs⟩ := h
      have hrest := ih hcs (by simp) (show Meet written .other from ⟨by simp, by simp⟩)
      cases before with
      | upper => exact absurd rfl hbefore
      | other => exact absurd rfl hsome
      | lower =>
        have hletter := hmeet.1 rfl
        cases written <;> simp [LetterClass.isLetter] at hletter <;>
          simpa [joinedFrom, hc, joinNumbersFrom, owedHyphen] using hrest
      | digit =>
        rw [hmeet.2 rfl] at hrest ⊢
        cases hgoes : goesOnNumber cs <;>
          simpa [joinedFrom, hc, joinNumbersFrom, owedHyphen, hgoes] using hrest

/-- Two texts in `get-order-list` style are one name in `GetOrderList` style exactly when they are
one text without the hyphens between digits. -/
theorem pascal_eq_iff_joinNumbers_eq {s t : String} (hs : IsKebab s) (ht : IsKebab t) :
    pascal s = pascal t ↔ joinNumbers s = joinNumbers t := by
  have hback : ∀ {u : String}, IsKebab u →
      hyphenatedFrom .other (joinedFrom .other u.toList) = joinNumbersFrom .other u.toList := by
    intro u hu
    have hmeet : Meet .other .other := ⟨by simp, by simp⟩
    have hwords := hyphenatedFrom_joinedFrom hu (by simp) hmeet
    simpa [owedHyphen] using hwords
  rw [pascal, pascal, joinNumbers, joinNumbers, String.ofList_inj, String.ofList_inj,
    pascalChars_eq_joinedFrom, pascalChars_eq_joinedFrom]
  constructor
  · intro h
    rw [← hback hs, ← hback ht, h]
  · intro h
    rw [← joinedFrom_joinNumbersFrom hs, ← joinedFrom_joinNumbersFrom ht, h]

theorem pascal_ne_empty {s : String} (h : IsKebab s) : pascal s ≠ "" := by
  have hword : ∃ c ∈ s.toList, isWordChar c = true := by
    rw [IsKebab] at h
    cases hcs : s.toList with
    | nil =>
      rw [hcs] at h
      exact absurd rfl h
    | cons c cs =>
      rw [hcs, IsKebabFrom] at h
      refine ⟨c, List.mem_cons_self, (isWordChar_iff_classOf_ne c).2 fun hc => ?_⟩
      rw [hc] at h
      exact h.2.1 rfl
  intro hempty
  have hlength := congrArg (fun t => t.toList.length) hempty
  simp only [pascal, String.toList_ofList, length_pascalChars] at hlength
  have hpos : 0 < s.toList.countP isWordChar := List.countP_pos_iff.2 hword
  have hzero : s.toList.countP isWordChar = 0 := hlength
  omega

end Naming
end ApiScribe
