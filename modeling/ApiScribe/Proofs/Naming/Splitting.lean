import ApiScribe.Proofs.Naming.Kebab

/-! The rule by which a text is split. A search goes through the text from its start. At each place
it tries four forms of a word in turn and takes the longest word of the first form that fits, and it
passes over a character where none fits. The rule leaves one way to split a text, and it is the way
of `splitWords`. -/
namespace ApiScribe
namespace Naming

/-- Characters of one class, at least one of them. -/
structure IsRun (k : LetterClass) (word : List Char) : Prop where
  ne_nil : word ≠ []
  all : ∀ c ∈ word, classOf c = k

/-- A number, small letters, small letters behind one capital, or capitals. -/
inductive IsWord : List Char → Prop
  | number {word : List Char} (h : IsRun .digit word) : IsWord word
  | small {word : List Char} (h : IsRun .lower word) : IsWord word
  | titled {c : Char} {letters : List Char} (hc : classOf c = .upper) (h : IsRun .lower letters) :
      IsWord (c :: letters)
  | capitals {word : List Char} (h : IsRun .upper word) : IsWord word

/-- The forms of a word that a search tries. -/
inductive WordForm
  | acronym
  | small
  | capitals
  | number
  deriving Repr, DecidableEq

namespace WordForm

/-- The turn in which a form is tried. -/
def rank : WordForm → Nat
  | .acronym => 0
  | .small => 1
  | .capitals => 2
  | .number => 3

/-- A word has the form in front of the rest of the text. An acronym is made of capitals, and behind
it stands one more capital with a small letter; small letters may have a capital in front. -/
def Fits : WordForm → List Char → List Char → Prop
  | .acronym, word, rest =>
    IsRun .upper word ∧ ∃ c d more, rest = c :: d :: more ∧ classOf c = .upper ∧ classOf d = .lower
  | .small, word, _ =>
    IsRun .lower word ∨ ∃ c letters, word = c :: letters ∧ classOf c = .upper ∧ IsRun .lower letters
  | .capitals, word, _ => IsRun .upper word
  | .number, word, _ => IsRun .digit word

end WordForm

/-- The word that a search takes at the front of a text. -/
structure Found (form : WordForm) (word rest : List Char) : Prop where
  fits : form.Fits word rest
  first : ∀ (other : WordForm) (w r : List Char), w ++ r = word ++ rest → other.Fits w r →
    form.rank ≤ other.rank
  longest : ∀ w r, w ++ r = word ++ rest → form.Fits w r → w.length ≤ word.length

/-- A search through a text, with the words that it takes. -/
inductive Splits : List Char → List (List Char) → Prop
  | nil : Splits [] []
  | skip {c : Char} {cs : List Char} {words : List (List Char)}
      (h : ∀ form w r, w ++ r = c :: cs → ¬ WordForm.Fits form w r) (hrest : Splits cs words) :
      Splits (c :: cs) words
  | take {form : WordForm} {text word rest : List Char} {words : List (List Char)}
      (htext : word ++ rest = text) (h : Found form word rest) (hrest : Splits rest words) :
      Splits text (word :: words)

theorem IsRun.exists_cons {k : LetterClass} {word : List Char} (h : IsRun k word) :
    ∃ c cs, word = c :: cs ∧ classOf c = k := by
  obtain ⟨c, cs, rfl⟩ := List.exists_cons_of_ne_nil h.ne_nil
  exact ⟨c, cs, rfl, h.all c List.mem_cons_self⟩

theorem IsRun.head {k : LetterClass} {w r cs : List Char} {c : Char} (h : IsRun k w)
    (htext : w ++ r = c :: cs) : classOf c = k := by
  obtain ⟨d, ds, rfl, hd⟩ := h.exists_cons
  obtain ⟨rfl, -⟩ := List.cons.inj htext
  exact hd

theorem IsRun.concat {k : LetterClass} {word : List Char} (h : IsRun k word) {c : Char}
    (hc : classOf c = k) : IsRun k (word ++ [c]) := by
  refine ⟨by simp, fun d hd => ?_⟩
  rcases List.mem_append.1 hd with hd | hd
  · exact h.all d hd
  · rw [List.mem_singleton.1 hd, hc]

/-- No run goes past the place where a text goes on with another class. -/
theorem IsRun.length_le {k : LetterClass} {w r word rest : List Char} (h : IsRun k w)
    (htext : w ++ r = word ++ rest) (hrest : ∀ c ∈ rest.head?, classOf c ≠ k) :
    w.length ≤ word.length := by
  rcases List.append_eq_append_iff.1 htext with ⟨more, rfl, -⟩ | ⟨more, rfl, rfl⟩
  · simp
  · cases more with
    | nil => simp
    | cons c more => exact absurd (h.all c (by simp)) (hrest c rfl)

namespace WordForm

theorem Fits.ne_nil {form : WordForm} {word rest : List Char} (h : form.Fits word rest) :
    word ≠ [] := by
  cases form with
  | acronym => exact h.1.ne_nil
  | small =>
    rcases h with h | ⟨c, letters, rfl, -, -⟩
    · exact h.ne_nil
    · simp
  | capitals => exact IsRun.ne_nil h
  | number => exact IsRun.ne_nil h

/-- The form of a word shows in the first letter of the text. -/
theorem Fits.head {form : WordForm} {w r cs : List Char} {c : Char} (h : form.Fits w r)
    (htext : w ++ r = c :: cs) : match classOf c with
      | .upper => form ≠ .number
      | .lower => form = .small
      | .digit => form = .number
      | .other => False := by
  cases form with
  | acronym => simp [h.1.head htext]
  | small =>
    rcases h with h | ⟨d, letters, rfl, hd, -⟩
    · simp [h.head htext]
    · obtain ⟨rfl, -⟩ := List.cons.inj htext
      simp [hd]
  | capitals => simp [IsRun.head h htext]
  | number => simp [IsRun.head h htext]

/-- What fits has the form of a word. -/
theorem Fits.isWord {form : WordForm} {word rest : List Char} (h : form.Fits word rest) :
    IsWord word := by
  cases form with
  | acronym => exact .capitals h.1
  | small =>
    rcases h with h | ⟨c, letters, rfl, hc, h⟩
    · exact .small h
    · exact .titled hc h
  | capitals => exact .capitals h
  | number => exact .number h

theorem rank_injective : Function.Injective rank := by
  intro form other h
  cases form <;> cases other <;> simp_all [rank]

end WordForm

/-- A number that no digit follows. -/
theorem found_number {word rest : List Char} (h : IsRun .digit word)
    (hrest : ∀ c ∈ rest.head?, classOf c ≠ .digit) : Found .number word rest := by
  refine ⟨h, fun other w r htext hfits => ?_, fun w r htext hw => IsRun.length_le hw htext hrest⟩
  obtain ⟨c, cs, rfl, hc⟩ := h.exists_cons
  have hform := hfits.head htext
  simp only [hc] at hform
  rw [hform]

/-- Small letters that no small letter follows. -/
theorem found_small {word rest : List Char} (h : IsRun .lower word)
    (hrest : ∀ c ∈ rest.head?, classOf c ≠ .lower) : Found .small word rest := by
  obtain ⟨c, cs, rfl, hc⟩ := h.exists_cons
  refine ⟨.inl h, fun other w r htext hfits => ?_, fun w r htext hfits => ?_⟩
  · have hform := hfits.head htext
    simp only [hc] at hform
    rw [hform]
  · rcases hfits with hw | ⟨d, letters, rfl, hd, -⟩
    · exact hw.length_le htext hrest
    · obtain ⟨rfl, -⟩ := List.cons.inj htext
      simp [hc] at hd

/-- Where a small letter stands behind one capital, no acronym does. -/
theorem not_acronym_fits {c d : Char} {text : List Char} (hd : classOf d = .lower) :
    ∀ w r, w ++ r = c :: d :: text → ¬ WordForm.acronym.Fits w r := by
  rintro w r htext ⟨hw, x, y, more, rfl, hx, -⟩
  cases w with
  | nil => exact hw.ne_nil rfl
  | cons a w =>
    cases w with
    | nil =>
      -- the next capital would be the small letter
      simp only [List.cons_append, List.nil_append, List.cons.injEq] at htext
      rw [htext.2.1, hd] at hx
      cases hx
    | cons b w =>
      simp only [List.cons_append, List.cons.injEq] at htext
      have hb := hw.all b (by simp)
      rw [htext.2.1, hd] at hb
      cases hb

/-- Small letters behind one capital, with no small letter behind them. -/
theorem found_titled {c : Char} {letters rest : List Char} (hc : classOf c = .upper)
    (h : IsRun .lower letters) (hrest : ∀ d ∈ rest.head?, classOf d ≠ .lower) :
    Found .small (c :: letters) rest := by
  refine ⟨.inr ⟨c, letters, rfl, hc, h⟩, fun other w r htext hfits => ?_,
    fun w r htext hfits => ?_⟩
  · obtain ⟨d, ds, rfl, hd⟩ := h.exists_cons
    cases other with
    | acronym => exact absurd hfits (not_acronym_fits hd w r htext)
    | small | capitals | number => simp [WordForm.rank]
  · rcases hfits with hw | ⟨d, ds, rfl, -, hds⟩
    · simp [hw.head htext] at hc
    · have hle := hds.length_le (List.cons.inj htext).2 hrest
      simpa using hle

/-- Capitals in front of a capital with a small letter. -/
theorem found_acronym {word rest : List Char} {c d : Char} (h : IsRun .upper word)
    (hc : classOf c = .upper) (hd : classOf d = .lower) :
    Found .acronym word (c :: d :: rest) := by
  refine ⟨⟨h, c, d, rest, rfl, hc, hd⟩, fun _ _ _ _ _ => Nat.zero_le _, ?_⟩
  rintro w r htext ⟨hw, x, y, more, rfl, hx, -⟩
  -- with the capital behind it either word ends at a small letter
  have hends : (w ++ [x]) ++ y :: more = (word ++ [c]) ++ d :: rest := by simpa using htext
  have hle := (hw.concat hx).length_le hends (by simp [hd])
  simpa using hle

/-- Capitals that no letter follows. -/
theorem found_capitals {word rest : List Char} (h : IsRun .upper word)
    (hlower : ∀ c ∈ rest.head?, classOf c ≠ .lower)
    (hupper : ∀ c ∈ rest.head?, classOf c ≠ .upper) : Found .capitals word rest := by
  -- no small letter stands behind some of the capitals, so neither other form of letters fits
  have hbehind : ∀ w d r, w ++ d :: r = word ++ rest → IsRun .upper w → classOf d ≠ .lower := by
    intro w d r htext hw
    rcases List.append_eq_append_iff.1 htext with ⟨more, rfl, hmore⟩ | ⟨more, rfl, rfl⟩
    · cases more with
      | nil => exact hlower d (by rw [← List.nil_append rest, ← hmore]; rfl)
      | cons e more =>
        obtain ⟨rfl, -⟩ := List.cons.inj hmore
        simp [h.all d (by simp)]
    · cases more with
      | nil => exact hlower d rfl
      | cons e more => exact absurd (hw.all e (by simp)) (hupper e rfl)
  refine ⟨h, fun other w r htext hfits => ?_, fun w r htext hw => IsRun.length_le hw htext hupper⟩
  cases other with
  | acronym =>
    obtain ⟨hw, x, y, more, rfl, hx, hy⟩ := hfits
    exact absurd hy (hbehind (w ++ [x]) y more (by simpa using htext) (hw.concat hx))
  | small =>
    rcases hfits with hw | ⟨c, letters, rfl, hc, hletters⟩
    · obtain ⟨c, cs, rfl, hc⟩ := h.exists_cons
      simp [hw.head htext] at hc
    · obtain ⟨d, ds, rfl, hd⟩ := hletters.exists_cons
      exact absurd hd (hbehind [c] d (ds ++ r) htext ⟨by simp, by simpa using hc⟩)
  | capitals | number => simp [WordForm.rank]

/-- Capitals in front of the next word or of a separator. -/
theorem exists_found_upper {word rest : List Char} (h : IsRun .upper word)
    (hrest : goesOnSmall rest = false) (hstarts : StartsWord .upper rest) :
    ∃ form, Found form word rest := by
  by_cases hupper : ∀ d ∈ rest.head?, classOf d ≠ .upper
  · exact ⟨.capitals, found_capitals h (goesOnSmall_eq_false_iff.1 hrest) hupper⟩
  · -- the last capital of a row belongs to the small letter behind it
    cases rest with
    | nil => simp at hupper
    | cons d rest =>
      have hd : classOf d = .upper := by simpa using hupper
      have hgoes := (hstarts d rest rfl).2 hd rfl
      cases rest with
      | nil => cases hgoes
      | cons e rest =>
        exact ⟨.acronym, found_acronym h hd (by simpa [goesOnSmall] using hgoes)⟩

/-- The word at the front of a text is the one that a search takes. -/
theorem exists_found_firstWord {c : Char} {cs : List Char} (h : classOf c ≠ .other) :
    ∃ form, Found form (firstWord (c :: cs))
      ((c :: cs).drop (firstWord (c :: cs)).length) := by
  by_cases hdigit : classOf c = .digit
  · have hword : firstWord (c :: cs) = run .digit (c :: cs) := by simp [firstWord, hdigit]
    rw [hword]
    refine ⟨.number, found_number ⟨?_, classOf_of_mem_run .digit _⟩
      (classOf_head?_drop_run .digit _)⟩
    rw [exists_run_cons hdigit]
    simp
  · have hcut := @cut_firstWord c cs h
    have htext := List.prefix_iff_eq_append.1 (firstWord_isPrefix (c :: cs))
    generalize firstWord (c :: cs) = word at hcut htext ⊢
    generalize (c :: cs).drop word.length = rest at hcut htext ⊢
    cases hcut with
    | digits hall =>
      obtain ⟨rfl, -⟩ := List.cons.inj htext
      exact absurd (hall _ List.mem_cons_self) hdigit
    | small hall hrest =>
      exact ⟨.small, found_small ⟨by simp, hall⟩ (goesOnSmall_eq_false_iff.1 hrest)⟩
    | titled hc hall hrest =>
      exact ⟨.small, found_titled hc ⟨by simp, hall⟩ (goesOnSmall_eq_false_iff.1 hrest)⟩
    | capitals hall hrest hstarts => exact exists_found_upper ⟨by simp, hall⟩ hrest hstarts

/-- Splitting into words is a search. -/
theorem splits_splitWords (cs : List Char) : Splits cs (splitWords cs) := by
  fun_induction splitWords cs with
  | case1 => exact .nil
  | case2 c cs hc ih =>
    refine .skip (fun form w r htext hfits => ?_) ih
    have hform := hfits.head htext
    simp [hc] at hform
  | case3 c cs hc word ih =>
    obtain ⟨form, hfound⟩ := @exists_found_firstWord c cs hc
    exact .take (List.prefix_iff_eq_append.1 (firstWord_isPrefix (c :: cs))) hfound ih

/-- A search has no choice at a place where it takes a word. -/
theorem Found.unique {form other : WordForm} {word rest word' rest' : List Char}
    (h : Found form word rest) (h' : Found other word' rest')
    (htext : word ++ rest = word' ++ rest') : word = word' ∧ rest = rest' := by
  obtain rfl : form = other := WordForm.rank_injective (Nat.le_antisymm
    (h.first other word' rest' htext.symm h'.fits) (h'.first form word rest htext h.fits))
  exact List.append_inj htext (Nat.le_antisymm
    (h'.longest word rest htext h.fits) (h.longest word' rest' htext.symm h'.fits))

/-- There is one way to split a text. -/
theorem Splits.unique {cs : List Char} {words words' : List (List Char)} (h : Splits cs words)
    (h' : Splits cs words') : words = words' := by
  induction h generalizing words' with
  | nil =>
    cases h' with
    | nil => rfl
    | take htext h hrest => exact absurd (List.append_eq_nil_iff.1 htext).1 h.fits.ne_nil
  | skip h hrest ih =>
    cases h' with
    | skip h' hrest' => exact ih hrest'
    | take htext h' hrest' => exact absurd h'.fits (h _ _ _ htext)
  | take htext h hrest ih =>
    cases h' with
    | nil => exact absurd (List.append_eq_nil_iff.1 htext).1 h.fits.ne_nil
    | skip h' hrest' => exact absurd h.fits (h' _ _ _ htext)
    | take htext' h' hrest' =>
      obtain ⟨rfl, rfl⟩ := h.unique h' (htext.trans htext'.symm)
      rw [ih hrest']

/-- A search takes words only. -/
theorem Splits.isWord {cs : List Char} {words : List (List Char)} (h : Splits cs words) :
    ∀ w ∈ words, IsWord w := by
  induction h with
  | nil => simp
  | skip h hrest ih => exact ih
  | take htext h hrest ih => exact List.forall_mem_cons.2 ⟨h.fits.isWord, ih⟩

theorem IsPlainWord.exists_found {word rest : List Char} (h : IsPlainWord word)
    (hrest : ∀ c ∈ rest.head?, classOf c = .other) : ∃ form, Found form word rest := by
  rcases h.kind with hword | hword
  · exact ⟨.small, found_small ⟨h.ne_nil, hword⟩ fun c hc => by simp [hrest c hc]⟩
  · exact ⟨.number, found_number ⟨h.ne_nil, hword⟩ fun c hc => by simp [hrest c hc]⟩

/-- Hyphens between plain words are where a search cuts them. -/
theorem splits_intercalate {words : List (List Char)} (h : ∀ w ∈ words, IsPlainWord w) :
    Splits (List.intercalate ['-'] words) words := by
  induction words with
  | nil => exact .nil
  | cons w words ih =>
    obtain ⟨hw, hwords⟩ := List.forall_mem_cons.1 h
    cases words with
    | nil =>
      obtain ⟨form, hfound⟩ := @IsPlainWord.exists_found w [] hw (by simp)
      exact .take (by simp [List.intercalate]) hfound .nil
    | cons v words =>
      have hhyphen : ∀ c ∈ ('-' :: List.intercalate ['-'] (v :: words)).head?,
          classOf c = .other := by
        simp only [List.head?_cons, Option.mem_some_iff]
        rintro _ rfl
        decide
      obtain ⟨form, hfound⟩ := hw.exists_found hhyphen
      exact .take (by simp [List.intercalate_cons_cons]) hfound
        (.skip (fun form w r htext hfits => hfits.head htext) (ih hwords))

theorem IsPlainWord.lowered_eq {word : List Char} (h : IsPlainWord word) : lowered word = word := by
  refine map_toLower_eq_self fun c hc => ?_
  rcases h.kind with hword | hword <;> simp [hword c hc]

/-- A text that is plain words with hyphens between them is in `get-order-list` style already. -/
theorem kebabChars_intercalate {words : List (List Char)} (h : ∀ w ∈ words, IsPlainWord w) :
    kebabChars (List.intercalate ['-'] words) = List.intercalate ['-'] words := by
  have hsplit := (splits_splitWords _).unique (splits_intercalate h)
  rw [kebabChars, hsplit, List.map_congr_left fun w hw => (h w hw).lowered_eq, List.map_id']

/-- **Words of a text.** A text is split as a search for the forms of words does it, and in no other
way. The words are its ASCII letters and digits in their order, and each of them is a number, small
letters, small letters behind one capital, or capitals. In `get-order-list` style a text is words of
small letters or of digits with single hyphens between them, or nothing, and a text of that style
stays as it is. -/
theorem splits_iff_and_flatten_and_isWord_and_kebab_kebab (s : String) :
    (∀ words, Splits s.toList words ↔ words = splitWords s.toList) ∧
      (splitWords s.toList).flatten = s.toList.filter Char.isAlphanum ∧
      (∀ w ∈ splitWords s.toList, IsWord w) ∧
      (∃ words, (∀ w ∈ words, IsPlainWord w) ∧
        (kebab s).toList = List.intercalate ['-'] words) ∧
      kebab (kebab s) = kebab s := by
  have hsplits := splits_splitWords s.toList
  have hplain := isPlainWord_of_mem_map_lowered s.toList
  refine ⟨fun words => ⟨fun h => h.unique hsplits, fun h => h ▸ hsplits⟩, ?_, hsplits.isWord,
    ⟨_, hplain, String.toList_ofList⟩, ?_⟩
  · rw [splitWords_flatten]
    exact List.filter_congr fun c _ => isWordChar_eq_isAlphanum c
  · rw [kebab, kebab, String.toList_ofList]
    exact congrArg String.ofList (kebabChars_intercalate hplain)

example : splitWords "XMLHttp2Request-APIv1".toList =
    ["XML", "Http", "2", "Request", "AP", "Iv", "1"].map String.toList := by
  decide +kernel

end Naming
end ApiScribe
