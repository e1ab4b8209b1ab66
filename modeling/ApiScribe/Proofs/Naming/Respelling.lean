import ApiScribe.Proofs.Naming.Words

/-! Words joined again, in one pass. Whether a letter of a text is a capital in `GetOrderList` style
depends on its two neighbours only, so joining the words of a name changes the name no further than
it drops underscores and makes capitals small that stand in a row. -/
namespace ApiScribe
namespace Naming

/-- The classes of letters. -/
def LetterClass.isLetter : LetterClass → Bool
  | .upper | .lower => true
  | .digit | .other => false

/-- Whether a text goes on with a small letter. -/
def goesOnSmall (cs : List Char) : Bool := cs.head?.any fun c => classOf c = .lower

/-- A text joined in `GetOrderList` style, read on behind a character of the given class. A small
letter starts a word unless a letter stands before it, a capital unless a capital stands before it
and no small letter behind it. -/
def joinedFrom (before : LetterClass) : List Char → List Char
  | [] => []
  | c :: cs =>
    match classOf c with
    | .other => joinedFrom .other cs
    | .digit => c :: joinedFrom .digit cs
    | .lower => (if before.isLetter then c else c.toUpper) :: joinedFrom .lower cs
    | .upper =>
      (if before = .upper && !goesOnSmall cs then c.toLower else c) :: joinedFrom .upper cs

theorem classOf_eq_upper_iff (c : Char) : classOf c = .upper ↔ 65 ≤ c.toNat ∧ c.toNat ≤ 90 := by
  rw [← isUpper_iff]
  unfold classOf
  cases c.isUpper <;> cases c.isLower <;> cases c.isDigit <;> simp

theorem classOf_eq_lower_iff (c : Char) : classOf c = .lower ↔ 97 ≤ c.toNat ∧ c.toNat ≤ 122 := by
  have hupper := isUpper_iff c
  rw [← isLower_iff]
  unfold classOf
  cases hu : c.isUpper
  · cases c.isLower <;> cases c.isDigit <;> simp
  · have hlower : ¬ c.isLower = true := by
      rw [isLower_iff]
      rw [hu] at hupper
      have := hupper.1 rfl
      omega
    simp [hlower]

theorem classOf_eq_digit_iff (c : Char) : classOf c = .digit ↔ 48 ≤ c.toNat ∧ c.toNat ≤ 57 := by
  have hupper := isUpper_iff c
  have hlower := isLower_iff c
  have hdigit := isDigit_iff c
  unfold classOf
  split
  · next h =>
    have := hupper.1 h
    simp only [reduceCtorEq, false_iff]
    omega
  · split
    · next h =>
      have := hlower.1 h
      simp only [reduceCtorEq, false_iff]
      omega
    · split
      · next h => simpa using hdigit.1 h
      · next h =>
        simp only [reduceCtorEq, false_iff]
        exact fun hc => h (hdigit.2 hc)

theorem toLower_of_not_upper {c : Char} (h : classOf c ≠ .upper) : c.toLower = c := by
  rw [ne_eq, classOf_eq_upper_iff] at h
  have hn := toNat_toLower c
  rw [if_neg h] at hn
  exact Char.toNat_inj.1 hn

theorem toUpper_of_not_lower {c : Char} (h : classOf c ≠ .lower) : c.toUpper = c := by
  rw [ne_eq, classOf_eq_lower_iff] at h
  have hn := toNat_toUpper c
  rw [if_neg h] at hn
  exact Char.toNat_inj.1 hn

theorem classOf_toLower {c : Char} (h : classOf c = .upper) : classOf c.toLower = .lower := by
  rw [classOf_eq_upper_iff] at h
  rw [classOf_eq_lower_iff, toNat_toLower, if_pos h]
  omega

theorem classOf_toUpper {c : Char} (h : classOf c = .lower) : classOf c.toUpper = .upper := by
  rw [classOf_eq_lower_iff] at h
  rw [classOf_eq_upper_iff, toNat_toUpper, if_pos h]
  omega

/-- The text starts a word, or nothing, behind a character of the given class. -/
def StartsWord (before : LetterClass) (cs : List Char) : Prop :=
  ∀ c rest, cs = c :: rest → (classOf c = .lower → before.isLetter = false) ∧
    (classOf c = .upper → before = .upper → goesOnSmall rest = true)

theorem startsWord_of_not_isLetter {before : LetterClass} (h : before.isLetter = false)
    (cs : List Char) : StartsWord before cs := by
  intro c rest _
  refine ⟨fun _ => h, fun _ hb => ?_⟩
  rw [hb] at h
  cases h

theorem goesOnSmall_eq_false_iff {cs : List Char} :
    goesOnSmall cs = false ↔ ∀ c ∈ cs.head?, classOf c ≠ .lower := by
  cases cs <;> simp [goesOnSmall]

theorem startsWord_of_not_small {cs : List Char} (h : goesOnSmall cs = false) :
    StartsWord .lower cs := by
  rintro c rest rfl
  exact ⟨fun hc => absurd hc (goesOnSmall_eq_false_iff.1 h c rfl), fun _ hb => by cases hb⟩

theorem drop_run (k : LetterClass) (cs : List Char) :
    cs.drop (run k cs).length = cs.dropWhile (classOf · = k) := by
  have hleft : (run k cs ++ cs.dropWhile (classOf · = k)).drop (run k cs).length =
      cs.dropWhile (classOf · = k) := List.drop_left
  rwa [show run k cs ++ cs.dropWhile (classOf · = k) = cs from
    List.takeWhile_append_dropWhile] at hleft

theorem run_append_drop (k : LetterClass) (cs : List Char) :
    run k cs ++ cs.drop (run k cs).length = cs := by
  rw [drop_run]
  exact List.takeWhile_append_dropWhile

theorem classOf_of_mem_run (k : LetterClass) (cs : List Char) :
    ∀ c ∈ run k cs, classOf c = k :=
  fun _ hc => by simpa using List.mem_takeWhile_imp hc

/-- Behind a whole run of one class the text goes on with another class. -/
theorem classOf_head?_drop_run (k : LetterClass) (cs : List Char) :
    ∀ c ∈ (cs.drop (run k cs).length).head?, classOf c ≠ k := by
  intro c hc
  rw [drop_run] at hc
  have hnot := List.head?_dropWhile_not (fun d => decide (classOf d = k)) cs
  rw [Option.mem_def.1 hc] at hnot
  simpa using hnot

/-- A text as the word at its front and what follows it. The word is a number, or small letters
that may have a capital in front, or capitals that no small letter follows. -/
inductive Cut : List Char → List Char → Prop
  | digits {c : Char} {word rest : List Char} (h : ∀ d ∈ c :: word, classOf d = .digit) :
      Cut (c :: word) rest
  | small {c : Char} {word rest : List Char} (h : ∀ d ∈ c :: word, classOf d = .lower)
      (hrest : goesOnSmall rest = false) : Cut (c :: word) rest
  | titled {c d : Char} {word rest : List Char} (hc : classOf c = .upper)
      (h : ∀ e ∈ d :: word, classOf e = .lower) (hrest : goesOnSmall rest = false) :
      Cut (c :: d :: word) rest
  | capitals {c : Char} {word rest : List Char} (h : ∀ d ∈ c :: word, classOf d = .upper)
      (hrest : goesOnSmall rest = false) (hstarts : StartsWord .upper rest) : Cut (c :: word) rest

theorem exists_run_cons {k : LetterClass} {c : Char} (h : classOf c = k) (cs : List Char) :
    run k (c :: cs) = c :: run k cs := by
  simp [run, h]

/-- In front of a small letter the last capital of several belongs to the next word. -/
theorem cut_capitals {capitals : List Char} {d : Char}
    (hcapitals : ∀ c ∈ capitals, classOf c = .upper) (hd : classOf d = .lower)
    (hmore : 1 < capitals.length) (rest : List Char) :
    Cut (capitals.take (capitals.length - 1))
      ((capitals ++ d :: rest).drop (capitals.take (capitals.length - 1)).length) := by
  obtain ⟨front, last, rfl⟩ : ∃ front last, capitals = front ++ [last] :=
    ⟨_, _, (List.dropLast_concat_getLast (List.ne_nil_of_length_pos (by omega))).symm⟩
  have hlast : classOf last = .upper := hcapitals last (by simp)
  have hlen : (front ++ [last]).length - 1 = front.length := by simp
  rw [hlen, List.take_left, List.append_assoc, List.drop_left]
  cases front with
  | nil => simp at hmore
  | cons c front =>
    refine .capitals (fun x hx => hcapitals x (List.mem_append_left _ hx)) ?_ ?_
    · simp [goesOnSmall, hlast]
    · intro x _ hx
      cases hx
      refine ⟨fun hlow => ?_, fun _ _ => by simp [goesOnSmall, hd]⟩
      rw [hlast] at hlow
      cases hlow

theorem cut_firstWord {c : Char} {cs : List Char} (h : classOf c ≠ .other) :
    Cut (firstWord (c :: cs)) ((c :: cs).drop (firstWord (c :: cs)).length) := by
  have hmem := fun k => classOf_of_mem_run k (c :: cs)
  have hend := fun k => classOf_head?_drop_run k (c :: cs)
  simp only [firstWord]
  split
  · exact absurd ‹_› h
  · next hc =>
    specialize hmem .digit
    rw [exists_run_cons hc] at hmem ⊢
    exact .digits hmem
  · next hc =>
    specialize hmem .lower
    specialize hend .lower
    rw [exists_run_cons hc] at hmem hend ⊢
    exact .small hmem (goesOnSmall_eq_false_iff.2 hend)
  · next hc =>
    specialize hmem .upper
    specialize hend .upper
    split
    · next hnil =>
      rw [exists_run_cons hc] at hmem hnil ⊢
      rw [hnil]
      exact .capitals hmem rfl (fun _ _ h => by cases h)
    · next d rest hrest =>
      split
      · next hd =>
        split
        · next hone =>
          rw [hone, List.drop_one, List.tail_cons] at hrest
          have hlow := classOf_of_mem_run .lower cs
          have hstop := goesOnSmall_eq_false_iff.2 (classOf_head?_drop_run .lower cs)
          rw [List.drop_one, List.tail_cons, List.length_cons, List.drop_succ_cons]
          rw [hrest, exists_run_cons hd] at hlow hstop ⊢
          exact .titled hc hlow hstop
        · next hmore =>
          have hpos : 0 < (run .upper (c :: cs)).length := by simp [exists_run_cons hc]
          have htext := run_append_drop .upper (c :: cs)
          have hcut := cut_capitals hmem hd (by omega) rest
          rwa [← hrest, htext] at hcut
      · next hd =>
        rw [exists_run_cons hc] at hmem hrest hend ⊢
        rw [hrest] at hend ⊢
        refine .capitals hmem (goesOnSmall_eq_false_iff.2 (by simpa using hd)) ?_
        intro e _ he
        cases he
        exact ⟨fun hlow => absurd hlow hd, fun hup => absurd hup (hend _ rfl)⟩

theorem joinedFrom_digits {word : List Char} (h : ∀ c ∈ word, classOf c = .digit)
    (rest : List Char) : joinedFrom .digit (word ++ rest) = word ++ joinedFrom .digit rest := by
  induction word with
  | nil => rfl
  | cons c word ih =>
    simp only [List.cons_append, joinedFrom, h c List.mem_cons_self,
      ih fun d hd => h d (List.mem_cons_of_mem c hd)]

theorem joinedFrom_small {word : List Char} (h : ∀ c ∈ word, classOf c = .lower)
    (rest : List Char) : joinedFrom .lower (word ++ rest) = word ++ joinedFrom .lower rest := by
  induction word with
  | nil => rfl
  | cons c word ih =>
    simp [joinedFrom, h c List.mem_cons_self, ih fun d hd => h d (List.mem_cons_of_mem c hd),
      LetterClass.isLetter]

/-- Capitals behind a capital become small if no small letter follows them all. -/
theorem joinedFrom_capitals {word : List Char} (h : ∀ c ∈ word, classOf c = .upper)
    {rest : List Char} (hrest : goesOnSmall rest = false) :
    joinedFrom .upper (word ++ rest) = word.map Char.toLower ++ joinedFrom .upper rest := by
  induction word with
  | nil => rfl
  | cons c word ih =>
    have hword := fun d hd => h d (List.mem_cons_of_mem c hd)
    have hsmall : goesOnSmall (word ++ rest) = false := by
      cases word with
      | nil => exact hrest
      | cons d word => simp [goesOnSmall, hword d List.mem_cons_self]
    simp [joinedFrom, h c List.mem_cons_self, hsmall, ih hword]

theorem map_toLower_eq_self {word : List Char} (h : ∀ c ∈ word, classOf c ≠ .upper) :
    word.map Char.toLower = word :=
  (List.map_congr_left fun c hc => toLower_of_not_upper (h c hc)).trans (List.map_id word)

/-- A word in front is capitalized, and the next word starts behind it. -/
theorem Cut.joinedFrom_eq {before : LetterClass} {word rest : List Char} (h : Cut word rest)
    (hstarts : StartsWord before (word ++ rest)) : ∃ behind, StartsWord behind rest ∧
      joinedFrom before (word ++ rest) = capitalize word ++ joinedFrom behind rest := by
  cases h with
  | @digits c word _ h =>
    have hc := h c List.mem_cons_self
    have hword := fun d hd => h d (List.mem_cons_of_mem c hd)
    refine ⟨.digit, startsWord_of_not_isLetter rfl rest, ?_⟩
    rw [capitalize, toUpper_of_not_lower (by simp [hc]),
      map_toLower_eq_self fun d hd => by simp [hword d hd]]
    simp [joinedFrom, hc, joinedFrom_digits hword]
  | @small c word _ h hrest =>
    have hc := h c List.mem_cons_self
    have hword := fun d hd => h d (List.mem_cons_of_mem c hd)
    have hbefore := (hstarts c _ rfl).1 hc
    refine ⟨.lower, startsWord_of_not_small hrest, ?_⟩
    rw [capitalize, map_toLower_eq_self fun d hd => by simp [hword d hd]]
    simp [joinedFrom, hc, hbefore, joinedFrom_small hword]
  | @titled c d word _ hc h hrest =>
    have hd := h d List.mem_cons_self
    have hgoes : goesOnSmall (d :: (word ++ rest)) = true := by simp [goesOnSmall, hd]
    refine ⟨.lower, startsWord_of_not_small hrest, ?_⟩
    rw [capitalize, toUpper_of_not_lower (by simp [hc]),
      map_toLower_eq_self fun e he => by simp [h e he]]
    simp [joinedFrom, hc, hd, hgoes, LetterClass.isLetter,
      joinedFrom_small fun e he => h e (List.mem_cons_of_mem d he)]
  | @capitals c word _ h hrest hnext =>
    have hc := h c List.mem_cons_self
    have hword := fun d hd => h d (List.mem_cons_of_mem c hd)
    have hkept : before = .upper → goesOnSmall (word ++ rest) = true := (hstarts c _ rfl).2 hc
    refine ⟨.upper, hnext, ?_⟩
    rw [capitalize, toUpper_of_not_lower (by simp [hc]), List.cons_append, List.cons_append,
      joinedFrom]
    simp only [hc]
    rw [joinedFrom_capitals hword hrest, if_neg]
    simpa using hkept

/-- Splitting a text into words and joining them is the same as one pass over it. -/
theorem flatMap_capitalize_splitWords (cs : List Char) :
    ∀ before, StartsWord before cs → (splitWords cs).flatMap capitalize = joinedFrom before cs := by
  fun_induction splitWords cs with
  | case1 => intro before _; rfl
  | case2 c cs hc ih =>
    intro before _
    rw [ih .other (startsWord_of_not_isLetter rfl cs), joinedFrom]
    simp [hc]
  | case3 c cs hc word ih =>
    intro before hstarts
    have htext : word ++ (c :: cs).drop word.length = c :: cs :=
      List.prefix_iff_eq_append.1 (firstWord_isPrefix (c :: cs))
    rw [← htext] at hstarts
    obtain ⟨behind, hbehind, hjoined⟩ := (cut_firstWord hc).joinedFrom_eq hstarts
    rw [List.flatMap_cons, ih behind hbehind, ← hjoined]
    exact congrArg (joinedFrom before) htext

theorem pascalChars_eq_joinedFrom (cs : List Char) : pascalChars cs = joinedFrom .other cs :=
  flatMap_capitalize_splitWords cs .other (startsWord_of_not_isLetter rfl cs)

/-- Small letters stand behind letters only, and what is no letter or digit is an underscore. The
text stands behind a character of the given class. -/
def IsCased (before : LetterClass) : List Char → Prop
  | [] => True
  | c :: cs =>
    (classOf c = .lower → before.isLetter = true) ∧ (classOf c = .other → c = '_') ∧
      IsCased (classOf c) cs

theorem IsCased.congr {k k' : LetterClass} (hk : k.isLetter = k'.isLetter) {cs : List Char}
    (h : IsCased k cs) : IsCased k' cs := by
  cases cs with
  | nil => trivial
  | cons c cs => exact ⟨fun hc => hk ▸ h.1 hc, h.2⟩

theorem IsCased.append {k : LetterClass} {cs ds : List Char} (h : IsCased k cs)
    (hd : ∀ k, IsCased k ds) : IsCased k (cs ++ ds) := by
  induction cs generalizing k with
  | nil => exact hd k
  | cons c cs ih => exact ⟨h.1, h.2.1, ih h.2.2⟩

/-- What one pass writes has its small letters behind letters. -/
theorem isCased_joinedFrom {before k : LetterClass} (hk : before.isLetter = true → k.isLetter = true)
    (cs : List Char) : IsCased k (joinedFrom before cs) := by
  induction cs generalizing before k with
  | nil => trivial
  | cons c cs ih =>
    rw [joinedFrom]
    split
    · exact ih (by simp [LetterClass.isLetter])
    · next hc => exact ⟨by simp [hc], by simp [hc], ih (by simp [hc])⟩
    · next hc =>
      split
      · next hletter => exact ⟨fun _ => hk hletter, by simp [hc], ih (by simp [hc])⟩
      · have hup := classOf_toUpper hc
        exact ⟨by simp [hup], by simp [hup], ih (by simp [hup, LetterClass.isLetter])⟩
    · next hc =>
      split
      · next hbehind =>
        have hlow := classOf_toLower hc
        have hbefore : before = .upper := by simp_all
        exact ⟨fun _ => hk (by rw [hbefore]; rfl), by simp [hlow],
          ih (by simp [hlow, LetterClass.isLetter])⟩
      · exact ⟨by simp [hc], by simp [hc], ih (by simp [hc])⟩

theorem isCased_pascalChars (k : LetterClass) (cs : List Char) : IsCased k (pascalChars cs) := by
  rw [pascalChars_eq_joinedFrom]
  exact isCased_joinedFrom (by simp [LetterClass.isLetter]) cs

theorem ne_nil_of_mem_splitWords {w cs : List Char} (h : w ∈ splitWords cs) : w ≠ [] := by
  fun_induction splitWords cs with
  | case1 => cases h
  | case2 c cs hc ih => exact ih h
  | case3 c cs hc word ih =>
    rcases List.mem_cons.1 h with rfl | h
    · exact List.length_pos_iff.1 (firstWord_pos hc)
    · exact ih h

/-- The two styles differ in the first letter only. -/
theorem camelChars_cases (cs : List Char) : camelChars cs = [] ∨ ∃ (c : Char) (word : List Char),
    camelChars cs = c.toLower :: word ∧ pascalChars cs = c.toUpper :: word := by
  unfold camelChars pascalChars
  split
  · exact .inl rfl
  · next w ws hwords =>
    have hw : w ∈ splitWords cs := hwords ▸ List.mem_cons_self
    obtain ⟨c, word, rfl⟩ := List.exists_cons_of_ne_nil (ne_nil_of_mem_splitWords hw)
    exact .inr ⟨c, _, rfl, by rw [hwords]; rfl⟩

theorem isLetter_classOf_toUpper (c : Char) :
    (classOf c.toUpper).isLetter = (classOf c.toLower).isLetter := by
  cases hc : classOf c with
  | upper => rw [toUpper_of_not_lower (by simp [hc]), classOf_toLower hc, hc]; rfl
  | lower => rw [toLower_of_not_upper (by simp [hc]), classOf_toUpper hc, hc]; rfl
  | digit | other =>
    rw [toUpper_of_not_lower (by simp [hc]), toLower_of_not_upper (by simp [hc])]

/-- A name that starts with a small letter and has its other small letters behind letters, with no
sign but underscores. -/
def IsCamel (cs : List Char) : Prop :=
  ∃ c ds, cs = c :: ds ∧ classOf c = .lower ∧ IsCased .lower ds

theorem IsCamel.append {cs ds : List Char} (h : IsCamel cs) (hd : ∀ k, IsCased k ds) :
    IsCamel (cs ++ ds) := by
  obtain ⟨c, es, rfl, hc, hes⟩ := h
  exact ⟨c, es ++ ds, rfl, hc, hes.append hd⟩

/-- A text in `getOrderList` style starts with a digit, if it does not start as a name. -/
theorem isCamel_camelChars {cs : List Char} (hne : camelChars cs ≠ [])
    (hdigit : (camelChars cs).head?.any Char.isDigit = false) : IsCamel (camelChars cs) := by
  rcases camelChars_cases cs with h | ⟨c, word, hcamel, hpascal⟩
  · exact absurd h hne
  have hcased := isCased_pascalChars .lower cs
  have hword : isWordChar c.toLower = true :=
    isWordText_camelChars cs _ (hcamel ▸ List.mem_cons_self)
  rw [hpascal] at hcased
  rw [hcamel] at hdigit ⊢
  have hlow : classOf c.toLower = .lower := by
    have hnot : ¬ c.toLower.isDigit = true := by simpa using hdigit
    rw [isWordChar_iff, toNat_toLower] at hword
    rw [isDigit_iff, toNat_toLower] at hnot
    rw [classOf_eq_lower_iff, toNat_toLower]
    split at hword
    · rw [if_pos ‹_›]
      omega
    · rw [if_neg ‹_›] at hnot ⊢
      omega
  refine ⟨c.toLower, word, rfl, hlow, hcased.2.2.congr ?_⟩
  rw [isLetter_classOf_toUpper, hlow]

/-- A name with its underscores dropped and its capitals made small that stand behind a capital and
in front of no small letter. `behind` says whether a capital stands before the text. -/
def softenFrom (behind : Bool) : List Char → List Char
  | [] => []
  | c :: cs =>
    if c = '_' then softenFrom false cs
    else (if behind && classOf c = .upper && !goesOnSmall cs then c.toLower else c)
      :: softenFrom (classOf c = .upper) cs

/-- `softenFrom` on whole names. -/
def soften (s : String) : String := String.ofList (softenFrom false s.toList)

theorem joinedFrom_eq_softenFrom {k : LetterClass} {cs : List Char} (h : IsCased k cs) :
    joinedFrom k cs = softenFrom (k = .upper) cs := by
  induction cs generalizing k with
  | nil => rfl
  | cons c cs ih =>
    obtain ⟨hlower, hother, hcs⟩ := h
    have hrest := ih hcs
    have hsign : classOf c ≠ .other → c ≠ '_' := by
      rintro hc rfl
      exact hc (by decide)
    rw [joinedFrom, softenFrom]
    split
    · next hc =>
      rw [hc] at hrest
      simp [hother hc, hrest]
    · next hc =>
      rw [hc] at hrest
      simp [hsign (by simp [hc]), hc, hrest]
    · next hc =>
      rw [hc] at hrest
      simp [hsign (by simp [hc]), hc, hlower hc, hrest]
    · next hc =>
      rw [hc] at hrest
      simp [hsign (by simp [hc]), hc, hrest]

/-- In `GetOrderList` style a name is the softened name with a capital at its start. -/
theorem pascalChars_of_isCamel {c : Char} {cs : List Char} (hc : classOf c = .lower)
    (h : IsCased .lower cs) : pascalChars (c :: cs) = c.toUpper :: softenFrom false cs := by
  rw [pascalChars_eq_joinedFrom, joinedFrom]
  simp [hc, LetterClass.isLetter, joinedFrom_eq_softenFrom h]

/-- Two names are one in `GetOrderList` style if and only if they are one softened. -/
theorem pascal_eq_iff_soften_eq {s t : String} (hs : IsCamel s.toList) (ht : IsCamel t.toList) :
    pascal s = pascal t ↔ soften s = soften t := by
  obtain ⟨c, cs, hcs, hc, hs⟩ := hs
  obtain ⟨d, ds, hds, hd, ht⟩ := ht
  have hsoft : ∀ {e : Char} (es : List Char), classOf e = .lower →
      softenFrom false (e :: es) = e :: softenFrom false es := by
    intro e es he
    have hsign : e ≠ '_' := by
      rintro rfl
      exact absurd he (by decide)
    simp [softenFrom, hsign, he]
  rw [pascal, pascal, soften, soften, hcs, hds, pascalChars_of_isCamel hc hs,
    pascalChars_of_isCamel hd ht, hsoft cs hc, hsoft ds hd, String.ofList_inj, String.ofList_inj,
    List.cons.injEq, List.cons.injEq]
  refine and_congr_left fun _ => ⟨fun h => ?_, fun h => by rw [h]⟩
  rw [classOf_eq_lower_iff] at hc hd
  have hn := congrArg Char.toNat h
  rw [toNat_toUpper, toNat_toUpper, if_pos hc, if_pos hd] at hn
  exact Char.toNat_inj.1 (by omega)

end Naming
end ApiScribe
