import Mathlib.Data.List.Basic
import Mathlib.Data.List.TakeWhile
import ApiScribe.Json.Writer

/-! The texts of numbers. A number is read in front of anything that does not go on with it just as
it is read alone, and the text of an integer is read as the integer. -/
namespace ApiScribe
namespace Json

/-- A text that does not go on with a number in front of it. -/
def EndsNumber (rest : List Char) : Prop :=
  ∀ c ∈ rest.head?, c.isDigit = false ∧ c ≠ '.' ∧ c ≠ 'e' ∧ c ≠ 'E'

theorem endsNumber_nil : EndsNumber [] := by simp [EndsNumber]

theorem endsNumber_cons {c : Char} (hdigit : c.isDigit = false) (hpoint : c ≠ '.') (he : c ≠ 'e')
    (hE : c ≠ 'E') (rest : List Char) : EndsNumber (c :: rest) := by
  simp [EndsNumber, hdigit, hpoint, he, hE]

variable {rest : List Char}

theorem takeWhile_isDigit_append (h : EndsNumber rest) (cs : List Char) :
    (cs ++ rest).takeWhile Char.isDigit = cs.takeWhile Char.isDigit := by
  induction cs with
  | nil =>
    cases rest with
    | nil => rfl
    | cons c rest => simp [(h c rfl).1]
  | cons c cs ih => cases hc : c.isDigit <;> simp [hc, ih]

theorem dropWhile_isDigit_append (h : EndsNumber rest) (cs : List Char) :
    (cs ++ rest).dropWhile Char.isDigit = cs.dropWhile Char.isDigit ++ rest := by
  induction cs with
  | nil =>
    cases rest with
    | nil => rfl
    | cons c rest => simp [(h c rfl).1]
  | cons c cs ih => cases hc : c.isDigit <;> simp [hc, ih]

/-- The sign and the digits of an exponent, and what follows them. -/
def exponentDigits : List Char → Bool × List Char
  | '-' :: ds => (true, ds)
  | '+' :: ds => (false, ds)
  | ds => (false, ds)

theorem exponentDigits_append {cs : List Char} (hne : cs ≠ []) (rest : List Char) :
    exponentDigits (cs ++ rest) = ((exponentDigits cs).1, (exponentDigits cs).2 ++ rest) := by
  obtain ⟨c, ds, rfl⟩ := List.exists_cons_of_ne_nil hne
  rw [List.cons_append]
  unfold exponentDigits
  split <;> split <;> simp_all

theorem exponent_cons (e : Char) (cs : List Char) : exponent (e :: cs) =
    if e = 'e' ∨ e = 'E' then
      if (exponentDigits cs).2.takeWhile Char.isDigit = [] then (none, e :: cs)
      else
        (some (if (exponentDigits cs).1
          then -(digitsValue ((exponentDigits cs).2.takeWhile Char.isDigit) : Int)
          else digitsValue ((exponentDigits cs).2.takeWhile Char.isDigit)),
          (exponentDigits cs).2.dropWhile Char.isDigit)
    else (none, e :: cs) := by
  have hmark : (e == 'e' || e == 'E') = true ↔ e = 'e' ∨ e = 'E' := by simp
  exact if_congr hmark (if_congr List.isEmpty_iff rfl rfl) rfl

/-- An exponent that is all of a text is read in front of what ends a number. -/
theorem exponent_append {cs : List Char} (hall : (exponent cs).2 = []) (h : EndsNumber rest) :
    exponent (cs ++ rest) = ((exponent cs).1, rest) := by
  cases cs with
  | nil =>
    cases rest with
    | nil => rfl
    | cons c rest => simp [exponent, (h c rfl).2.2]
  | cons e more =>
    rw [List.cons_append]
    rw [exponent_cons] at hall ⊢
    split at hall
    · rename_i he
      split at hall
      · exact absurd hall (List.cons_ne_nil e more)
      · rename_i hdigits
        have hne : more ≠ [] := fun heq => hdigits (by rw [heq]; rfl)
        simp only [exponent_cons, exponentDigits_append hne, takeWhile_isDigit_append h,
          dropWhile_isDigit_append h, if_pos he, if_neg hdigits] at hall ⊢
        rw [hall, List.nil_append]
    · exact absurd hall (List.cons_ne_nil e more)

theorem numberTail_point (more : List Char) : numberTail ('.' :: more) =
    if more.takeWhile Char.isDigit = [] then ⟨[], none, '.' :: more⟩
    else ⟨more.takeWhile Char.isDigit, (exponent (more.dropWhile Char.isDigit)).1,
      (exponent (more.dropWhile Char.isDigit)).2⟩ := by
  unfold numberTail
  simp only [List.isEmpty_iff]
  split
  · rfl
  · rfl

theorem numberTail_other {cs : List Char} (h : '.' ∉ cs.head?) :
    numberTail cs = ⟨[], (exponent cs).1, (exponent cs).2⟩ := by
  cases cs with
  | nil => rfl
  | cons c cs =>
    have hpoint : c ≠ '.' := fun heq => h (by simp [heq])
    simp [numberTail, hpoint]

/-- A fraction and an exponent that are all of a text are read in front of what ends a number. -/
theorem numberTail_append {cs : List Char} (hall : (numberTail cs).rest = [])
    (h : EndsNumber rest) :
    numberTail (cs ++ rest) = ⟨(numberTail cs).fraction, (numberTail cs).exponent, rest⟩ := by
  by_cases hpoint : '.' ∈ cs.head?
  · obtain ⟨more, rfl⟩ : ∃ more, cs = '.' :: more := by
      cases cs <;> simp_all
    rw [List.cons_append]
    rw [numberTail_point] at hall ⊢
    rw [numberTail_point, takeWhile_isDigit_append h, dropWhile_isDigit_append h]
    split at hall
    · exact absurd hall (List.cons_ne_nil '.' more)
    · rename_i hdigits
      simp only [if_neg hdigits] at hall ⊢
      rw [exponent_append hall h]
  · have hhead : '.' ∉ (cs ++ rest).head? := by
      cases cs with
      | nil => exact fun hmem => (h '.' hmem).2.1 rfl
      | cons c cs => exact hpoint
    rw [numberTail_other hpoint] at hall ⊢
    rw [numberTail_other hhead, exponent_append hall h]

/-- The integer digits in front of a text: a zero stands alone. -/
def leadingDigits (cs : List Char) : List Char :=
  match cs with
  | '0' :: _ => ['0']
  | _ => cs.takeWhile Char.isDigit

theorem leadingDigits_append (h : EndsNumber rest) (cs : List Char) :
    leadingDigits (cs ++ rest) = leadingDigits cs := by
  cases cs with
  | nil =>
    cases rest with
    | nil => rfl
    | cons c rest =>
      have hdigit := (h c rfl).1
      have hzero : c ≠ '0' := fun heq => by simp [heq] at hdigit
      simp [leadingDigits, hzero, hdigit]
  | cons c cs =>
    by_cases hzero : c = '0'
    · subst hzero
      rfl
    · have htake := takeWhile_isDigit_append h (c :: cs)
      rw [List.cons_append] at htake ⊢
      unfold leadingDigits
      split <;> simp_all

theorem leadingDigits_isPrefix (cs : List Char) : leadingDigits cs <+: cs := by
  unfold leadingDigits
  split
  · exact ⟨_, rfl⟩
  · exact List.takeWhile_prefix _

theorem number_eq (start : List Char) (negative : Bool) (cs : List Char) :
    number start negative cs =
      if leadingDigits cs = [] then stopAt .value start
      else
        let tail := numberTail (cs.drop (leadingDigits cs).length)
        if tail.fraction = [] ∧ tail.exponent = none then
          if mostDigits < (leadingDigits cs).length then
            stopAt (.tooManyDigits (leadingDigits cs).length) start
          else .ok (.int (if negative then -(digitsValue (leadingDigits cs) : Int)
            else digitsValue (leadingDigits cs)), tail.rest)
        else .ok (.float (Decimal.toFloat negative (digitsValue (leadingDigits cs ++ tail.fraction))
          (tail.exponent.getD 0 - tail.fraction.length)), tail.rest) := by
  have hwhole : ∀ tail : Tail, (tail.fraction.isEmpty && tail.exponent.isNone) = true ↔
      tail.fraction = [] ∧ tail.exponent = none := by simp
  exact if_congr List.isEmpty_iff rfl (if_congr (hwhole _) rfl rfl)

/-- A number that is all of a text is read in front of what ends a number. -/
theorem number_append {start : List Char} {negative : Bool} {cs : List Char} {v : Value}
    (hall : number start negative cs = .ok (v, [])) (h : EndsNumber rest) (start' : List Char) :
    number start' negative (cs ++ rest) = .ok (v, rest) := by
  rw [number_eq] at hall ⊢
  have hdrop : (cs ++ rest).drop (leadingDigits cs).length =
      cs.drop (leadingDigits cs).length ++ rest :=
    List.drop_append_of_le_length (leadingDigits_isPrefix cs).length_le
  rw [leadingDigits_append h, hdrop]
  split at hall
  · cases hall
  · rename_i hdigits
    have htail : (numberTail (cs.drop (leadingDigits cs).length)).rest = [] := by
      dsimp only at hall
      split at hall
      · split at hall
        · cases hall
        · injection hall with hall
          exact (Prod.mk.inj hall).2
      · injection hall with hall
        exact (Prod.mk.inj hall).2
    rw [if_neg hdigits, numberTail_append htail h]
    dsimp only at hall ⊢
    split at hall
    · rename_i hint
      rw [if_pos hint]
      split at hall
      · cases hall
      · rename_i hmost
        rw [if_neg hmost]
        injection hall with hall
        rw [(Prod.mk.inj hall).1]
    · rename_i hint
      rw [if_neg hint]
      injection hall with hall
      rw [(Prod.mk.inj hall).1]

theorem leadingDigits_ne_nil_of_number {start cs : List Char} {negative : Bool}
    {r : Value × List Char} (h : number start negative cs = .ok r) : leadingDigits cs ≠ [] := by
  intro hnone
  rw [number_eq, if_pos hnone] at h
  cases h

theorem exists_digit_of_leadingDigits {cs : List Char} (h : leadingDigits cs ≠ []) :
    ∃ c more, cs = c :: more ∧ c.isDigit = true := by
  cases cs with
  | nil => exact absurd rfl h
  | cons c more =>
    refine ⟨c, more, rfl, ?_⟩
    by_contra hdigit
    have hzero : c ≠ '0' := fun heq => hdigit (by simp [heq])
    simp [leadingDigits, hzero, hdigit] at h

/-- The text behind a minus sign. -/
def unsigned (cs : List Char) : List Char :=
  match cs with
  | '-' :: rest => rest
  | _ => cs

theorem atom_of_no_word {cs : List Char} (h : words.find? (fun w => w.1.isPrefixOf cs) = none) :
    atom cs = number cs (cs.head? == some '-') (unsigned cs) := by
  unfold atom
  rw [h]
  cases cs with
  | nil => rfl
  | cons c cs =>
    by_cases hc : c = '-'
    · subst hc
      rfl
    · have hsign : (c == '-') = false := beq_eq_false_iff_ne.2 hc
      simp [unsigned, hc, hsign]

/-- A word is read whatever follows it. -/
theorem atom_word {w : List Char × Value} (hw : w ∈ words) (rest : List Char) :
    atom (w.1 ++ rest) = .ok (w.2, rest) := by
  simp only [words, List.mem_cons, List.not_mem_nil, or_false] at hw
  rcases hw with rfl | rfl | rfl | rfl | rfl | rfl <;> rfl

/-- What is all of a text as an atom is a word, or a number. -/
theorem atom_cases {cs : List Char} {v : Value} (h : atom cs = .ok (v, [])) :
    (cs, v) ∈ words ∨
      number cs (cs.head? == some '-') (unsigned cs) = .ok (v, []) ∧
        ∃ c more, unsigned cs = c :: more ∧ c.isDigit = true := by
  cases hfind : words.find? (fun w => w.1.isPrefixOf cs) with
  | some w =>
    have hprefix := List.find?_some hfind
    obtain ⟨rest, hrest⟩ := List.isPrefixOf_iff_prefix.1 hprefix
    have hw := List.mem_of_find?_eq_some hfind
    rw [← hrest, atom_word hw rest] at h
    obtain ⟨hv, rfl⟩ := Prod.mk.inj (Except.ok.inj h)
    rw [List.append_nil] at hrest
    exact .inl (by rwa [← hrest, ← hv])
  | none =>
    rw [atom_of_no_word hfind] at h
    exact .inr ⟨h, exists_digit_of_leadingDigits (leadingDigits_ne_nil_of_number h)⟩

/-- A number is no word. -/
theorem find?_words_eq_none {cs more : List Char} {c : Char} (h : unsigned cs = c :: more)
    (hdigit : c.isDigit = true) : words.find? (fun w => w.1.isPrefixOf cs) = none := by
  have hne : ∀ d : Char, d.isDigit = false → c ≠ d := fun d hd heq => by simp [← heq, hdigit] at hd
  have hletters := And.intro (hne 'n' rfl) (And.intro (hne 't' rfl) (And.intro (hne 'f' rfl)
    (And.intro (hne 'N' rfl) (hne 'I' rfl))))
  unfold unsigned at h
  split at h
  · subst h
    simp [words, List.isPrefixOf, Ne.symm hletters.2.2.2.2]
  · subst h
    simp [words, List.isPrefixOf, Ne.symm hletters.1, Ne.symm hletters.2.1,
      Ne.symm hletters.2.2.1, Ne.symm hletters.2.2.2.1, Ne.symm hletters.2.2.2.2,
      Ne.symm (hne '-' rfl)]

theorem unsigned_append {cs : List Char} (h : cs ≠ []) (rest : List Char) :
    unsigned (cs ++ rest) = unsigned cs ++ rest := by
  obtain ⟨c, cs, rfl⟩ := List.exists_cons_of_ne_nil h
  rw [List.cons_append]
  unfold unsigned
  split <;> split <;> simp_all

/-- An atom that is all of a text is read in front of what ends a number. -/
theorem atom_append {cs : List Char} {v : Value} (hall : atom cs = .ok (v, []))
    (h : EndsNumber rest) : atom (cs ++ rest) = .ok (v, rest) := by
  rcases atom_cases hall with hw | ⟨hnumber, c, more, hunsigned, hdigit⟩
  · exact atom_word hw rest
  · have hne : cs ≠ [] := by
      rintro rfl
      cases hunsigned
    have hwhole : unsigned (cs ++ rest) = c :: (more ++ rest) := by
      rw [unsigned_append hne, hunsigned, List.cons_append]
    have hhead : (cs ++ rest).head? = cs.head? := List.head?_append_of_ne_nil cs hne
    rw [atom_of_no_word (find?_words_eq_none hwhole hdigit), unsigned_append hne, hhead]
    exact number_append hnumber h _

theorem head?_toDigits_ne_zero {m : Nat} (h : 0 < m) : (Nat.toDigits 10 m).head? ≠ some '0' := by
  induction m using Nat.strongRecOn with
  | ind m ih =>
    by_cases hlt : m < 10
    · rw [Nat.toDigits_of_lt_base hlt]
      simp only [List.head?_cons, ne_eq, Option.some.injEq, Nat.digitChar_eq_zero]
      omega
    · have hhigh : 0 < m / 10 := by omega
      rw [Nat.toDigits_of_base_le (by decide) (by omega),
        List.head?_append_of_ne_nil _ Nat.toDigits_ne_nil]
      exact ih _ (by omega) hhigh

theorem takeWhile_isDigit_toDigits (m : Nat) :
    (Nat.toDigits 10 m).takeWhile Char.isDigit = Nat.toDigits 10 m :=
  List.takeWhile_eq_self_iff.2 fun _ hc => Nat.isDigit_of_mem_toDigits (by decide) (by decide) hc

theorem leadingDigits_toDigits (m : Nat) :
    leadingDigits (Nat.toDigits 10 m) = Nat.toDigits 10 m := by
  by_cases hzero : m = 0
  · subst hzero
    rfl
  · have hhead := head?_toDigits_ne_zero (Nat.pos_of_ne_zero hzero)
    unfold leadingDigits
    split
    · rename_i heq
      exact absurd (by rw [heq]; rfl) hhead
    · exact takeWhile_isDigit_toDigits m

theorem length_toDigits_le {m most : Nat} (hmost : 0 < most) (h : m < Nat.pow 10 most) :
    (Nat.toDigits 10 m).length ≤ most :=
  (Nat.length_toDigits_le_iff (by decide) hmost).2 h

/-- The digits of a natural number that is written are read as the number, with its sign. -/
theorem number_toDigits {m : Nat} (h : m < Nat.pow 10 mostDigits) (start : List Char)
    (negative : Bool) :
    number start negative (Nat.toDigits 10 m) =
      .ok (.int (if negative then -(m : Int) else m), []) := by
  have hvalue : digitsValue (Nat.toDigits 10 m) = m := Nat.ofDigitChars_ten_toDigits
  have hlength : ¬ mostDigits < (Nat.toDigits 10 m).length :=
    Nat.not_lt.2 (length_toDigits_le (by decide) h)
  have htail : numberTail [] = ⟨[], none, []⟩ := numberTail_other (by simp)
  rw [number_eq, leadingDigits_toDigits, if_neg Nat.toDigits_ne_nil, List.drop_length, hvalue]
  simp only [htail, and_self, if_true, if_neg hlength]

theorem toList_intText (n : Int) : (intText n).toList =
    if 0 ≤ n then Nat.toDigits 10 n.natAbs else '-' :: Nat.toDigits 10 n.natAbs := by
  rw [intText, Int.toString_eq_repr, Int.repr_eq_if]
  split
  · have hnat : n.toNat = n.natAbs := by omega
    rw [Nat.toList_repr, hnat]
  · have hnat : (-n).toNat = n.natAbs := by omega
    rw [String.toList_append, Nat.toList_repr, hnat]
    rfl

theorem exists_digit_of_toDigits (m : Nat) :
    ∃ c more, Nat.toDigits 10 m = c :: more ∧ c.isDigit = true :=
  exists_digit_of_leadingDigits (by rw [leadingDigits_toDigits]; exact Nat.toDigits_ne_nil)

/-- The text of an integer that has one is read as the integer. -/
theorem atom_intText {n : Int} (h : isWritable n = true) :
    atom (intText n).toList = .ok (.int n, []) := by
  have hlimit : n.natAbs < Nat.pow 10 mostDigits := of_decide_eq_true h
  obtain ⟨d, ds, hdigits, hd⟩ := exists_digit_of_toDigits n.natAbs
  rw [toList_intText]
  split
  · rename_i hnonneg
    have hminus : d ≠ '-' := fun heq => by simp [heq] at hd
    have hunsigned : unsigned (Nat.toDigits 10 n.natAbs) = Nat.toDigits 10 n.natAbs := by
      simp [hdigits, unsigned, hminus]
    have hsign : ((Nat.toDigits 10 n.natAbs).head? == some '-') = false := by
      simp [hdigits, hminus]
    rw [atom_of_no_word (find?_words_eq_none (hunsigned.trans hdigits) hd), hunsigned, hsign,
      number_toDigits hlimit, if_neg Bool.false_ne_true, Int.natAbs_of_nonneg hnonneg]
  · rename_i hneg
    have hvalue : -(n.natAbs : Int) = n := by rw [Int.ofNat_natAbs_of_nonpos (by omega), Int.neg_neg]
    have hunsigned : unsigned ('-' :: Nat.toDigits 10 n.natAbs) = d :: ds := hdigits
    rw [atom_of_no_word (find?_words_eq_none hunsigned hd)]
    show number _ true (Nat.toDigits 10 n.natAbs) = _
    rw [number_toDigits hlimit, if_pos rfl, hvalue]

/-- The characters of words and numbers. -/
def isAtomChar (c : Char) : Bool := c.isAlphanum || ['-', '+', '.'].contains c

theorem isAtomChar_of_isDigit {c : Char} (h : c.isDigit = true) : isAtomChar c = true := by
  simp [isAtomChar, Char.isAlphanum, h]

theorem isGap_of_isAtomChar {c : Char} (h : isAtomChar c = true) : isGap c = false := by
  by_contra hgap
  simp only [isGap, Bool.or_eq_true, beq_iff_eq, Bool.not_eq_false] at hgap
  rcases hgap with ((rfl | rfl) | rfl) | rfl <;> simp [isAtomChar] at h

theorem isAtomChar_toDigits {m : Nat} : ∀ c ∈ Nat.toDigits 10 m, isAtomChar c = true :=
  fun _ hc => isAtomChar_of_isDigit (Nat.isDigit_of_mem_toDigits (by decide) (by decide) hc)

theorem isAtomChar_intText (n : Int) : ∀ c ∈ (intText n).toList, isAtomChar c = true := by
  rw [toList_intText]
  split
  · exact isAtomChar_toDigits
  · exact List.forall_mem_cons.2 ⟨rfl, isAtomChar_toDigits⟩

theorem isAtomChar_zeros (count : Nat) : ∀ c ∈ Decimal.zeros count, isAtomChar c = true :=
  fun _ hc => (List.eq_of_mem_replicate hc) ▸ rfl

theorem isAtomChar_padded (width n : Nat) : ∀ c ∈ Decimal.padded width n, isAtomChar c = true :=
  List.forall_mem_append.2 ⟨isAtomChar_zeros _, isAtomChar_toDigits⟩

theorem isAtomChar_positional (d : Decimal.Digits) :
    ∀ c ∈ Decimal.positional d, isAtomChar c = true := by
  have hdigits := isAtomChar_padded d.count d.digits
  unfold Decimal.positional
  dsimp only
  split
  · exact List.forall_mem_append.2 ⟨List.forall_mem_cons.2 ⟨rfl, List.forall_mem_cons.2
      ⟨rfl, isAtomChar_zeros _⟩⟩, hdigits⟩
  · split
    · exact List.forall_mem_append.2 ⟨List.forall_mem_append.2 ⟨hdigits, isAtomChar_zeros _⟩,
        List.all_eq_true.1 (by decide)⟩
    · exact List.forall_mem_append.2 ⟨fun c hc => hdigits c (List.mem_of_mem_take hc),
        List.forall_mem_cons.2 ⟨rfl, fun c hc => hdigits c (List.mem_of_mem_drop hc)⟩⟩

theorem isAtomChar_scientific (style : Decimal.Style) (d : Decimal.Digits) :
    ∀ c ∈ Decimal.scientific style d, isAtomChar c = true := by
  have hdigits := isAtomChar_padded d.count d.digits
  unfold Decimal.scientific
  dsimp only
  refine List.forall_mem_append.2 ⟨List.forall_mem_append.2 ⟨?_, List.forall_mem_cons.2 ⟨rfl, ?_⟩⟩,
    isAtomChar_padded _ _⟩
  · split
    · simp
    · simp_all
    · simp_all [isAtomChar]
  · split
    · simp [isAtomChar]
    · split <;> simp [isAtomChar]

theorem isAtomChar_floatText (f : Format) (x : Float) :
    ∀ c ∈ (f.floatText x).toList, isAtomChar c = true := by
  have hfinite : ∀ b, ∀ c ∈ f.numbers.finite b, isAtomChar c = true := by
    intro b
    have hbody : ∀ c ∈ (if b.significand = 0 then ['0', '.', '0'] else
        if f.numbers.above < b.shortest.point && b.shortest.point ≤ f.numbers.upTo
        then Decimal.positional b.shortest else Decimal.scientific f.numbers b.shortest),
        isAtomChar c = true := by
      split
      · simp [isAtomChar]
      · split
        · exact isAtomChar_positional _
        · exact isAtomChar_scientific _ _
    unfold Decimal.Style.finite
    dsimp only
    split
    · exact List.forall_mem_cons.2 ⟨rfl, hbody⟩
    · exact hbody
  unfold Format.floatText
  split
  · exact List.all_eq_true.1 (by decide)
  · unfold Decimal.Style.text
    split
    · rw [String.toList_ofList]
      exact hfinite _
    · exact List.all_eq_true.1 (by decide)
    · exact List.all_eq_true.1 (by decide)
    · exact List.all_eq_true.1 (by decide)

/-- Whether a text starts with a digit. -/
def startsDigit (cs : List Char) : Bool := cs.head?.any Char.isDigit

/-- Whether a text starts as a number does: with a digit, perhaps behind a minus sign. -/
def startsNumber (cs : List Char) : Bool := startsDigit (unsigned cs)

theorem startsDigit_append {cs : List Char} (h : startsDigit cs = true) (ds : List Char) :
    startsDigit (cs ++ ds) = true := by
  cases cs with
  | nil => cases h
  | cons c cs => exact h

theorem startsDigit_take {cs : List Char} (h : startsDigit cs = true) {n : Nat} (hn : 0 < n) :
    startsDigit (cs.take n) = true := by
  obtain ⟨n, rfl⟩ := Nat.exists_eq_add_of_lt hn
  cases cs with
  | nil => cases h
  | cons c cs => simpa [startsDigit] using h

theorem startsDigit_toDigits (n : Nat) : startsDigit (Nat.toDigits 10 n) = true := by
  obtain ⟨c, cs, hdigits, hc⟩ := exists_digit_of_toDigits n
  simpa [hdigits, startsDigit] using hc

theorem startsDigit_padded (width n : Nat) : startsDigit (Decimal.padded width n) = true := by
  unfold Decimal.padded Decimal.zeros
  dsimp only
  cases width - (Nat.toDigits 10 n).length with
  | zero => exact startsDigit_toDigits n
  | succ count => rfl

theorem startsDigit_positional (d : Decimal.Digits) :
    startsDigit (Decimal.positional d) = true := by
  have hdigits := startsDigit_padded d.count d.digits
  unfold Decimal.positional
  dsimp only
  split
  · rfl
  · next hpoint =>
    split
    · exact startsDigit_append (startsDigit_append hdigits _) _
    · exact startsDigit_append (startsDigit_take hdigits (by omega)) _

theorem startsDigit_scientific (style : Decimal.Style) (d : Decimal.Digits) :
    startsDigit (Decimal.scientific style d) = true := by
  have hdigits := startsDigit_padded d.count d.digits
  unfold Decimal.scientific
  dsimp only
  rw [List.append_assoc]
  refine startsDigit_append ?_ _
  split
  · next hnil =>
    rw [hnil] at hdigits
    cases hdigits
  · next hone => rwa [hone] at hdigits
  · next hmore => simpa [hmore, startsDigit] using hdigits

theorem startsNumber_of_startsDigit {cs : List Char} (h : startsDigit cs = true) :
    startsNumber cs = true := by
  unfold startsNumber unsigned
  split
  · cases h
  · exact h

/-- The text of a finite number starts as a number does. -/
theorem startsNumber_finite (style : Decimal.Style) (b : Decimal.Binary) :
    startsNumber (style.finite b) = true := by
  unfold Decimal.Style.finite
  dsimp only
  have hbody : startsDigit (if b.significand = 0 then ['0', '.', '0']
      else if style.above < b.shortest.point && b.shortest.point ≤ style.upTo
      then Decimal.positional b.shortest else Decimal.scientific style b.shortest) = true := by
    split
    · rfl
    · split
      · exact startsDigit_positional _
      · exact startsDigit_scientific _ _
  split
  · exact hbody
  · exact startsNumber_of_startsDigit hbody

theorem startsNumber_intText (n : Int) : startsNumber (intText n).toList = true := by
  have hdigits := startsDigit_toDigits n.natAbs
  rw [toList_intText]
  split
  · exact startsNumber_of_startsDigit hdigits
  · exact hdigits

theorem exponent_suffix (cs : List Char) : (exponent cs).2 <:+ cs := by
  cases cs with
  | nil => exact List.suffix_rfl
  | cons e more =>
    have hdigits : (exponentDigits more).2 <:+ more := by
      unfold exponentDigits
      split
      · exact List.suffix_cons _ _
      · exact List.suffix_cons _ _
      · exact List.suffix_rfl
    rw [exponent_cons]
    split
    · split
      · exact List.suffix_rfl
      · exact ((List.dropWhile_suffix _).trans hdigits).trans (List.suffix_cons e more)
    · exact List.suffix_rfl

theorem numberTail_suffix (cs : List Char) : (numberTail cs).rest <:+ cs := by
  by_cases hpoint : '.' ∈ cs.head?
  · obtain ⟨more, rfl⟩ : ∃ more, cs = '.' :: more := by
      cases cs <;> simp_all
    rw [numberTail_point]
    split
    · exact List.suffix_rfl
    · exact ((exponent_suffix _).trans (List.dropWhile_suffix _)).trans (List.suffix_cons '.' more)
  · rw [numberTail_other hpoint]
    exact exponent_suffix cs

theorem number_suffix {start cs rest : List Char} {negative : Bool} {v : Value}
    (h : number start negative cs = .ok (v, rest)) : rest <:+ cs := by
  have htail : (numberTail (cs.drop (leadingDigits cs).length)).rest <:+ cs :=
    (numberTail_suffix _).trans (List.drop_suffix _ cs)
  rw [number_eq] at h
  dsimp only at h
  split at h
  · cases h
  · split at h
    · split at h
      · cases h
      · exact (Prod.mk.inj (Except.ok.inj h)).2 ▸ htail
    · exact (Prod.mk.inj (Except.ok.inj h)).2 ▸ htail

/-- What is left behind an atom. -/
theorem atom_suffix {cs rest : List Char} {v : Value} (h : atom cs = .ok (v, rest)) :
    rest <:+ cs := by
  cases hfind : words.find? (fun w => w.1.isPrefixOf cs) with
  | some w =>
    unfold atom at h
    rw [hfind] at h
    exact (Prod.mk.inj (Except.ok.inj h)).2 ▸ List.drop_suffix _ cs
  | none =>
    rw [atom_of_no_word hfind] at h
    refine (number_suffix h).trans ?_
    unfold unsigned
    split
    · exact List.suffix_cons _ _
    · exact List.suffix_rfl

theorem value_of_startsAtom {cs : List Char} (h : ∀ c ∈ cs.head?, isAtomChar c = true)
    (fuel levels : Nat) : value (fuel + 1) levels cs = atom cs := by
  unfold value
  split <;> first | rfl | simp [isAtomChar] at h

/-- A text of atom characters that is read as a value is an atom, with nothing behind it. -/
theorem atom_of_read {s : String} {v : Value} (hchars : ∀ c ∈ s.toList, isAtomChar c = true)
    (h : read s = .ok v) : atom s.toList = .ok (v, []) := by
  have hgaps : ∀ cs, cs <:+ s.toList → skipGaps cs = cs := fun cs hcs =>
    List.dropWhile_eq_self_iff.2 fun hpos => by
      rw [isGap_of_isAtomChar (hchars _ (hcs.subset (List.getElem_mem hpos)))]
      exact Bool.false_ne_true
  have hread : readChars s.toList = .ok v := by
    unfold read at h
    cases hwhole : readChars s.toList with
    | ok u =>
      rw [hwhole] at h
      exact congrArg Except.ok (Except.ok.inj h)
    | error e =>
      rw [hwhole] at h
      cases h
  unfold readChars at hread
  split at hread
  · cases hread
  · rw [hgaps _ List.suffix_rfl, value_of_startsAtom
      (fun c hc => hchars c (List.mem_of_mem_head? hc))] at hread
    cases hatom : atom s.toList with
    | error e => rw [hatom] at hread; cases hread
    | ok r =>
      obtain ⟨u, rest⟩ := r
      rw [hatom] at hread
      dsimp only [bind, Except.bind] at hread
      rw [hgaps rest (atom_suffix hatom)] at hread
      split at hread
      · rw [Except.ok.inj hread]
      · cases hread

end Json
end ApiScribe
