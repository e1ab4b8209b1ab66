import ApiScribe.Json.Quoted
import ApiScribe.Json.Reader

/-! Quoted strings are read back. What is read of a quoted string that is cut off says nothing that
does not stand in it: only characters that are written raw are ever read from an open quote on. -/
namespace ApiScribe
namespace Json

theorem hexValue?_hexDigit (n : Nat) : hexValue? (hexDigit n) = some (n % 16) := by
  have hall : ∀ m < 16, hexValue? ((Nat.toDigits 16 m).headD '0') = some m := by decide
  exact hall _ (Nat.mod_lt n (by decide))

/-- The digits of a unit write it. -/
theorem unit?_hexDigit {n : Nat} (h : n < 65536) :
    unit? (hexDigit (n / 4096)) (hexDigit (n / 256)) (hexDigit (n / 16)) (hexDigit n) = some n := by
  simp only [unit?, hexValue?_hexDigit, Option.pure_def, Option.bind_eq_bind, Option.bind_some,
    Option.some.injEq]
  omega

/-- A unit escape is read as its character, if it is no first half and something follows. -/
theorem stringChars_unitEscape {n : Nat} (h : n < 65536) (hhigh : isHighUnit n = false)
    (opening : List Char) {rest : List Char} (hrest : rest ≠ []) :
    stringChars opening (unitEscape n ++ rest) =
      prepend (unitChar n) (stringChars opening rest) := by
  have hunit := unit?_hexDigit h
  obtain ⟨e, rest, rfl⟩ := List.exists_cons_of_ne_nil hrest
  simp only [unitEscape, List.cons_append, List.nil_append]
  rw [stringChars.eq_def]
  split <;> rename_i heq <;> cases heq <;> simp_all
  rename_i hshorter
  exact absurd rfl (hshorter _ _ _ _ _ _ rfl rfl rfl rfl rfl)

/-- The escapes of a pair of units are read as its character, if something follows. -/
theorem stringChars_unitPair {high low : Nat} (hhigh : isHighUnit high = true)
    (hlow : isLowUnit low = true) (opening : List Char) {rest : List Char} (hrest : rest ≠ []) :
    stringChars opening (unitEscape high ++ (unitEscape low ++ rest)) =
      prepend (pairChar high low) (stringChars opening rest) := by
  have hunits : unit? (hexDigit (high / 4096)) (hexDigit (high / 256)) (hexDigit (high / 16))
      (hexDigit high) = some high ∧ unit? (hexDigit (low / 4096)) (hexDigit (low / 256))
      (hexDigit (low / 16)) (hexDigit low) = some low := by
    simp only [isHighUnit, isLowUnit, Bool.and_eq_true, decide_eq_true_eq] at hhigh hlow
    exact ⟨unit?_hexDigit (by omega), unit?_hexDigit (by omega)⟩
  obtain ⟨e, rest, rfl⟩ := List.exists_cons_of_ne_nil hrest
  simp only [unitEscape, List.cons_append, List.nil_append]
  rw [stringChars, hunits.1, hunits.2]
  simp [hhigh, hlow]

/-- The escape of a character is read as the character, if something follows. -/
theorem stringChars_charEscape (c : Char) (opening : List Char) {rest : List Char}
    (hrest : rest ≠ []) :
    stringChars opening (charEscape c ++ rest) = prepend c (stringChars opening rest) := by
  have hvalid : c.toNat < 55296 ∨ 57343 < c.toNat ∧ c.toNat < 1114112 := c.valid
  unfold charEscape
  dsimp only
  split
  · rename_i hunit
    have hnone : isHighUnit c.toNat = false ∧ isLowUnit c.toNat = false := by
      simp only [isHighUnit, isLowUnit, Bool.and_eq_false_iff, decide_eq_false_iff_not]
      omega
    rw [stringChars_unitEscape hunit hnone.1 opening hrest, unitChar, hnone.1, hnone.2]
    simp
  · rename_i hunit
    have hpair : pairChar (55296 + (c.toNat - 65536) / 1024) (56320 + (c.toNat - 65536) % 1024)
        = c := by
      have hsum : 65536 + (55296 + (c.toNat - 65536) / 1024 - 55296) * 1024
          + (56320 + (c.toNat - 65536) % 1024 - 56320) = c.toNat := by omega
      rw [pairChar, hsum, Char.ofNat_toNat]
    rw [List.append_assoc, stringChars_unitPair _ _ opening hrest, hpair]
    · simp only [isHighUnit, Bool.and_eq_true, decide_eq_true_eq]
      omega
    · simp only [isLowUnit, Bool.and_eq_true, decide_eq_true_eq]
      omega

theorem charEscape_control {c : Char} (h : c.toNat < 32) : charEscape c = unitEscape c.toNat := by
  unfold charEscape
  simp only
  rw [if_pos (by omega)]

theorem le_of_standsRaw {ascii : Bool} {c : Char} (h : standsRaw ascii c = true) :
    32 ≤ c.toNat := by
  simp only [standsRaw, Bool.and_eq_true, decide_eq_true_eq] at h
  exact h.1

theorem standsRaw_false_iff {c : Char} : standsRaw false c = true ↔ 32 ≤ c.toNat := by
  simp [standsRaw]

/-- A character that is not written raw, though characters beyond ASCII are, is a control. -/
theorem lt_of_standsRaw_false {c : Char} (h : standsRaw false c = false) : c.toNat < 32 := by
  rw [← Bool.not_eq_true, standsRaw_false_iff] at h
  omega

/-- A character is escaped by a letter of its own, or written raw, or escaped by its units. -/
theorem quotedChar_cases (ascii : Bool) (c : Char) :
    (∃ e, shortEscape? c = some e ∧ quotedChar ascii c = ['\\', e]) ∨
    shortEscape? c = none ∧ standsRaw ascii c = true ∧ quotedChar ascii c = [c] ∨
    shortEscape? c = none ∧ standsRaw ascii c = false ∧ quotedChar ascii c = charEscape c := by
  unfold quotedChar
  cases hshort : shortEscape? c with
  | some e => exact .inl ⟨e, rfl, rfl⟩
  | none =>
    cases hraw : standsRaw ascii c with
    | true => exact .inr (.inl ⟨rfl, rfl, rfl⟩)
    | false => exact .inr (.inr ⟨rfl, rfl, rfl⟩)

/-- The characters with a letter of their own, and the letters. -/
def shortEscapes : List (Char × Char) :=
  [('"', '"'), ('\\', '\\'), ('\n', 'n'), ('\r', 'r'), ('\t', 't'), ('\x08', 'b'), ('\x0c', 'f')]

theorem mem_shortEscapes {c e : Char} (h : shortEscape? c = some e) : (c, e) ∈ shortEscapes := by
  unfold shortEscape? at h
  split at h <;> cases h <;> decide

/-- An escape by a letter of its own is read as the character. -/
theorem stringChars_shortEscape {c e : Char} (h : shortEscape? c = some e)
    (opening rest : List Char) :
    stringChars opening ('\\' :: e :: rest) = prepend c (stringChars opening rest) := by
  have hmem := mem_shortEscapes h
  simp only [shortEscapes, List.mem_cons, Prod.mk.injEq, List.not_mem_nil, or_false] at hmem
  obtain ⟨rfl, rfl⟩ | ⟨rfl, rfl⟩ | ⟨rfl, rfl⟩ | ⟨rfl, rfl⟩ | ⟨rfl, rfl⟩ | ⟨rfl, rfl⟩ | ⟨rfl, rfl⟩ :=
    hmem <;> rfl

/-- A character that is written raw is read as itself. -/
theorem stringChars_raw {c : Char} (hshort : shortEscape? c = none) (h : 32 ≤ c.toNat)
    (opening rest : List Char) :
    stringChars opening (c :: rest) = prepend c (stringChars opening rest) := by
  rw [stringChars.eq_def]
  split <;> simp_all [shortEscape?, Nat.not_lt_of_le]

/-- A written character is read as itself, if something follows. -/
theorem stringChars_quotedChar (ascii : Bool) (c : Char) (opening : List Char)
    {rest : List Char} (hrest : rest ≠ []) :
    stringChars opening (quotedChar ascii c ++ rest) = prepend c (stringChars opening rest) := by
  rcases quotedChar_cases ascii c with ⟨e, hshort, heq⟩ | ⟨hshort, hraw, heq⟩ | ⟨-, -, heq⟩
  · rw [heq]
    exact stringChars_shortEscape hshort opening rest
  · rw [heq]
    exact stringChars_raw hshort (le_of_standsRaw hraw) opening rest
  · rw [heq]
    exact stringChars_charEscape c opening hrest

/-- The rest of a quoted string is read up to its closing quote. -/
theorem stringChars_quoted (ascii : Bool) (opening cs rest : List Char) :
    stringChars opening (cs.flatMap (quotedChar ascii) ++ '"' :: rest) = .ok (cs, rest) := by
  induction cs with
  | nil => rfl
  | cons c cs ih =>
    rw [List.flatMap_cons, List.append_assoc, stringChars_quotedChar ascii c opening (by simp), ih]
    rfl

/-- Different strings stay different between quotes. -/
theorem quoted_injective {s t : String} (h : quoted s = quoted t) : s = t := by
  have hchars : s.toList.flatMap (quotedChar true) ++ ['"'] =
      t.toList.flatMap (quotedChar true) ++ ['"'] :=
    (List.cons.inj (String.ofList_inj.1 h)).2
  have hs := stringChars_quoted true [] s.toList []
  rw [hchars, stringChars_quoted true [] t.toList []] at hs
  injection hs with hs
  exact (String.toList_inj.1 (Prod.mk.inj hs).1).symm

/-- A value that starts with a quote is a string. -/
theorem value_quote (fuel levels : Nat) (cs : List Char) : value (fuel + 1) levels ('"' :: cs) =
    (stringChars ('"' :: cs) cs).map fun r => (.str (String.ofList r.1), r.2) := by
  rw [value]

/-- A quoted string is read as the string. -/
theorem read_quotedRaw (s : String) : read (quotedRaw s) = .ok (.str s) := by
  have hstring (opening : List Char) := stringChars_quoted false opening s.toList []
  have hvalue (fuel : Nat) : value (fuel + 1) mostLevels (quotedChars false s.toList) =
      .ok (.str s, []) := by
    have hquoted : quotedChars false s.toList =
        '"' :: (s.toList.flatMap (quotedChar false) ++ ['"']) := rfl
    rw [hquoted, value_quote, hstring]
    simp [Except.map]
  have hchars : readChars (quotedChars false s.toList) = .ok (.str s) := by
    have hgaps : skipGaps (quotedChars false s.toList) = quotedChars false s.toList := rfl
    have hlength : value (2 * (quotedChars false s.toList).length + 2) mostLevels
        (quotedChars false s.toList) = .ok (.str s, []) := hvalue _
    unfold readChars
    split
    · rename_i hmark
      cases hmark
    · rw [hgaps, hlength]
      rfl
  rw [read, quotedRaw, String.toList_ofList, hchars]
  rfl

theorem stringChars_cut_unit {digits : List Char} (h : digits.length ≤ 4) (opening : List Char) :
    stringChars opening ('\\' :: 'u' :: digits) = stopAt .unitEscape ('u' :: digits) := by
  rw [stringChars.eq_def]
  split <;> rename_i heq <;> cases heq <;> simp_all
  all_goals omega

/-- Nothing is read of a written character that is cut off or ends the text. -/
theorem stringChars_cut_quotedChar {c : Char} {p : List Char} (h : p <+: quotedChar false c)
    (opening : List Char) (r : List Char × List Char) : stringChars opening p ≠ .ok r := by
  rcases quotedChar_cases false c with ⟨e, hshort, heq⟩ | ⟨hshort, hraw, heq⟩ | ⟨-, hraw, heq⟩
  · rw [heq] at h
    obtain rfl | ⟨t, rfl, ht⟩ := List.prefix_cons_iff.1 h
    · nofun
    obtain rfl | ⟨u, rfl, hu⟩ := List.prefix_cons_iff.1 ht
    · nofun
    obtain rfl := List.prefix_nil.1 hu
    rw [stringChars_shortEscape hshort]
    nofun
  · rw [heq] at h
    obtain rfl | ⟨t, rfl, ht⟩ := List.prefix_cons_iff.1 h
    · nofun
    obtain rfl := List.prefix_nil.1 ht
    rw [stringChars_raw hshort (standsRaw_false_iff.1 hraw)]
    nofun
  · rw [heq, charEscape_control (lt_of_standsRaw_false hraw)] at h
    obtain rfl | ⟨t, rfl, ht⟩ := List.prefix_cons_iff.1 h
    · nofun
    obtain rfl | ⟨u, rfl, hu⟩ := List.prefix_cons_iff.1 ht
    · nofun
    rw [stringChars_cut_unit hu.length_le]
    nofun

theorem prepend_eq_ok {c : Char} {x : Step (List Char)} {s rest : List Char}
    (h : prepend c x = .ok (s, rest)) : ∃ t, x = .ok (t, rest) ∧ s = c :: t := by
  cases x with
  | error e => cases h
  | ok r =>
    cases h
    exact ⟨_, rfl, rfl⟩

/-- Of a quoted string that may be cut off only characters are read that stand in what is left, or
that are never written raw. -/
theorem mem_of_stringChars_prefix {cs more p : List Char}
    (hp : p <+: cs.flatMap (quotedChar false) ++ '"' :: more) {opening s rest : List Char}
    (h : stringChars opening p = .ok (s, rest)) :
    ∀ c ∈ s, c ∈ p ∨ quotedChar false c ≠ [c] := by
  induction cs generalizing p s with
  | nil =>
    obtain rfl | ⟨t, rfl, -⟩ := List.prefix_cons_iff.1 hp
    · cases h
    · cases h
      simp
  | cons d cs ih =>
    rw [List.flatMap_cons, List.append_assoc] at hp
    by_cases hlen : p.length ≤ (quotedChar false d).length
    · have hcut := List.prefix_of_prefix_length_le hp (List.prefix_append _ _) hlen
      exact absurd h (stringChars_cut_quotedChar hcut opening _)
    · obtain ⟨q, rfl⟩ := List.prefix_of_prefix_length_le (List.prefix_append _ _) hp (by omega)
      have hq : q ≠ [] := by
        rintro rfl
        simp at hlen
      rw [stringChars_quotedChar false d opening hq] at h
      obtain ⟨t, ht, rfl⟩ := prepend_eq_ok h
      intro c hc
      rcases List.mem_cons.1 hc with rfl | hc
      · by_cases hraw : quotedChar false c = [c]
        · exact .inl (List.mem_append_left _ (by simp [hraw]))
        · exact .inr hraw
      · exact (ih ((List.prefix_append_right_inj _).1 hp) ht c hc).imp_left
          (List.mem_append_right _)

/-- What is left behind a string follows its closing quote. -/
theorem suffix_of_stringChars {opening p s rest : List Char}
    (h : stringChars opening p = .ok (s, rest)) : '"' :: rest <:+ p := by
  fun_induction stringChars opening p generalizing s with
  | case2 rest' =>
    cases h
    exact List.suffix_refl _
  | _ =>
    first
    -- Either an error is no result, or a character was put in front of one.
    | cases h
    | rename_i ih
      obtain ⟨t, ht, -⟩ := prepend_eq_ok h
      refine (ih ht).trans ?_
      simp [List.suffix_cons_iff]

/-- A text that starts with a quote and is read as a string is one quoted string, with gaps behind
it at most. -/
theorem stringChars_of_read {p : List Char} {s : String}
    (h : read (String.ofList ('"' :: p)) = .ok (.str s)) :
    ∃ rest, stringChars ('"' :: p) p = .ok (s.toList, rest) ∧ skipGaps rest = [] := by
  have hgaps : skipGaps ('"' :: p) = '"' :: p := rfl
  rw [read, String.toList_ofList] at h
  cases hchars : readChars ('"' :: p) with
  | error e =>
    rw [hchars] at h
    cases h
  | ok v =>
    rw [hchars] at h
    cases h
    unfold readChars at hchars
    split at hchars
    · cases hchars
    · rw [hgaps, value_quote] at hchars
      cases hstring : stringChars ('"' :: p) p with
      | error e =>
        rw [hstring] at hchars
        cases hchars
      | ok r =>
        rw [hstring] at hchars
        obtain ⟨t, rest⟩ := r
        dsimp only [Except.map, bind, Except.bind] at hchars
        split at hchars
        · rename_i hrest
          cases hchars
          exact ⟨rest, by rw [String.toList_ofList], hrest⟩
        · cases hchars

/-- The characters of the escapes of a written character. -/
def escapeChars : List Char :=
  ['\\', '"', 'n', 'r', 't', 'b', 'f', 'u', '0', '1', '2', '3', '4', '5', '6', '7', '8', '9', 'a',
   'c', 'd', 'e']

theorem unitEscape_all : ∀ n < 32, (unitEscape n).all escapeChars.contains = true := by
  decide

theorem mem_unitEscape {n : Nat} (h : n < 32) : ∀ c ∈ unitEscape n, c ∈ escapeChars := by
  simpa using unitEscape_all n h

theorem mem_escapeChars_of_shortEscape? {c e : Char} (h : shortEscape? c = some e) :
    e ∈ escapeChars := by
  have hall : ∀ p ∈ shortEscapes, p.2 ∈ escapeChars := by decide
  exact hall _ (mem_shortEscapes h)

/-- A written character is written raw, or in the characters of escapes. -/
theorem mem_quotedChar {c d : Char} (h : c ∈ quotedChar false d) :
    c = d ∧ 32 ≤ d.toNat ∨ c ∈ escapeChars := by
  rcases quotedChar_cases false d with ⟨e, hshort, heq⟩ | ⟨-, hraw, heq⟩ | ⟨-, hraw, heq⟩
  · rw [heq] at h
    rcases List.mem_cons.1 h with rfl | h
    · exact .inr (by decide)
    · exact .inr (List.mem_singleton.1 h ▸ mem_escapeChars_of_shortEscape? hshort)
  · rw [heq] at h
    exact .inl ⟨List.mem_singleton.1 h, standsRaw_false_iff.1 hraw⟩
  · have hcontrol := lt_of_standsRaw_false hraw
    rw [heq, charEscape_control hcontrol] at h
    exact .inr (mem_unitEscape hcontrol c h)

/-- The characters between and around quotes are those of the text, and those of escapes. -/
theorem mem_quoted {s : String} {c : Char} (h : c ∈ (quoted s).toList) :
    c ∈ s.toList ∨ c.isAlphanum = true ∨ c ∈ ['"', '\\'] := by
  have hdigit (n : Nat) : (hexDigit n).isAlphanum = true := by
    have hall : ∀ m < 16, ((Nat.toDigits 16 m).headD '0').isAlphanum = true := by decide
    exact hall _ (Nat.mod_lt n (by decide))
  have hunit (n : Nat) : c ∈ unitEscape n → c.isAlphanum = true ∨ c ∈ ['"', '\\'] := by
    intro hc
    simp only [unitEscape, List.mem_cons, List.not_mem_nil, or_false] at hc
    rcases hc with rfl | rfl | rfl | rfl | rfl | rfl
    · exact .inr (by decide)
    · exact .inl (by decide)
    all_goals exact .inl (hdigit _)
  rw [quoted, String.toList_ofList, quotedChars, List.mem_append, List.mem_cons] at h
  rcases h with (rfl | h) | h
  · exact .inr (.inr (by decide))
  · obtain ⟨d, hd, hc⟩ := List.mem_flatMap.1 h
    rcases quotedChar_cases true d with ⟨e, hshort, heq⟩ | ⟨-, -, heq⟩ | ⟨-, -, heq⟩
    · rw [heq] at hc
      have hletters : ∀ p ∈ shortEscapes, p.2.isAlphanum = true ∨ p.2 ∈ ['"', '\\'] := by decide
      rcases List.mem_cons.1 hc with rfl | hc
      · exact .inr (.inr (by decide))
      · exact .inr (List.mem_singleton.1 hc ▸ hletters _ (mem_shortEscapes hshort))
    · rw [heq] at hc
      rw [List.mem_singleton.1 hc]
      exact .inl hd
    · rw [heq] at hc
      unfold charEscape at hc
      dsimp only at hc
      split at hc
      · exact .inr (hunit _ hc)
      · exact .inr ((List.mem_append.1 hc).elim (hunit _) (hunit _))
  · rw [List.mem_singleton.1 h]
    exact .inr (.inr (by decide))

theorem quote_not_mem_unitEscape : ∀ n < 32, '"' ∉ unitEscape n := by
  decide

/-- A quote stands at most at the end of a written character. -/
theorem quote_not_mem_dropLast (c : Char) : '"' ∉ (quotedChar false c).dropLast := by
  rcases quotedChar_cases false c with ⟨e, -, heq⟩ | ⟨-, -, heq⟩ | ⟨-, hraw, heq⟩
  · simp [heq]
  · simp [heq]
  · have hcontrol := lt_of_standsRaw_false hraw
    rw [heq, charEscape_control hcontrol]
    exact fun hmem => quote_not_mem_unitEscape _ hcontrol (List.dropLast_subset _ hmem)

/-- Behind a quote in a quoted text stands what follows the text, or the rest of a quoted text. -/
theorem quote_in_quoted {cs tail as q : List Char} (htail : '"' ∉ tail)
    (h : cs.flatMap (quotedChar false) ++ '"' :: tail = as ++ '"' :: q) :
    q = tail ∨ ∃ ds : List Char, q = ds.flatMap (quotedChar false) ++ '"' :: tail := by
  induction cs generalizing as with
  | nil =>
    rcases List.cons_eq_append_iff.1 h with ⟨-, hq⟩ | ⟨bs, -, hbs⟩
    · cases hq
      exact .inl rfl
    · exact absurd (by simp [hbs]) htail
  | cons c cs ih =>
    rw [List.flatMap_cons, List.append_assoc] at h
    rcases List.append_eq_append_iff.1 h with ⟨bs, -, hbs⟩ | ⟨bs, hc, hbs⟩
    · exact ih hbs
    · cases bs with
      | nil => exact @ih [] hbs.symm
      | cons b bs =>
        cases hbs
        cases bs with
        | nil => exact .inr ⟨cs, rfl⟩
        | cons b bs =>
          have hmem : '"' ∈ (quotedChar false c).dropLast := by
            rw [hc, List.dropLast_append_of_ne_nil (by simp),
              List.dropLast_cons_of_ne_nil (by simp)]
            simp
          exact absurd hmem (quote_not_mem_dropLast c)

/-- What stands between quotes: characters but the quote and the backslash, and any character behind
a backslash. -/
inductive Inside : List Char → Prop
  | nil : Inside []
  | char {c : Char} {cs : List Char} (hc : c ∉ ['"', '\\']) (h : Inside cs) : Inside (c :: cs)
  | escape (c : Char) {cs : List Char} (h : Inside cs) : Inside ('\\' :: c :: cs)

theorem Inside.append {cs ds : List Char} (hcs : Inside cs) (hds : Inside ds) :
    Inside (cs ++ ds) := by
  induction hcs with
  | nil => exact hds
  | char hc _ ih => exact .char hc ih
  | escape c _ ih => exact .escape c ih

theorem inside_unitEscape (n : Nat) : Inside (unitEscape n) := by
  have hdigit (k : Nat) : hexDigit k ∉ ['"', '\\'] := by
    have hall : ∀ m < 16, (Nat.toDigits 16 m).headD '0' ∉ ['"', '\\'] := by decide
    exact hall _ (Nat.mod_lt k (by decide))
  exact .escape 'u' (.char (hdigit _) (.char (hdigit _) (.char (hdigit _) (.char (hdigit _) .nil))))

theorem inside_quotedChar (c : Char) : Inside (quotedChar true c) := by
  rcases quotedChar_cases true c with ⟨e, -, heq⟩ | ⟨hshort, -, heq⟩ | ⟨-, -, heq⟩
  · rw [heq]
    exact .escape _ .nil
  · rw [heq]
    refine .char (fun hmem => ?_) .nil
    simp only [List.mem_cons, List.not_mem_nil, or_false] at hmem
    rcases hmem with rfl | rfl <;> cases hshort
  · rw [heq]
    unfold charEscape
    dsimp only
    split
    · exact inside_unitEscape _
    · exact (inside_unitEscape _).append (inside_unitEscape _)

/-- A quoted text is what stands inside, between quotes. -/
theorem exists_inside_quoted (s : String) :
    ∃ cs, Inside cs ∧ (quoted s).toList = '"' :: (cs ++ ['"']) := by
  refine ⟨s.toList.flatMap (quotedChar true), ?_, by simp [quoted, quotedChars]⟩
  induction s.toList with
  | nil => exact .nil
  | cons c cs ih => exact (inside_quotedChar c).append ih

end Json
end ApiScribe
