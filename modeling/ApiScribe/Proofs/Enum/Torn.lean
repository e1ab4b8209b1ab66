import ApiScribe.Proofs.Entries
import ApiScribe.Proofs.Enum.Lines

/-! Torn lines. Some characters are written raw and end a line or the whole enum when it is read.
Whatever is read of members up to such a character, no value that is read holds one. -/
namespace ApiScribe
namespace SourceEnum

/-- A character that is written raw, and that ends a line or the enum when it is read. -/
def tears (c : Char) : Bool := c == '\x7d' || (Text.isLineEnd c && 32 ≤ c.toNat)

/-- A member whose lines are not torn. -/
structure IsSafe (e : EnumMember) : Prop where
  value : ∀ c ∈ e.value.value.toList, tears c = false
  comment : '\x7d' ∉ (commentText e.comment).toList

/-- A character that ends neither a line nor an enum. -/
def IsPlain (c : Char) : Prop := Text.isLineEnd c = false ∧ c ≠ '\x7d'

theorem IsPlain.tears {c : Char} (h : IsPlain c) : tears c = false := by
  simp [SourceEnum.tears, h.1, h.2]

theorem isPlain_of_not_blank {c : Char} (hblank : Text.isBlank c = false) (hbrace : c ≠ '\x7d') :
    IsPlain c := by
  refine ⟨?_, hbrace⟩
  cases hend : Text.isLineEnd c with
  | false => rfl
  | true =>
    rw [Text.isBlank_of_isLineEnd hend] at hblank
    cases hblank

theorem isPlain_of_isMemberChar {c : Char} (h : isMemberChar c = true) : IsPlain c := by
  refine isPlain_of_not_blank (isBlank_of_isMemberChar h) ?_
  rintro rfl
  exact absurd h (by decide)

theorem isPlain_of_isNumeralChar {c : Char} (h : isNumeralChar c = true) : IsPlain c := by
  refine isPlain_of_not_blank (isBlank_of_isNumeralChar h) ?_
  rintro rfl
  exact absurd h (by decide)

theorem isPlain_of_all {cs : List Char}
    (h : cs.all (fun c => !Text.isLineEnd c && c != '\x7d') = true) : ∀ c ∈ cs, IsPlain c := by
  simpa [IsPlain] using h

theorem isPlain_of_mem_escapeChars : ∀ c ∈ Json.escapeChars, IsPlain c :=
  isPlain_of_all (by decide)

/-- A tearing character is written raw. -/
theorem quotedChar_of_tears {c : Char} (h : tears c = true) : Json.quotedChar false c = [c] := by
  rw [tears, Bool.or_eq_true, beq_iff_eq, Bool.and_eq_true, decide_eq_true_eq] at h
  rcases h with rfl | ⟨hend, hlow⟩
  · decide
  · have hshort : Json.shortEscape? c = none := by
      unfold Json.shortEscape?
      split
      all_goals first
        | rfl
        | exact absurd hend (by decide)
        | exact absurd hlow (by decide)
    unfold Json.quotedChar
    rw [hshort]
    simp [Json.standsRaw, hlow]

/-- What is neither plain nor part of the value does not stand in the line of a member. -/
theorem mem_memberRow {e : EnumMember} (h : IsDeclarable e) {c : Char} (hc : c ∈ memberRow e) :
    c ∈ e.value.value.toList ∧ 32 ≤ c.toNat ∨ IsPlain c := by
  have hrow : memberRow e =
      [' ', ' '] ++ e.name.toList ++ [' ', '=', ' '] ++ e.value.text.toList ++ [','] := by
    simp [memberRow, memberChars]
  simp only [hrow, List.mem_append] at hc
  rcases hc with (((hc | hname) | hc) | htext) | hc
  · exact .inr (isPlain_of_all (by decide) c hc)
  · exact .inr (isPlain_of_isMemberChar (h.name c hname))
  · exact .inr (isPlain_of_all (by decide) c hc)
  · cases hkind : e.value.kind with
    | string =>
      rw [toList_text_string hkind, ← List.singleton_append, List.mem_append, List.mem_append,
        List.mem_flatMap] at htext
      rcases htext with hquote | ⟨d, hd, hcd⟩ | hquote
      · exact .inr (isPlain_of_all (by decide) c hquote)
      · rcases Json.mem_quotedChar hcd with ⟨rfl, hlow⟩ | hescape
        · exact .inl ⟨hd, hlow⟩
        · exact .inr (isPlain_of_mem_escapeChars c hescape)
      · exact .inr (isPlain_of_all (by decide) c hquote)
    | number =>
      rw [toList_text_number hkind] at htext
      exact .inr (isPlain_of_isNumeralChar (h.number hkind c htext))
  · exact .inr (isPlain_of_all (by decide) c hc)

theorem mem_commentRow {text : List Char} {c : Char} (hc : c ∈ commentRow text) :
    c ∈ text ∨ IsPlain c := by
  have hrow : commentRow text = [' ', ' ', '/', '*', '*', ' '] ++ text ++ [' ', '*', '/'] := by
    simp [commentRow, commentChars]
  rw [hrow, List.mem_append, List.mem_append] at hc
  rcases hc with (hc | htext) | hc
  · exact .inr (isPlain_of_all (by decide) c hc)
  · exact .inl htext
  · exact .inr (isPlain_of_all (by decide) c hc)

theorem newline_not_mem_memberRow {e : EnumMember} (h : IsDeclarable e) : '\r' ∉ memberRow e := by
  intro hmem
  rcases mem_memberRow h hmem with ⟨-, hlow⟩ | hplain
  · exact absurd hlow (by decide)
  · exact absurd hplain.1 (by decide)

theorem isLineEnd_commentRow {comment : Option String} :
    ∀ c ∈ commentRow (commentText comment).toList, Text.isLineEnd c = false := by
  intro c hc
  rcases mem_commentRow hc with htext | hplain
  · exact isLineEnd_commentText c htext
  · exact hplain.1

theorem newline_not_mem_memberRows {e : EnumMember} (h : IsDeclarable e) :
    ∀ row ∈ memberRows e, '\r' ∉ row := by
  intro row hrow
  rcases mem_memberRows hrow with rfl | rfl
  · exact newline_not_mem_memberRow h
  · exact Text.newline_ne_of_not_isLineEnd isLineEnd_commentRow

/-- The lines of a safe member are lines, and no brace stands in them. -/
theorem IsSafe.isPlain {e : EnumMember} (hsafe : IsSafe e) (h : IsDeclarable e) :
    ∀ row ∈ memberRows e, ∀ c ∈ row, IsPlain c := by
  intro row hrow c hc
  rcases mem_memberRows hrow with rfl | rfl
  · rcases mem_memberRow h hc with ⟨hvalue, hlow⟩ | hplain
    · have htears := hsafe.value c hvalue
      rw [tears, Bool.or_eq_false_iff, Bool.and_eq_false_iff] at htears
      refine ⟨htears.2.resolve_right (by simp [hlow]), by simpa using htears.1⟩
    · exact hplain
  · rcases mem_commentRow hc with htext | hplain
    · refine ⟨isLineEnd_commentText c htext, ?_⟩
      rintro rfl
      exact hsafe.comment htext
    · exact hplain

theorem quote_not_mem_memberRow {e : EnumMember} (h : IsDeclarable e)
    (hkind : e.value.kind = .number) : '"' ∉ memberRow e := by
  have hname : '"' ∉ e.name.toList := not_mem_of_isMemberChar h.name (by decide)
  have hnumber : '"' ∉ e.value.value.toList := by
    intro hmem
    exact absurd (h.number hkind '"' hmem) (by decide)
  simp [memberRow, memberChars, toList_text_number hkind, hname, hnumber]

/-- Behind a quote in the line of a member stands the end of the line, or a part of the value with
its closing quote. -/
theorem behind_quote_in_memberRow {e : EnumMember} (h : IsDeclarable e)
    (hkind : e.value.kind = .string) {as q : List Char}
    (hsplit : memberRow e ++ ['\n'] = as ++ '"' :: q) : q = [',', '\n'] ∨
      ∃ ds : List Char, q = ds.flatMap (Json.quotedChar false) ++ '"' :: [',', '\n'] := by
  have hname : '"' ∉ e.name.toList := not_mem_of_isMemberChar h.name (by decide)
  let front := ' ' :: ' ' :: (e.name.toList ++ [' ', '=', ' '])
  let written := e.value.value.toList.flatMap (Json.quotedChar false)
  have hfront : '"' ∉ front := by simp [front, hname]
  have hrow : memberRow e ++ ['\n'] = front ++ '"' :: (written ++ '"' :: [',', '\n']) := by
    simp [memberRow, memberChars, toList_text_string hkind, front, written]
  rw [hrow] at hsplit
  -- No quote stands in front of the value, so this one opens the value or stands behind that.
  rcases List.append_eq_append_iff.1 hsplit with ⟨cs, hcs, hrest⟩ | ⟨cs, hcs, hrest⟩
  · cases cs with
    | nil => exact .inr ⟨_, (List.cons.inj hrest).2.symm⟩
    | cons c cs => exact Json.quote_in_quoted (by decide) (List.cons.inj hrest).2
  · cases cs with
    | nil => exact .inr ⟨_, (List.cons.inj hrest).2⟩
    | cons c cs =>
      obtain ⟨rfl, -⟩ := List.cons.inj hrest
      exact absurd (by simp [hcs]) hfront

/-- What stands behind a quote in the line of a member and is read as a string up to there holds
no tearing character, if the characters there do not. -/
theorem tears_of_read {e : EnumMember} (h : IsDeclarable e) {q : List Char}
    (hq : '"' :: q <:+: memberRow e ++ ['\n']) (hplain : ∀ c ∈ q, IsPlain c) {s : String}
    (hread : Json.read (String.ofList ('"' :: q)) = .ok (.str s)) :
    ∀ c ∈ s.toList, tears c = false := by
  obtain ⟨rest, hstring, -⟩ := Json.stringChars_of_read hread
  obtain ⟨as, bs, hsplit⟩ := hq
  rw [List.append_assoc, List.cons_append] at hsplit
  cases hkind : e.value.kind with
  | number =>
    have hmem : '"' ∈ memberRow e ++ ['\n'] := by simp [← hsplit]
    simp [quote_not_mem_memberRow h hkind] at hmem
  | string =>
    rcases behind_quote_in_memberRow h hkind hsplit.symm with htail | ⟨ds, hds⟩
    · -- Behind the last quote nothing is read.
      have hquote : '"' ∈ q := (Json.suffix_of_stringChars hstring).subset List.mem_cons_self
      have hmem : '"' ∈ q ++ bs := List.mem_append_left _ hquote
      rw [htail] at hmem
      exact absurd hmem (by decide)
    · have hprefix : q <+: ds.flatMap (Json.quotedChar false) ++ '"' :: [',', '\n'] := ⟨bs, hds⟩
      intro c hc
      cases htears : tears c with
      | false => rfl
      | true =>
        rcases Json.mem_of_stringChars_prefix hprefix hstring c hc with hmem | hraw
        · rw [(hplain c hmem).tears] at htears
          cases htears
        · exact absurd (quotedChar_of_tears htears) hraw

/-- A written value is its own key, unless it is read as a string. -/
theorem valueKey_cases (raw : List Char) : valueKey raw = String.ofList raw ∨
    ∃ q s, raw = '"' :: q ∧ Json.read (String.ofList ('"' :: q)) = .ok (.str s) ∧
      valueKey raw = s := by
  unfold valueKey
  by_cases hquote : raw.head? = some '"'
  · obtain ⟨q, rfl⟩ := List.head?_eq_some_iff.1 hquote
    simp only [hquote, if_true]
    split
    · rename_i s hread
      exact .inr ⟨q, s, rfl, hread, rfl⟩
    · exact .inl rfl
  · exact .inl (by simp [hquote])

theorem withoutCommas_isPrefix (l : List Char) : withoutCommas l <+: l := by
  have hsuffix := List.dropWhile_suffix (fun c : Char => decide (c = ',')) (l := l.reverse)
  simpa [withoutCommas] using List.reverse_prefix.2 hsuffix

/-- A line that is a member has its value behind an equals sign, and does not start as a comment. -/
theorem of_lineOf_eq_member {l name value : List Char} (h : lineOf l = .member name value) :
    Text.startsWith "/*".toList l = false ∧ value ≠ [] ∧
      ∃ as bs, withoutCommas l = as ++ '=' :: bs ∧ value = Text.trim bs := by
  unfold lineOf at h
  simp only at h
  split at h
  · cases h
  · split at h
    · cases h
    · rename_i hstart
      split at h
      · cases h
      · rename_i as bs hcut
        split at h
        · cases h
        · rename_i hempty
          cases h
          simp only [Bool.or_eq_true, not_or, Bool.not_eq_true] at hstart hempty
          exact ⟨hstart.2, by simpa using hempty.2, as, bs, Text.cut?_eq_some hcut, rfl⟩

theorem value_isInfix {l name value : List Char} (h : lineOf l = .member name value) :
    value <:+: l := by
  obtain ⟨-, -, as, bs, hl, rfl⟩ := of_lineOf_eq_member h
  have hbehind : bs <:+: withoutCommas l := by
    rw [hl]
    exact ⟨as ++ ['='], [], by simp⟩
  exact (Text.trim_isInfix bs).trans (hbehind.trans (withoutCommas_isPrefix l).isInfix)

theorem comment_isInfix {l : List Char} {text : String}
    (h : lineOf l = .comment (some text)) : text.toList <:+: l := by
  unfold lineOf at h
  simp only at h
  split at h
  · simp only [commentOf, Line.comment.injEq] at h
    split at h
    · cases h
    · cases h
      rw [String.toList_ofList]
      exact (Text.trim_isInfix _).trans
        ((List.drop_suffix _ _).isInfix.trans (List.take_prefix _ _).isInfix)
  · split at h
    · cases h
    · split at h
      · cases h
      · split at h <;> cases h

/-- A line whose value, if it has one, holds no tearing character when it is read. -/
def IsHarmless (l : List Char) : Prop :=
  (∀ c ∈ l, IsPlain c) ∧ ∀ name value, lineOf (Text.trim l) = .member name value →
    ∀ c ∈ (valueKey value).toList, tears c = false

/-- A part of the line of a member is harmless. -/
theorem isHarmless_of_memberRow {e : EnumMember} (h : IsDeclarable e) {l : List Char}
    (hl : l <:+: memberRow e ++ ['\n']) (hplain : ∀ c ∈ l, IsPlain c) : IsHarmless l := by
  refine ⟨hplain, ?_⟩
  intro name value hmember
  have hvalue : value <:+: l := (value_isInfix hmember).trans (Text.trim_isInfix l)
  rcases valueKey_cases value with hkey | ⟨q, s, rfl, hread, hkey⟩
  · rw [hkey, String.toList_ofList]
    exact fun c hc => (hplain c (hvalue.subset hc)).tears
  · rw [hkey]
    refine tears_of_read h (hvalue.trans hl) ?_ hread
    exact fun c hc => hplain c (hvalue.subset (List.mem_cons_of_mem _ hc))

/-- A line that starts as the line of a comment is no member. -/
theorem isHarmless_of_commentRow {text l : List Char} (hl : l <+: commentRow text)
    (hplain : ∀ c ∈ l, IsPlain c) : IsHarmless l := by
  refine ⟨hplain, ?_⟩
  intro name value hmember
  obtain ⟨hstart, -, as, bs, hequals, -⟩ := of_lineOf_eq_member hmember
  exfalso
  have hopen : Text.IsTrimmed ['/', '*'] := Text.isTrimmed_of_all (by decide)
  by_cases hlong : 4 ≤ l.length
  · have hfront : [' ', ' ', '/', '*'] <+: l :=
      List.prefix_of_prefix_length_le ⟨_, rfl⟩ hl (by simpa using hlong)
    obtain ⟨more, rfl⟩ := hfront
    have hblank : ∀ c ∈ [' ', ' '], Text.isBlank c = true := List.all_eq_true.1 (by decide)
    obtain ⟨rest, hrest⟩ := Text.isPrefix_trim [' ', ' '] more hblank hopen (by simp)
    have htrim : Text.trim ([' ', ' ', '/', '*'] ++ more) = "/*".toList ++ rest := hrest.symm
    rw [htrim, Text.startsWith, Text.after?_eq_some_iff.2 rfl] at hstart
    cases hstart
  · -- Up to there no equals sign stands in the line.
    have hshort : l <+: [' ', ' ', '/'] := by
      refine List.prefix_of_prefix_length_le hl ⟨_, rfl⟩ ?_
      simp only [List.length_cons, List.length_nil]
      omega
    have hmem : '=' ∈ withoutCommas (Text.trim l) := by simp [hequals]
    have hall := (withoutCommas_isPrefix _).subset hmem
    exact absurd (hshort.subset ((Text.trim_isInfix l).subset hall)) (by decide)

/-- Whatever starts as members do has harmless lines only, up to the first brace. -/
theorem isHarmless_of_isPrefix {es : List EnumMember} (h : ∀ e ∈ es, IsDeclarable e)
    {p : List Char} (hp : p <+: (es.flatMap memberRows).flatMap (· ++ ['\n']))
    (hbrace : '\x7d' ∉ p) : ∀ l ∈ Text.lines p, IsHarmless l := by
  have hrows : ∀ row ∈ es.flatMap memberRows, '\r' ∉ row := by
    intro row hrow
    obtain ⟨e, he, hrow⟩ := List.mem_flatMap.1 hrow
    exact newline_not_mem_memberRows (h e he) row hrow
  intro l hl
  obtain ⟨hends, hpiece⟩ := Text.mem_lines hl
  have hplain : ∀ c ∈ l, IsPlain c := by
    intro c hc
    refine ⟨hends c hc, ?_⟩
    rintro rfl
    exact hbrace (hpiece.subset hc)
  obtain ⟨row, hrow, q, hq, hlq⟩ := Text.mem_lines_of_isPrefix hrows hp hl
  obtain ⟨e, he, hrow⟩ := List.mem_flatMap.1 hrow
  rcases mem_memberRows hrow with rfl | rfl
  · exact isHarmless_of_memberRow (h e he) ((Text.mem_lines hlq).2.trans hq.isInfix) hplain
  · have hprefix : l <+: commentRow (commentText e.comment).toList := by
      rcases List.prefix_concat_iff.1 hq with rfl | hq
      · rw [Text.lines_of_no_end isLineEnd_commentRow] at hlq
        obtain rfl := List.mem_singleton.1 hlq
        exact List.prefix_refl _
      · rw [Text.lines_eq_of_no_end fun c hc => isLineEnd_commentRow c (hq.subset hc)] at hlq
        split at hlq
        · cases hlq
        · rwa [List.mem_singleton.1 hlq]
    exact isHarmless_of_commentRow hprefix hplain

/-- Nothing that was read holds what ends a line or an enum. -/
structure IsClean (s : Progress) : Prop where
  pending : ∀ text ∈ s.1, '\x7d' ∉ text.toList
  key : ∀ p ∈ s.2, ∀ c ∈ p.1.toList, tears c = false
  comment : ∀ p ∈ s.2, ∀ text ∈ p.2.comment, '\x7d' ∉ text.toList

/-- A harmless line keeps clean what was read. -/
theorem IsClean.step {s : Progress} (hs : IsClean s) {l : List Char} (hl : IsHarmless l) :
    IsClean (step s l) := by
  unfold SourceEnum.step
  split
  · rename_i text hcomment
    refine ⟨?_, hs.key, hs.comment⟩
    rintro t rfl hbrace
    have hpiece := (comment_isInfix hcomment).trans (Text.trim_isInfix l)
    exact (hl.1 _ (hpiece.subset hbrace)).2 rfl
  · exact hs
  · exact ⟨by simp, hs.key, hs.comment⟩
  · rename_i name value hmember
    refine ⟨by simp, ?_, ?_⟩
    · intro p hp
      rcases Entries.mem_put hp with rfl | hp
      · exact hl.2 name value hmember
      · exact hs.key p hp
    · intro p hp
      rcases Entries.mem_put hp with rfl | hp
      · exact hs.pending
      · exact hs.comment p hp

/-- Harmless lines keep clean what was read. -/
theorem IsClean.foldl_step {ls : List (List Char)} (hls : ∀ l ∈ ls, IsHarmless l) {s : Progress}
    (hs : IsClean s) : IsClean (ls.foldl SourceEnum.step s) := by
  induction ls generalizing s with
  | nil => exact hs
  | cons l ls ih =>
    rw [List.foldl_cons]
    exact ih (fun k hk => hls k (List.mem_cons_of_mem l hk)) (hs.step (hls l List.mem_cons_self))

/-- Members that are all read as they are written are safe. -/
theorem isSafe_of_isClean {es : List EnumMember} {s : Progress} (hs : IsClean s)
    (h : s.2 = es.map fun e => (e.value.value, memberOf e)) : ∀ e ∈ es, IsSafe e := by
  intro e he
  have hmem : (e.value.value, memberOf e) ∈ s.2 := by
    rw [h]
    exact List.mem_map.2 ⟨e, he, rfl⟩
  refine ⟨hs.key _ hmem, ?_⟩
  intro hbrace
  have hne : commentText e.comment ≠ "" := by
    intro hempty
    simp [hempty] at hbrace
  exact hs.comment _ hmem (commentText e.comment) (by simp [memberOf, commentOf?, hne]) hbrace

end SourceEnum
end ApiScribe
