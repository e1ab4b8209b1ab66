import Mathlib.Data.List.Basic
import Mathlib.Data.List.TakeWhile
import ApiScribe.Text.Utf8
import ApiScribe.Text.Character
import ApiScribe.Text.Search

/-! Bytes of text. A text is read back from its bytes. -/
namespace ApiScribe
namespace Text

theorem toList_loop (bs : ByteArray) (i : Nat) (front : List UInt8) :
    ByteArray.toList.loop bs i front = front.reverse ++ bs.data.toList.drop i := by
  fun_induction ByteArray.toList.loop bs i front with
  | case1 i front hlt ih =>
    have hlength : i < bs.data.toList.length := by simpa using hlt
    have hget : bs.get! i = bs.data.toList[i] := by
      have hsize : i < bs.data.size := hlt
      show bs.data[i]! = _
      rw [getElem!_pos bs.data i hsize, Array.getElem_toList]
    rw [ih, List.drop_eq_getElem_cons hlength, hget]
    simp
  | case2 i front hge =>
    have hlength : bs.data.toList.length ≤ i := by
      have hsize : ¬ i < bs.data.size := hge
      simpa using hsize
    rw [List.drop_eq_nil_of_le hlength, List.append_nil]

theorem toList_eq (bs : ByteArray) : bs.toList = bs.data.toList :=
  toList_loop bs 0 []

/-- The bytes of a text are read as the text. -/
theorem ofUtf8?_utf8 (s : String) : ofUtf8? (utf8 s) = some s := by
  have hbytes : ByteArray.mk (utf8 s).toArray = s.toByteArray := by
    rw [utf8, String.toUTF8, toList_eq, Array.toArray_toList]
  rw [ofUtf8?, hbytes, String.fromUTF8?, dif_pos s.isValidUTF8]
  rfl

theorem utf8_injective : Function.Injective utf8 := fun s t h =>
  Option.some.inj <| (ofUtf8?_utf8 s).symm.trans <| (congrArg ofUtf8? h).trans (ofUtf8?_utf8 t)

end Text
end ApiScribe

/-! Trimming, cutting and splitting into lines. A text between blanks is trimmed to itself, a text
is cut at the first of a sign, and the lines of a text are pieces of it without line ends. -/
namespace ApiScribe
namespace Text

/-- Neither the first nor the last character is blank. -/
structure IsTrimmed (cs : List Char) : Prop where
  head : ∀ c ∈ cs.head?, isBlank c = false
  last : ∀ c ∈ cs.getLast?, isBlank c = false

theorem IsTrimmed.nil : IsTrimmed [] := ⟨by simp, by simp⟩

theorem isTrimmed_of_no_blank {cs : List Char} (h : ∀ c ∈ cs, isBlank c = false) :
    IsTrimmed cs :=
  ⟨fun c hc => h c (List.mem_of_mem_head? hc), fun c hc => h c (List.mem_of_getLast? hc)⟩

theorem not_blank_of_all {cs : List Char} (h : cs.all (fun c => !isBlank c) = true) :
    ∀ c ∈ cs, isBlank c = false := by
  simpa using h

theorem isTrimmed_of_all {cs : List Char} (h : cs.all (fun c => !isBlank c) = true) :
    IsTrimmed cs :=
  isTrimmed_of_no_blank (not_blank_of_all h)

theorem trimStart_append {bs : List Char} (h : ∀ c ∈ bs, isBlank c = true) (cs : List Char) :
    trimStart (bs ++ cs) = trimStart cs :=
  List.dropWhile_append_of_pos h

theorem trimStart_eq_self {cs : List Char} (h : ∀ c ∈ cs.head?, isBlank c = false) :
    trimStart cs = cs := by
  cases cs with
  | nil => rfl
  | cons c cs => simp [trimStart, h c rfl]

theorem trimEnd_append {bs : List Char} (h : ∀ c ∈ bs, isBlank c = true) (cs : List Char) :
    trimEnd (cs ++ bs) = trimEnd cs := by
  unfold trimEnd
  rw [List.reverse_append, List.dropWhile_append_of_pos (by simpa using h)]

theorem trimEnd_eq_self {cs : List Char} (h : ∀ c ∈ cs.getLast?, isBlank c = false) :
    trimEnd cs = cs := by
  have hreverse := @trimStart_eq_self cs.reverse (by simpa using h)
  unfold trimEnd
  rw [trimStart] at hreverse
  rw [hreverse, List.reverse_reverse]

/-- A trimmed text between blanks is trimmed to itself. -/
theorem trim_append (bs es : List Char) (hb : ∀ c ∈ bs, isBlank c = true)
    (he : ∀ c ∈ es, isBlank c = true) {cs : List Char} (h : IsTrimmed cs) :
    trim (bs ++ cs ++ es) = cs := by
  unfold trim
  rw [List.append_assoc, trimStart_append hb]
  cases cs with
  | nil =>
    have hes := trimStart_append he []
    rw [List.append_nil] at hes
    rw [List.nil_append, hes]
    rfl
  | cons c cs =>
    rw [trimStart_eq_self (by simpa using h.head), trimEnd_append he, trimEnd_eq_self h.last]

theorem trim_eq_self {cs : List Char} (h : IsTrimmed cs) : trim cs = cs := by
  simpa using trim_append [] [] (by simp) (by simp) h

theorem trimEnd_isPrefix (cs : List Char) : trimEnd cs <+: cs := by
  unfold trimEnd
  have hsuffix := List.dropWhile_suffix isBlank (l := cs.reverse)
  simpa using List.reverse_prefix.2 hsuffix

theorem trim_isInfix (cs : List Char) : trim cs <:+: cs :=
  (trimEnd_isPrefix _).isInfix.trans (List.dropWhile_suffix isBlank).isInfix

theorem isTrimmed_trim (cs : List Char) : IsTrimmed (trim cs) where
  head := by
    intro c hc
    have hstart := List.head?_dropWhile_not isBlank cs
    obtain ⟨rest, hrest⟩ := trimEnd_isPrefix (trimStart cs)
    rw [trim] at hc
    rw [← trimStart, ← hrest, List.head?_append, hc] at hstart
    exact hstart
  last := by
    intro c hc
    have hend := List.head?_dropWhile_not isBlank (trimStart cs).reverse
    rw [trim, trimEnd, List.getLast?_reverse] at hc
    rw [hc] at hend
    exact hend

theorem trim_eq_nil_iff {cs : List Char} : trim cs = [] ↔ isAllBlank cs = true := by
  have hstart : trimStart cs = [] ↔ isAllBlank cs = true := by
    rw [trimStart, List.dropWhile_eq_nil_iff, isAllBlank, List.all_eq_true]
  rw [← hstart, trim, trimEnd, List.reverse_eq_nil_iff, List.dropWhile_eq_nil_iff]
  constructor
  · intro hblank
    have hhead := List.head?_dropWhile_not isBlank cs
    rw [← trimStart] at hhead
    cases hcs : trimStart cs with
    | nil => rfl
    | cons c rest =>
      rw [hcs] at hhead
      have hc : isBlank c = false := hhead
      rw [hblank c (by simp [hcs])] at hc
      cases hc
  · intro hnil
    simp [hnil]

/-- A trimmed text behind blanks stays the start of what is trimmed. -/
theorem isPrefix_trim (bs rest : List Char) (hb : ∀ c ∈ bs, isBlank c = true) {cs : List Char}
    (h : IsTrimmed cs) (hne : cs ≠ []) : cs <+: trim (bs ++ cs ++ rest) := by
  obtain ⟨c, cs, rfl⟩ := List.exists_cons_of_ne_nil hne
  have hlast : (c :: cs).reverse.dropWhile isBlank = (c :: cs).reverse := by
    have hself := trimEnd_eq_self h.last
    unfold trimEnd at hself
    rwa [List.reverse_eq_iff] at hself
  unfold trim
  rw [List.append_assoc, trimStart_append hb, trimStart_eq_self (by simpa using h.head)]
  unfold trimEnd
  rw [List.reverse_append, List.dropWhile_append]
  split
  · refine ⟨[], ?_⟩
    rw [hlast, List.reverse_reverse, List.append_nil]
  · rw [List.reverse_append, List.reverse_reverse]
    exact List.prefix_append _ _

/-- A trimmed text at the end stays the end of what is trimmed. -/
theorem isSuffix_trim (rest : List Char) {cs : List Char} (h : IsTrimmed cs) (hne : cs ≠ []) :
    cs <:+ trim (rest ++ cs) := by
  obtain ⟨front, hfront⟩ : ∃ front, trimStart (rest ++ cs) = front ++ cs := by
    unfold trimStart
    rw [List.dropWhile_append]
    split
    · exact ⟨[], trimStart_eq_self h.head⟩
    · exact ⟨_, rfl⟩
  have hlast : ∀ c ∈ (front ++ cs).getLast?, isBlank c = false := by
    intro c hc
    rw [List.getLast?_append, List.getLast?_eq_some_getLast hne] at hc
    exact h.last c (by rwa [List.getLast?_eq_some_getLast hne])
  unfold trim
  rw [hfront, trimEnd_eq_self hlast]
  exact List.suffix_append _ _

/-- A text is cut at the first of a sign. -/
theorem cut?_append {x : Char} {as : List Char} (h : x ∉ as) (bs : List Char) :
    cut? [x] (as ++ x :: bs) = some (as, bs) := by
  induction as with
  | nil => simp [cut?, after?]
  | cons a as ih =>
    rw [List.mem_cons, not_or] at h
    simp [cut?, after?, h.1, ih h.2]

theorem cut?_eq_some {x : Char} {cs as bs : List Char} (h : cut? [x] cs = some (as, bs)) :
    cs = as ++ x :: bs := by
  induction cs generalizing as with
  | nil => simp [cut?] at h
  | cons c cs ih =>
    unfold cut? at h
    split at h
    · rename_i rest hrest
      cases h
      simpa using after?_eq_some_iff.1 hrest
    · obtain ⟨⟨as', bs'⟩, hcut, heq⟩ := Option.map_eq_some_iff.1 h
      cases heq
      rw [ih hcut]
      rfl

theorem cut?_eq_none {x : Char} {cs : List Char} (h : x ∉ cs) : cut? [x] cs = none := by
  cases hcut : cut? [x] cs with
  | none => rfl
  | some r =>
    rw [@cut?_eq_some x cs r.1 r.2 hcut] at h
    simp at h

theorem takeWhile_ne_append_cons {x : Char} {as : List Char} (h : x ∉ as) (bs : List Char) :
    (as ++ x :: bs).takeWhile (· ≠ x) = as := by
  rw [List.takeWhile_append_of_pos]
  · simp
  · intro a ha
    simpa using fun heq : a = x => h (heq ▸ ha)

theorem takeWhile_ne_append_of_mem {x : Char} {as : List Char} (h : x ∈ as) (bs : List Char) :
    (as ++ bs).takeWhile (· ≠ x) = as.takeWhile (· ≠ x) := by
  obtain ⟨front, rest, rfl, hfront⟩ := List.eq_append_cons_of_mem h
  rw [List.append_assoc, List.cons_append, takeWhile_ne_append_cons hfront,
    takeWhile_ne_append_cons hfront]

theorem takeWhile_ne_isPrefix (x : Char) (as bs : List Char) :
    (as ++ x :: bs).takeWhile (· ≠ x) <+: as := by
  rw [List.takeWhile_append]
  split
  · simp
  · exact List.takeWhile_prefix _

/-- A text with a sign in it is cut behind all that stands before the first one. -/
theorem cut?_of_mem {x : Char} {cs : List Char} (h : x ∈ cs) :
    ∃ rest, cut? [x] cs = some (cs.takeWhile (· ≠ x), rest) := by
  obtain ⟨as, bs, rfl, has⟩ := List.eq_append_cons_of_mem h
  exact ⟨bs, by rw [cut?_append has, takeWhile_ne_append_cons has]⟩

theorem linesFrom_append_newline {l : List Char} (h : '\r' ∉ l) (line rest : List Char) :
    linesFrom line (l ++ '\n' :: rest) = linesFrom line (l ++ ['\n']) ++ linesFrom [] rest := by
  induction l generalizing line with
  | nil => simp [linesFrom, isLineEnd, inRanges, lineEndRanges]
  | cons c cs ih =>
    rw [List.mem_cons, not_or] at h
    have hc : c ≠ '\r' := Ne.symm h.1
    rw [List.cons_append, List.cons_append, linesFrom, linesFrom]
    · split
      · rw [ih h.2, List.cons_append]
      · exact ih h.2 _
    · rintro cs rfl
      exact absurd rfl hc
    · rintro cs rfl
      exact absurd rfl hc

/-- What stands before a line feed and what stands behind it have their lines apart. -/
theorem lines_append_newline {l : List Char} (h : '\r' ∉ l) (rest : List Char) :
    lines (l ++ '\n' :: rest) = lines (l ++ ['\n']) ++ lines rest :=
  linesFrom_append_newline h [] rest

theorem linesFrom_of_no_end {l : List Char} (h : ∀ c ∈ l, isLineEnd c = false)
    (line : List Char) : linesFrom line (l ++ ['\n']) = [line.reverse ++ l] := by
  induction l generalizing line with
  | nil => simp [linesFrom, isLineEnd, inRanges, lineEndRanges]
  | cons c cs ih =>
    have hc := h c List.mem_cons_self
    have hcr : c ≠ '\r' := by
      rintro rfl
      exact absurd hc (by decide)
    rw [List.cons_append, linesFrom]
    · rw [if_neg (by simp [hc]), ih fun d hd => h d (List.mem_cons_of_mem c hd)]
      simp
    · rintro cs rfl
      exact absurd rfl hcr

theorem linesFrom_eq_of_no_end {line cs : List Char} (h : ∀ c ∈ cs, isLineEnd c = false)
    (hne : line ++ cs ≠ []) : linesFrom line cs = [line.reverse ++ cs] := by
  induction cs generalizing line with
  | nil =>
    rw [List.append_nil] at hne
    simp [linesFrom, hne]
  | cons c cs ih =>
    have hc := h c List.mem_cons_self
    have hcs : ∀ d ∈ cs, isLineEnd d = false := fun d hd => h d (List.mem_cons_of_mem c hd)
    rw [linesFrom, if_neg (by simp [hc]), ih hcs (by simp)]
    · simp
    · rintro _ rfl
      exact absurd hc (by decide)

/-- A text without line ends is its own line, unless it is empty. -/
theorem lines_eq_of_no_end {cs : List Char} (h : ∀ c ∈ cs, isLineEnd c = false) :
    lines cs = if cs = [] then [] else [cs] := by
  split
  · rename_i hempty
    rw [hempty]
    rfl
  · rename_i hne
    exact linesFrom_eq_of_no_end h hne

theorem newline_ne_of_not_isLineEnd {l : List Char} (h : ∀ c ∈ l, isLineEnd c = false) :
    '\r' ∉ l := fun hmem => absurd (h '\r' hmem) (by decide)

/-- A text without line ends is one line. -/
theorem lines_of_no_end {l : List Char} (h : ∀ c ∈ l, isLineEnd c = false) :
    lines (l ++ ['\n']) = [l] := by
  simpa [lines] using linesFrom_of_no_end h []

/-- The lines of lines are the lines. -/
theorem lines_flatMap {ls : List (List Char)} (h : ∀ l ∈ ls, ∀ c ∈ l, isLineEnd c = false) :
    lines (ls.flatMap (· ++ ['\n'])) = ls := by
  induction ls with
  | nil => rfl
  | cons l ls ih =>
    have hl := h l List.mem_cons_self
    rw [List.flatMap_cons, List.append_assoc, List.singleton_append,
      lines_append_newline (newline_ne_of_not_isLineEnd hl), lines_of_no_end hl,
      ih fun l' hl' => h l' (List.mem_cons_of_mem l hl')]
    rfl

/-- What starts as rows do has its lines row by row: each is a line of what starts as one row. -/
theorem mem_lines_of_isPrefix {rows : List (List Char)} (h : ∀ row ∈ rows, '\r' ∉ row)
    {p : List Char} (hp : p <+: rows.flatMap (· ++ ['\n'])) {x : List Char} (hx : x ∈ lines p) :
    ∃ row ∈ rows, ∃ q, q <+: row ++ ['\n'] ∧ x ∈ lines q := by
  induction rows generalizing p with
  | nil =>
    rw [List.prefix_nil.1 hp] at hx
    cases hx
  | cons row rows ih =>
    rw [List.flatMap_cons] at hp
    rcases List.prefix_or_prefix_of_prefix hp (List.prefix_append _ _) with hshort | ⟨p', rfl⟩
    · exact ⟨row, List.mem_cons_self, p, hshort, hx⟩
    · rw [List.append_assoc, List.singleton_append,
        lines_append_newline (h row List.mem_cons_self)] at hx
      rcases List.mem_append.1 hx with hx | hx
      · exact ⟨row, List.mem_cons_self, _, List.prefix_refl _, hx⟩
      · have hrest := (List.prefix_append_right_inj _).1 hp
        obtain ⟨row', hrow', q, hq, hx⟩ :=
          ih (fun r hr => h r (List.mem_cons_of_mem row hr)) hrest hx
        exact ⟨row', List.mem_cons_of_mem row hrow', q, hq, hx⟩

theorem mem_linesFrom {line cs x : List Char} (hx : x ∈ linesFrom line cs)
    (hline : ∀ c ∈ line, isLineEnd c = false) :
    (∀ c ∈ x, isLineEnd c = false) ∧ (x <+: line.reverse ++ cs ∨ x <:+: cs) := by
  fun_induction linesFrom line cs with
  | case1 line hempty => cases hx
  | case2 line hempty =>
    rw [List.mem_singleton.1 hx]
    exact ⟨by simpa using hline, .inl (by simp)⟩
  | case3 line cs ih =>
    rcases List.mem_cons.1 hx with rfl | hx
    · exact ⟨by simpa using hline, .inl (List.prefix_append _ _)⟩
    · obtain ⟨hends, hpiece⟩ := ih hx (by simp)
      have hinside : x <:+: cs := hpiece.elim (by simpa using List.IsPrefix.isInfix) id
      exact ⟨hends, .inr (hinside.trans (List.suffix_append ['\r', '\n'] cs).isInfix)⟩
  | case4 line c cs hcr hend ih =>
    rcases List.mem_cons.1 hx with rfl | hx
    · exact ⟨by simpa using hline, .inl (List.prefix_append _ _)⟩
    · obtain ⟨hends, hpiece⟩ := ih hx (by simp)
      have hinside : x <:+: cs := hpiece.elim (by simpa using List.IsPrefix.isInfix) id
      exact ⟨hends, .inr (hinside.trans (List.suffix_cons c cs).isInfix)⟩
  | case5 line c cs hcr hend ih =>
    obtain ⟨hends, hpiece⟩ := ih hx (List.forall_mem_cons.2 ⟨by simpa using hend, hline⟩)
    refine ⟨hends, hpiece.imp ?_ fun h => h.trans (List.suffix_cons c cs).isInfix⟩
    simp

/-- A line is a piece of the text, without line ends. -/
theorem mem_lines {cs x : List Char} (hx : x ∈ lines cs) :
    (∀ c ∈ x, isLineEnd c = false) ∧ x <:+: cs := by
  obtain ⟨hends, hpiece⟩ := mem_linesFrom hx (by simp)
  exact ⟨hends, hpiece.elim (by simpa using List.IsPrefix.isInfix) id⟩

theorem unifyNewlines_eq_self {cs : List Char} (h : '\r' ∉ cs) : unifyNewlines cs = cs := by
  induction cs with
  | nil => rfl
  | cons c cs ih =>
    rw [List.mem_cons, not_or] at h
    rw [unifyNewlines, if_neg (Ne.symm h.1), ih h.2]
    rintro cs rfl
    exact absurd rfl h.1

end Text
end ApiScribe
