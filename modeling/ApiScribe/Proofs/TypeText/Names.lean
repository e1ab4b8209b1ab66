import ApiScribe.TypeText
import ApiScribe.Proofs.Json.Quoted
import ApiScribe.Proofs.Naming.Words

/-! The names in the text of a type. They are read word by word, so a text that is put together
from parts with signs between them mentions what its parts mention. A text with a character that no
type has is no type, and mentions nothing. -/
namespace ApiScribe
namespace TypeText

/-- A character that ends a word and opens no literal. -/
def isSeparator (c : Char) : Bool := !isWordChar c && c != '\'' && c != '"'

/-- No word goes on at the start of these characters. -/
def EndsWord (cs : List Char) : Prop := ∀ c ∈ cs.head?, isWordChar c = false

/-- Characters of types that, read where a word can start, mention only names of one kind, and after
which a word can start again. -/
def Mentions (A : String → Prop) (cs : List Char) : Prop :=
  (∀ c ∈ cs, isTypeChar c = true) → ∀ last rest, EndsWord rest → ∃ names last',
    (∀ n ∈ names, A n) ∧
      namesFrom last .between (cs ++ rest) = names ++ namesFrom last' .between rest

variable {A : String → Prop} {c : Char} {cs ds rest w : List Char}

theorem isWordChar_of_isWordStart (h : isWordStart c = true) : isWordChar c = true := by
  simp only [isWordStart, isWordChar, Char.isAlphanum, Bool.or_eq_true] at h ⊢
  rcases h with (h | h) | h <;> simp [h]

theorem isDigit_of_not_isWordStart (h : isWordChar c = true) (hs : isWordStart c = false) :
    c.isDigit = true := by
  simp only [isWordStart, isWordChar, Char.isAlphanum, Bool.or_eq_true,
    Bool.or_eq_false_iff] at h hs
  simp_all

theorem isTypeChar_of_isWordChar (h : isWordChar c = true) : isTypeChar c = true := by
  simp only [isWordChar, Bool.or_eq_true, beq_iff_eq] at h
  unfold isTypeChar
  rcases h with (h | rfl) | rfl
  · simp [h]
  · decide
  · decide

theorem isTypeChar_of_isBlank (h : Text.isBlank c = true) : isTypeChar c = true := by
  simp [isTypeChar, h]

theorem isBlank_of_isWordChar (h : isWordChar c = true) : Text.isBlank c = false := by
  simp only [isWordChar, Bool.or_eq_true, beq_iff_eq, Naming.isAlphanum_iff] at h
  rcases h with (h | rfl) | rfl
  · cases hblank : Text.isBlank c with
    | false => rfl
    | true =>
      simp [Text.isBlank, Text.inRanges, Text.blankRanges] at hblank
      omega
  · decide
  · decide

theorem isWordChar_of_isNameChar (h : isNameChar c = true) : isWordChar c = true := by
  simp only [isNameChar, isWordChar, Bool.or_eq_true] at h ⊢
  exact .inl h

theorem isNameChar_of_isName {cs : List Char} (h : isName cs = true) :
    ∀ c ∈ cs, isNameChar c = true := by
  cases cs with
  | nil => simp
  | cons c cs =>
    rw [isName, Bool.and_eq_true, List.all_eq_true] at h
    refine List.forall_mem_cons.2 ⟨?_, h.2⟩
    have hstart := h.1
    simp only [isNameStart, isNameChar, Char.isAlphanum, Bool.or_eq_true] at hstart ⊢
    rcases hstart with hstart | hstart <;> simp [hstart]

theorem isSeparator_of_isBlank (h : Text.isBlank c = true) : isSeparator c = true := by
  have hword : isWordChar c = false := by
    rw [← Bool.not_eq_true]
    intro hword
    exact absurd (isBlank_of_isWordChar hword) (by simp [h])
  have hquote : c ≠ '\'' ∧ c ≠ '"' := by
    constructor <;> rintro rfl <;> exact absurd h (by decide)
  simp [isSeparator, hword, hquote]

theorem isWordChar_of_isSeparator (h : isSeparator c = true) : isWordChar c = false := by
  simp only [isSeparator, Bool.and_eq_true, Bool.not_eq_true'] at h
  exact h.1.1

/-- A sign that is no quote, or a digit, is passed over between words. -/
theorem namesFrom_between_cons (hstart : isWordStart c = false) (hquote : c ≠ '\'' ∧ c ≠ '"')
    (last : Char) (cs : List Char) : namesFrom last .between (c :: cs) =
      namesFrom (if Text.isBlank c then last else c) .between cs := by
  rw [namesFrom]
  simp [hstart, hquote]

theorem namesFrom_separator (h : isSeparator c = true) (last : Char) (cs : List Char) :
    namesFrom last .between (c :: cs) =
      namesFrom (if Text.isBlank c then last else c) .between cs := by
  have hstart : isWordStart c = false := by
    rw [← Bool.not_eq_true]
    intro hstart
    exact absurd (isWordChar_of_isWordStart hstart) (by simp [isWordChar_of_isSeparator h])
  simp only [isSeparator, Bool.and_eq_true, bne_iff_ne] at h
  exact namesFrom_between_cons hstart ⟨h.1.2, h.2⟩ last cs

/-- A word is read up to its end, and from there on as between words. -/
theorem namesFrom_word (hw : ∀ c ∈ w, isWordChar c = true) (hrest : EndsWord rest) (last : Char)
    (chars : List Char) (dotted : Bool) : namesFrom last (.word chars dotted) (w ++ rest) =
      typeName? (w.reverse ++ chars) dotted rest ++
        namesFrom ((w.reverse ++ chars).headD last) .between rest := by
  induction w generalizing last chars with
  | nil =>
    cases rest with
    | nil => simp [namesFrom]
    | cons c cs =>
      have hword : isWordChar c = false := hrest c (by simp)
      have hstart : isWordStart c = false := by
        rw [← Bool.not_eq_true]
        intro hstart
        exact absurd (isWordChar_of_isWordStart hstart) (by simp [hword])
      rw [List.nil_append, List.reverse_nil, List.nil_append, namesFrom, namesFrom]
      by_cases hquote : c = '\'' ∨ c = '"'
      · have hblank : Text.isBlank c = false := by rcases hquote with rfl | rfl <;> decide
        simp [hword, hquote, hblank]
      · simp [hword, hquote, hstart]
  | cons c w ih =>
    obtain ⟨hc, hw⟩ := List.forall_mem_cons.1 hw
    have hlast : ((c :: w).reverse ++ chars).headD last = (w.reverse ++ c :: chars).headD c := by
      cases hrev : w.reverse <;> simp [hrev]
    rw [hlast, List.cons_append, namesFrom]
    simp [hc, ih hw]

/-- Of word characters, digits in front are passed over and the others are one word. -/
theorem namesFrom_between_word (hw : ∀ c ∈ w, isWordChar c = true) (hrest : EndsWord rest)
    (last : Char) : ∃ last', namesFrom last .between (w ++ rest) = namesFrom last' .between rest ∨
      ∃ digits word dotted, w = digits ++ word ∧ (∀ c ∈ digits, c.isDigit = true) ∧
        namesFrom last .between (w ++ rest) =
          typeName? word.reverse dotted rest ++ namesFrom last' .between rest := by
  induction w generalizing last with
  | nil => exact ⟨last, .inl rfl⟩
  | cons c w ih =>
    obtain ⟨hc, hws⟩ := List.forall_mem_cons.1 hw
    have hquote : c ≠ '\'' ∧ c ≠ '"' := by
      constructor <;> rintro rfl <;> exact absurd hc (by decide)
    by_cases hstart : isWordStart c = true
    · have hnames := namesFrom_word hws hrest c [c] (decide (last = '.'))
      refine ⟨(w.reverse ++ [c]).headD c, .inr ⟨[], c :: w, decide (last = '.'), rfl, by simp, ?_⟩⟩
      rw [List.cons_append, namesFrom]
      simpa [hstart, hquote] using hnames
    · rw [Bool.not_eq_true] at hstart
      have hdigit := isDigit_of_not_isWordStart hc hstart
      rw [List.cons_append, namesFrom_between_cons hstart hquote]
      obtain ⟨last', hnames | ⟨digits, word, dotted, rfl, hdigits, hnames⟩⟩ := ih hws _
      · exact ⟨last', .inl hnames⟩
      · exact ⟨last', .inr ⟨c :: digits, word, dotted, rfl,
          List.forall_mem_cons.2 ⟨hdigit, hdigits⟩, hnames⟩⟩

theorem mem_typeName? {chars : List Char} {dotted : Bool} {n : String}
    (h : n ∈ typeName? chars dotted rest) : n = String.ofList chars.reverse ∧
      isKeyBefore rest = false ∧ isPrimitive n = false ∧ builtins.contains n = false := by
  unfold typeName? at h
  dsimp only at h
  split at h
  · cases h
  · next hother =>
    obtain rfl := List.mem_singleton.1 h
    simp only [Bool.or_eq_true, not_or, Bool.not_eq_true] at hother
    exact ⟨rfl, hother.1.1.1.1, hother.1.2, hother.2⟩

@[simp] theorem endsWord_nil : EndsWord [] := by simp [EndsWord]

theorem endsWord_cons (h : isSeparator c = true) : EndsWord (c :: cs) := by
  intro d hd
  cases hd
  exact isWordChar_of_isSeparator h

theorem EndsWord.append (h : EndsWord cs) (h' : EndsWord ds) : EndsWord (cs ++ ds) := by
  cases cs with
  | nil => exact h'
  | cons c cs => exact h

namespace Mentions

theorem nil : Mentions A [] := fun _ last _ _ => ⟨[], last, by simp, rfl⟩

/-- Two parts mention names one after the other, if no word goes on from one to the other. -/
theorem append (h : Mentions A cs) (h' : Mentions A ds) (hends : EndsWord ds) :
    Mentions A (cs ++ ds) := by
  intro hchars last rest hrest
  obtain ⟨hcs, hds⟩ := List.forall_mem_append.1 hchars
  obtain ⟨names, last', hnames, heq⟩ := h hcs last (ds ++ rest) (hends.append hrest)
  obtain ⟨names', last'', hnames', heq'⟩ := h' hds last' rest hrest
  refine ⟨names ++ names', last'', List.forall_mem_append.2 ⟨hnames, hnames'⟩, ?_⟩
  rw [List.append_assoc, heq, heq', List.append_assoc]

theorem separators_append (hs : cs.all isSeparator = true) (h : Mentions A ds) :
    Mentions A (cs ++ ds) := by
  induction cs with
  | nil => exact h
  | cons c cs ih =>
    obtain ⟨hc, hs⟩ := Bool.and_eq_true_iff.1 hs
    intro hchars last rest hrest
    obtain ⟨names, last', hnames, heq⟩ :=
      ih hs (List.forall_mem_cons.1 hchars).2 (if Text.isBlank c then last else c) rest hrest
    exact ⟨names, last', hnames, by rw [List.cons_append, List.cons_append,
      namesFrom_separator hc, heq]⟩

theorem separators (hs : cs.all isSeparator = true) : Mentions A cs := by
  simpa using separators_append hs (nil (A := A))

/-- A word is known without import, or it is a name of that kind. -/
theorem word (hw : ∀ c ∈ w, isWordChar c = true) (hdigit : ∀ c ∈ w.head?, c.isDigit = false)
    (hA : isPrimitive (String.ofList w) = true ∨ builtins.contains (String.ofList w) = true ∨
      A (String.ofList w)) : Mentions A w := by
  intro _ last rest hrest
  obtain ⟨last', hnames | ⟨digits, word, dotted, rfl, hdigits, hnames⟩⟩ :=
    namesFrom_between_word hw hrest last
  · exact ⟨[], last', by simp, hnames⟩
  · have hnil : digits = [] := by
      cases digits with
      | nil => rfl
      | cons c digits =>
        have hc := hdigit c rfl
        rw [hdigits c List.mem_cons_self] at hc
        cases hc
    refine ⟨_, last', fun n hn => ?_, hnames⟩
    obtain ⟨rfl, -, hprimitive, hbuiltin⟩ := mem_typeName? hn
    rw [List.reverse_reverse] at hprimitive hbuiltin ⊢
    rw [hnil, List.nil_append, hprimitive, hbuiltin] at hA
    simpa using hA

/-- A key is no type name. -/
theorem key (hw : ∀ c ∈ w, isWordChar c = true) (hends : EndsWord cs)
    (hkey : ∀ rest, isKeyBefore (cs ++ rest) = true) (h : Mentions A cs) :
    Mentions A (w ++ cs) := by
  intro hchars last rest hrest
  have hcs := (List.forall_mem_append.1 hchars).2
  rw [List.append_assoc]
  obtain ⟨last', hnames | ⟨digits, word, dotted, -, -, hnames⟩⟩ :=
    namesFrom_between_word hw (hends.append hrest) last
  · obtain ⟨names, last'', hA, heq⟩ := h hcs last' rest hrest
    exact ⟨names, last'', hA, by rw [hnames, heq]⟩
  · obtain ⟨names, last'', hA, heq⟩ := h hcs last' rest hrest
    refine ⟨names, last'', hA, ?_⟩
    have hnone : typeName? word.reverse dotted (cs ++ rest) = [] := by
      refine List.eq_nil_iff_forall_not_mem.2 fun n hn => ?_
      exact absurd (mem_typeName? hn).2.1 (by simp [hkey rest])
    rw [hnames, hnone, List.nil_append, heq]

/-- What stands between quotes is passed over. -/
theorem literal (hw : '"' ∉ w) : Mentions A ('"' :: w ++ ['"']) := by
  have hread : ∀ (cs : List Char) (last : Char) (rest : List Char), '"' ∉ cs →
      namesFrom last (.literal '"') (cs ++ '"' :: rest) = namesFrom '"' .between rest := by
    intro cs
    induction cs with
    | nil =>
      intro last rest _
      simp [namesFrom]
    | cons c cs ih =>
      intro last rest hcs
      rw [List.mem_cons, not_or] at hcs
      obtain ⟨hc, hcs⟩ := hcs
      rw [List.cons_append, namesFrom, if_neg (Ne.symm hc)]
      exact ih c rest hcs
  intro _ last rest _
  refine ⟨[], '"', by simp, ?_⟩
  have hopen : namesFrom last .between ('"' :: w ++ ['"'] ++ rest) =
      namesFrom '"' (.literal '"') (w ++ '"' :: rest) := by
    rw [List.append_assoc, List.cons_append, namesFrom]
    rfl
  rw [hopen, hread w '"' rest hw]
  rfl

/-- A quoted text that can stand in a type has no escapes. -/
theorem quoted (s : String) : Mentions A (Json.quoted s).toList := by
  have hescape : ∀ c : Char, '"' ∈ Json.quotedChar true c → '\\' ∈ Json.quotedChar true c := by
    intro c hquote
    unfold Json.quotedChar at hquote ⊢
    split
    · simp
    · next hshort =>
      simp only [hshort] at hquote
      split at hquote
      · obtain rfl := List.mem_singleton.1 hquote
        cases hshort
      · next hraw =>
        rw [if_neg hraw, Json.charEscape]
        split <;> simp [Json.unitEscape]
  intro hchars
  have hquote : '"' ∉ s.toList.flatMap (Json.quotedChar true) := by
    intro hmem
    obtain ⟨c, hc, hquote⟩ := List.mem_flatMap.1 hmem
    have hslash : '\\' ∈ (Json.quoted s).toList := by
      simpa [Json.quoted, Json.quotedChars] using ⟨c, hc, hescape c hquote⟩
    exact absurd (hchars _ hslash) (by decide)
  rw [Json.quoted, String.toList_ofList] at hchars ⊢
  exact literal hquote hchars

/-- Parts with separators between them mention what the parts mention. -/
theorem intercalate {sep : String} (hne : sep ≠ "") (hsep : sep.toList.all isSeparator = true)
    {ts : List String} (h : ∀ t ∈ ts, Mentions A t.toList) :
    Mentions A (sep.intercalate ts).toList := by
  induction ts with
  | nil => exact nil
  | cons t ts ih =>
    obtain ⟨ht, hts⟩ := List.forall_mem_cons.1 h
    cases ts with
    | nil => simpa using ht
    | cons u us =>
      obtain ⟨c, cs, hcs⟩ := List.exists_cons_of_ne_nil (l := sep.toList) (by simpa using hne)
      have hends : EndsWord (sep.toList ++ (sep.intercalate (u :: us)).toList) := by
        rw [hcs] at hsep ⊢
        exact endsWord_cons (Bool.and_eq_true_iff.1 hsep).1
      rw [String.intercalate_cons_cons, String.toList_append, String.toList_append,
        List.append_assoc]
      exact ht.append (separators_append hsep (ih hts)) hends

end Mentions

theorem isKeyBefore_iff : isKeyBefore cs = true ↔
    (Text.trimStart cs).take 1 = [':'] ∨ (Text.trimStart cs).take 2 = ['?', ':'] := by
  unfold isKeyBefore
  split
  · next ds h => simp [h]
  · next ds h => simp [h]
  · next h h' =>
    refine iff_of_false (by simp) ?_
    rcases hcs : Text.trimStart cs with _ | ⟨c, _ | ⟨d, ds⟩⟩
    · simp
    · simp only [List.take_succ_cons, List.take_nil]
      simpa using fun hc => h [] (by rw [hcs, hc])
    · have hcolon : c ≠ ':' := fun hc => h (d :: ds) (by rw [hcs, hc])
      have hmark : ¬(c = '?' ∧ d = ':') := fun hcd => h' ds (by rw [hcs, hcd.1, hcd.2])
      simpa [hcolon] using hmark

/-- Blanks at the end make no key. -/
theorem isKeyBefore_append_blanks {bs : List Char} (hbs : ∀ b ∈ bs, Text.isBlank b = true)
    (cs : List Char) : isKeyBefore (cs ++ bs) = isKeyBefore cs := by
  have hcolon : bs.take 1 ≠ [':'] := by
    intro htake
    exact absurd (hbs ':' (List.mem_of_mem_take (htake ▸ List.mem_singleton_self ':'))) (by decide)
  have hnil : Text.trimStart bs = [] := List.dropWhile_eq_nil_iff.2 hbs
  rw [Bool.eq_iff_iff, isKeyBefore_iff, isKeyBefore_iff]
  induction cs with
  | nil => rw [List.nil_append, hnil, Text.trimStart, List.dropWhile_nil]
  | cons c cs ih =>
    by_cases hblank : Text.isBlank c = true
    · unfold Text.trimStart at ih ⊢
      rwa [List.cons_append, List.dropWhile_cons_of_pos hblank, List.dropWhile_cons_of_pos hblank]
    · have htrim : ∀ ds, Text.trimStart (c :: ds) = c :: ds :=
        fun ds => List.dropWhile_cons_of_neg hblank
      rw [List.cons_append, htrim, htrim]
      cases cs with
      | nil => simp [hcolon]
      | cons d ds => simp

/-- Blanks at the end of a text change none of its names. -/
theorem namesFrom_append_blanks {bs : List Char} (hbs : ∀ b ∈ bs, Text.isBlank b = true)
    (last : Char) (mode : Mode) (cs : List Char) :
    namesFrom last mode (cs ++ bs) = namesFrom last mode cs := by
  have hbetween : ∀ (bs : List Char), (∀ b ∈ bs, Text.isBlank b = true) → ∀ last,
      namesFrom last .between bs = [] := by
    intro bs
    induction bs with
    | nil => exact fun _ _ => rfl
    | cons b bs ih =>
      intro hbs last
      obtain ⟨hb, hbs⟩ := List.forall_mem_cons.1 hbs
      rw [namesFrom_separator (isSeparator_of_isBlank hb), ih hbs]
  have hliteral : ∀ (bs : List Char) (q last : Char), (∀ b ∈ bs, Text.isBlank b = true) →
      namesFrom last (.literal q) bs = [] := by
    intro bs q
    induction bs with
    | nil => exact fun _ _ => rfl
    | cons b bs ih =>
      intro last hbs
      obtain ⟨hb, hbs⟩ := List.forall_mem_cons.1 hbs
      rw [namesFrom]
      split
      · exact hbetween bs hbs b
      · exact ih b hbs
  induction cs generalizing last mode with
  | nil =>
    cases mode with
    | between => exact hbetween bs hbs last
    | literal q => exact hliteral bs q last hbs
    | word chars dotted =>
      have hends : EndsWord bs := by
        intro b hb
        exact isWordChar_of_isSeparator
          (isSeparator_of_isBlank (hbs b (List.mem_of_mem_head? hb)))
      have hnames := namesFrom_word (w := []) (by simp) hends last chars dotted
      have hkey : isKeyBefore bs = isKeyBefore [] := isKeyBefore_append_blanks hbs []
      rw [hnames, hbetween bs hbs, List.append_nil, List.reverse_nil, List.nil_append, namesFrom,
        typeName?, typeName?, hkey]
  | cons c cs ih =>
    cases mode with
    | literal q =>
      rw [List.cons_append, namesFrom, namesFrom]
      exact ih _ _
    | between =>
      rw [List.cons_append, namesFrom, namesFrom]
      simp only [ih]
    | word chars dotted =>
      have hkey : isKeyBefore (c :: (cs ++ bs)) = isKeyBefore (c :: cs) :=
        isKeyBefore_append_blanks hbs (c :: cs)
      have hname : typeName? chars dotted (c :: (cs ++ bs)) = typeName? chars dotted (c :: cs) := by
        rw [typeName?, typeName?, hkey]
      rw [List.cons_append, namesFrom, namesFrom, hname]
      simp only [ih]

/-- Blanks around a text change none of its names. -/
theorem namesFrom_trim (last : Char) (cs : List Char) :
    namesFrom last .between (Text.trim cs) = namesFrom last .between cs := by
  have hstart : ∀ cs, namesFrom last .between (Text.trimStart cs) = namesFrom last .between cs := by
    intro cs
    induction cs with
    | nil => rfl
    | cons c cs ih =>
      unfold Text.trimStart at ih ⊢
      by_cases hblank : Text.isBlank c = true
      · rw [List.dropWhile_cons_of_pos hblank, ih,
          namesFrom_separator (isSeparator_of_isBlank hblank), if_pos hblank]
      · rw [List.dropWhile_cons_of_neg hblank]
  have hsplit : Text.trimStart cs = Text.trim cs ++
      ((Text.trimStart cs).reverse.takeWhile Text.isBlank).reverse := by
    rw [Text.trim, Text.trimEnd, ← List.reverse_append, List.takeWhile_append_dropWhile,
      List.reverse_reverse]
  have hblank : ∀ b ∈ ((Text.trimStart cs).reverse.takeWhile Text.isBlank).reverse,
      Text.isBlank b = true := by
    intro b hb
    exact List.mem_takeWhile_imp (List.mem_reverse.1 hb)
  rw [← hstart cs, hsplit, namesFrom_append_blanks hblank]

theorem isTypeChar_of_isName {cs : List Char} (h : isName cs = true) :
    ∀ c ∈ cs, isTypeChar c = true := fun c hc =>
  isTypeChar_of_isWordChar (isWordChar_of_isNameChar (isNameChar_of_isName h c hc))

/-- What can stand as a type has only characters of types. -/
theorem isTypeChar_of_isUsable {t : String} (h : isUsable t = true) :
    ∀ c ∈ t.toList, isTypeChar c = true := by
  simp only [isUsable, Bool.or_eq_true, Bool.and_eq_true] at h
  rcases h with (h | h) | h
  · have hall : (primitives.all fun s => s.toList.all isTypeChar) = true := by decide
    exact List.all_eq_true.1 (List.all_eq_true.1 hall t (by simpa [isPrimitive] using h))
  · intro c hc
    have hname := isTypeChar_of_isName h
    unfold chomp at hname
    split at hname
    · next hlast =>
      obtain ⟨front, hfront⟩ := List.getLast?_eq_some_iff.1 hlast
      rw [hfront, List.dropLast_concat] at hname
      rw [hfront, List.mem_append] at hc
      rcases hc with hc | hc
      · exact hname c hc
      · rw [List.mem_singleton.1 hc]
        decide
    · exact hname c hc
  · exact List.all_eq_true.1 h.1

/-- Trimming takes blanks only. -/
theorem mem_trim_of_not_isBlank (hc : c ∈ cs) (hblank : Text.isBlank c ≠ true) :
    c ∈ Text.trim cs := by
  have hdrop : ∀ cs : List Char, c ∈ cs → c ∈ cs.dropWhile Text.isBlank := by
    intro cs hc
    rw [← List.takeWhile_append_dropWhile (p := Text.isBlank) (l := cs), List.mem_append] at hc
    exact hc.resolve_left fun hmem => hblank (List.mem_takeWhile_imp hmem)
  exact List.mem_reverse.2 (hdrop _ (List.mem_reverse.2 (hdrop cs hc)))

/-- A text that mentions only names of one kind still does once it is checked. -/
theorem Mentions.names_normalize {t : String} (h : Mentions A t.toList) :
    ∀ n ∈ names (normalize t), A n := by
  intro n hn
  unfold normalize at hn
  dsimp only at hn
  split at hn
  · next husable =>
    rw [Bool.and_eq_true] at husable
    have hchars : ∀ c ∈ t.toList, isTypeChar c = true := by
      intro c hc
      by_cases hblank : Text.isBlank c = true
      · exact isTypeChar_of_isBlank hblank
      · refine isTypeChar_of_isUsable husable.2 c ?_
        rw [Text.trimmed, String.toList_ofList]
        exact mem_trim_of_not_isBlank hc hblank
    obtain ⟨ns, last, hns, heq⟩ := h hchars ' ' [] endsWord_nil
    rw [names, Text.trimmed, String.toList_ofList, namesFrom_trim, List.mem_eraseDups,
      ← List.append_nil t.toList, heq] at hn
    exact hns n (by simpa [namesFrom] using hn)
  · have hunknown : names "unknown" = [] := by decide
    rw [hunknown] at hn
    cases hn

/-- A word that is being read consists of word characters. -/
def Mode.IsWord : Mode → Prop
  | .word chars _ => ∀ c ∈ chars, isWordChar c = true
  | _ => True

theorem isWordChar_of_mem_namesFrom {last : Char} {mode : Mode} (hmode : mode.IsWord) {n : String}
    (h : n ∈ namesFrom last mode cs) : ∀ c ∈ n.toList, isWordChar c = true := by
  have hname : ∀ {chars dotted rest}, Mode.IsWord (.word chars dotted) →
      n ∈ typeName? chars dotted rest → ∀ c ∈ n.toList, isWordChar c = true := by
    intro chars dotted rest hword hn c hc
    obtain ⟨rfl, -⟩ := mem_typeName? hn
    exact hword c (by simpa using hc)
  induction cs generalizing last mode with
  | nil =>
    cases mode with
    | word chars dotted => exact hname hmode h
    | between => cases h
    | literal q => cases h
  | cons d cs ih =>
    cases mode with
    | literal q =>
      refine ih ?_ h
      split <;> trivial
    | between =>
      rw [namesFrom] at h
      split at h
      · have hliteral : Mode.IsWord (.literal d) := trivial
        exact ih hliteral h
      split at h
      · next hstart =>
        have hword : Mode.IsWord (.word [d] (decide (last = '.'))) :=
          List.forall_mem_singleton.2 (isWordChar_of_isWordStart hstart)
        exact ih hword h
      · have hbetween : Mode.IsWord .between := trivial
        exact ih hbetween h
    | word chars dotted =>
      rw [namesFrom] at h
      split at h
      · next hd =>
        have hword : Mode.IsWord (.word (d :: chars) dotted) := List.forall_mem_cons.2 ⟨hd, hmode⟩
        exact ih hword h
      · rcases List.mem_append.1 h with h | h
        · exact hname hmode h
        · refine ih ?_ h
          split <;> trivial

/-- The names of a type are words. -/
theorem isWordChar_of_mem_names {t n : String} (h : n ∈ names t) :
    ∀ c ∈ n.toList, isWordChar c = true := by
  have hbetween : Mode.IsWord .between := trivial
  exact isWordChar_of_mem_namesFrom hbetween (List.mem_eraseDups.1 h)

end TypeText
end ApiScribe
