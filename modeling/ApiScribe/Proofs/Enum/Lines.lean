import Mathlib.Data.List.TakeWhile
import ApiScribe.Enum.Source
import ApiScribe.Model.Text
import ApiScribe.Proofs.Json.Quoted
import ApiScribe.Proofs.Text.Comment
import ApiScribe.Proofs.Text.Lines
import ApiScribe.Proofs.TypeText.Names

/-! Heads of enums. A head is found where the words `export` and `enum`, a name and a brace stand
with blanks between them and nothing else, so none reaches across the end of a comment. -/
namespace ApiScribe
namespace SourceEnum

/-- A name in code. -/
def isName : List Char → Bool
  | c :: cs => TypeText.isWordStart c && cs.all TypeText.isWordChar
  | [] => false

/-- Blanks only. -/
def AreBlank (cs : List Char) : Prop := ∀ c ∈ cs, Text.isBlank c = true

/-- A text that is the head of the enum with a name. -/
inductive IsHead (name : List Char) : List Char → Prop
  | intro {bs cs ds : List Char} (hbs : bs ≠ []) (hbsBlank : AreBlank bs) (hcs : cs ≠ [])
      (hcsBlank : AreBlank cs) (hname : isName name = true) (hdsBlank : AreBlank ds) :
      IsHead name ("export".toList ++ bs ++ "enum".toList ++ cs ++ name ++ ds ++ ['\x7b'])

theorem isWordChar_of_isName {name : List Char} (h : isName name = true) :
    ∀ c ∈ name, TypeText.isWordChar c = true := by
  cases name with
  | nil => cases h
  | cons c cs =>
    rw [isName, Bool.and_eq_true, List.all_eq_true] at h
    exact List.forall_mem_cons.2 ⟨TypeText.isWordChar_of_isWordStart h.1, h.2⟩

theorem afterBlanks?_eq_some {cs rest : List Char} (h : afterBlanks? cs = some rest) :
    ∃ bs, bs ≠ [] ∧ AreBlank bs ∧ cs = bs ++ rest := by
  unfold afterBlanks? at h
  split at h
  · rename_i c more
    split at h
    · rename_i hblank
      cases h
      refine ⟨c :: more.takeWhile Text.isBlank, List.cons_ne_nil _ _, ?_, ?_⟩
      · exact List.forall_mem_cons.2 ⟨hblank, fun d hd => List.mem_takeWhile_imp hd⟩
      · rw [List.cons_append, Text.trimStart, List.takeWhile_append_dropWhile]
    · cases h
  · cases h

theorem afterBlanks?_append {bs rest : List Char} (hne : bs ≠ []) (hblank : AreBlank bs)
    (hrest : ∀ c ∈ rest.head?, Text.isBlank c = false) :
    afterBlanks? (bs ++ rest) = some rest := by
  obtain ⟨b, bs, rfl⟩ := List.exists_cons_of_ne_nil hne
  have hb := hblank b List.mem_cons_self
  have hbs : AreBlank bs := fun c hc => hblank c (List.mem_cons_of_mem b hc)
  rw [List.cons_append, afterBlanks?, if_pos hb, Text.trimStart_append hbs,
    Text.trimStart_eq_self hrest]

theorem dropWhile_name {name more : List Char} (h : isName name = true)
    (hmore : ∀ c ∈ more.head?, TypeText.isWordChar c = false) :
    (name ++ more).dropWhile TypeText.isWordChar = more ∧
      (name ++ more).takeWhile TypeText.isWordChar = name := by
  have hall := isWordChar_of_isName h
  rw [List.dropWhile_append_of_pos hall, List.takeWhile_append_of_pos hall]
  cases more with
  | nil => simp
  | cons c cs => simp [hmore c rfl]

theorem isWordChar_head?_blank {ds : List Char} (hds : AreBlank ds) (rest : List Char) :
    ∀ c ∈ (ds ++ '{' :: rest).head?, TypeText.isWordChar c = false := by
  cases ds with
  | nil =>
    intro c hc
    cases hc
    decide
  | cons d ds =>
    intro c hc
    cases hc
    cases hword : TypeText.isWordChar d with
    | false => rfl
    | true =>
      have hblank := hds d List.mem_cons_self
      rw [TypeText.isBlank_of_isWordChar hword] at hblank
      cases hblank

/-- A head is read where one stands. -/
theorem headAt?_append {name p : List Char} (h : IsHead name p) (rest : List Char) :
    headAt? (p ++ rest) = some (name, rest) := by
  obtain @⟨bs, cs, ds, hbs, hbsBlank, hcs, hcsBlank, hname, hdsBlank⟩ := h
  obtain ⟨c, more, rfl⟩ : ∃ c more, name = c :: more := by
    cases name with
    | nil => cases hname
    | cons c more => exact ⟨c, more, rfl⟩
  have hstart : TypeText.isWordStart c = true := by
    rw [isName, Bool.and_eq_true] at hname
    exact hname.1
  have hblank := TypeText.isBlank_of_isWordChar (TypeText.isWordChar_of_isWordStart hstart)
  have htail := dropWhile_name hname (isWordChar_head?_blank hdsBlank rest)
  have htext :
      "export".toList ++ bs ++ "enum".toList ++ cs ++ (c :: more) ++ ds ++ ['\x7b'] ++ rest =
        "export".toList ++ (bs ++ ("enum".toList ++ (cs ++ ((c :: more) ++
          (ds ++ '\x7b' :: rest))))) := by
    simp
  have hbrace : Text.trimStart (ds ++ '\x7b' :: rest) = '\x7b' :: rest := by
    rw [Text.trimStart_append hdsBlank]
    rfl
  rw [htext, headAt?, Text.after?_eq_some_iff.2 rfl]
  simp only [Option.bind_eq_bind, Option.bind_some]
  rw [afterBlanks?_append hbs hbsBlank (by simp; decide)]
  simp only [Option.bind_some]
  rw [Text.after?_eq_some_iff.2 rfl]
  simp only [Option.bind_some]
  rw [afterBlanks?_append hcs hcsBlank (by simpa using hblank)]
  obtain ⟨hdrop, htake⟩ := htail
  rw [List.cons_append] at hdrop htake ⊢
  simp only [Option.bind_some, hstart, if_true, hdrop, htake, hbrace]

/-- What is read as a head is one. -/
theorem headAt?_eq_some {text name rest : List Char} (h : headAt? text = some (name, rest)) :
    ∃ p, IsHead name p ∧ text = p ++ rest := by
  unfold headAt? at h
  simp only [Option.bind_eq_bind, Option.bind_eq_some_iff] at h
  obtain ⟨afterExport, hexport, afterBs, hbs, afterEnum, henum, afterCs, hcs, h⟩ := h
  obtain ⟨bs, hbsne, hbsBlank, rfl⟩ := afterBlanks?_eq_some hbs
  obtain ⟨cs, hcsne, hcsBlank, rfl⟩ := afterBlanks?_eq_some hcs
  obtain rfl := Text.after?_eq_some_iff.1 hexport
  obtain rfl := Text.after?_eq_some_iff.1 henum
  split at h
  · cases h
  rename_i c more
  split at h
  · rename_i hstart
    split at h
    · rename_i rest' hbrace
      cases h
      have hword := TypeText.isWordChar_of_isWordStart hstart
      let name := (c :: more).takeWhile TypeText.isWordChar
      let behind := (c :: more).dropWhile TypeText.isWordChar
      let ds := behind.takeWhile Text.isBlank
      have hname : isName name = true := by
        show isName ((c :: more).takeWhile TypeText.isWordChar) = true
        rw [List.takeWhile_cons_of_pos hword, isName, hstart, Bool.true_and, List.all_eq_true]
        exact fun d hd => List.mem_takeWhile_imp hd
      have hbehind : ds ++ '\x7b' :: rest = behind := by
        rw [← hbrace]
        exact List.takeWhile_append_dropWhile
      have hsplit : name ++ behind = c :: more := List.takeWhile_append_dropWhile
      have hds : AreBlank ds := fun d hd => List.mem_takeWhile_imp hd
      have htext : c :: more = name ++ (ds ++ '\x7b' :: rest) := by rw [hbehind, hsplit]
      refine ⟨_, .intro hbsne hbsBlank hcsne hcsBlank hname hds, ?_⟩
      show _ = "export".toList ++ bs ++ "enum".toList ++ cs ++ name ++ ds ++ ['\x7b'] ++ rest
      rw [htext]
      simp
    · cases h
  · cases h

theorem star_not_mem_of_isHead {name p : List Char} (h : IsHead name p) : '*' ∉ p := by
  have hblank {bs : List Char} (hbs : AreBlank bs) : '*' ∉ bs :=
    fun hmem => absurd (hbs '*' hmem) (by decide)
  obtain @⟨bs, cs, ds, -, hbs, -, hcs, hname, hds⟩ := h
  have hword : '*' ∉ name := fun hmem => absurd (isWordChar_of_isName hname '*' hmem) (by decide)
  simp [hblank hbs, hblank hcs, hblank hds, hword]

theorem getLast?_of_isHead {name p : List Char} (h : IsHead name p) : p.getLast? = some '\x7b' := by
  cases h
  exact List.getLast?_concat

theorem head?_of_isHead {name p : List Char} (h : IsHead name p) : p.head? = some 'e' := by
  cases h
  rfl

/-- No head reaches across a star behind a blank. -/
theorem headAt?_append_star (text more : List Char) :
    headAt? (text ++ ' ' :: '*' :: more) =
      (headAt? text).map fun r => (r.1, r.2 ++ ' ' :: '*' :: more) := by
  cases hhead : headAt? text with
  | some r =>
    obtain ⟨name, rest⟩ := r
    obtain ⟨p, hp, rfl⟩ := headAt?_eq_some hhead
    rw [List.append_assoc, headAt?_append hp]
    rfl
  | none =>
    rw [Option.map_none, Option.eq_none_iff_forall_ne_some]
    rintro ⟨name, rest⟩ hsome
    obtain ⟨p, hp, htext⟩ := headAt?_eq_some hsome
    have hstar := star_not_mem_of_isHead hp
    rcases List.append_eq_append_iff.1 htext with ⟨more', hmore, hrest⟩ | ⟨more', hmore, hrest⟩
    · -- The head would end at the blank, or reach across the star.
      match more', hrest with
      | [], _ =>
        rw [List.append_nil] at hmore
        have hself := headAt?_append hp []
        rw [List.append_nil, hmore, hhead] at hself
        cases hself
      | [c], hrest =>
        cases hrest
        have hlast := getLast?_of_isHead hp
        rw [hmore] at hlast
        simp at hlast
      | c :: d :: _, hrest =>
        cases hrest
        exact hstar (by simp [hmore])
    · rw [hmore, headAt?_append hp] at hhead
      cases hhead

theorem headAt?_cons_eq_none {c : Char} (h : c ≠ 'e') (cs : List Char) :
    headAt? (c :: cs) = none := by
  rw [Option.eq_none_iff_forall_ne_some]
  rintro ⟨name, rest⟩ hsome
  obtain ⟨p, hp, htext⟩ := headAt?_eq_some hsome
  have hhead := head?_of_isHead hp
  obtain ⟨more, rfl⟩ := List.head?_eq_some_iff.1 hhead
  cases htext
  exact h rfl

theorem findHead?_cons {c : Char} (h : c ≠ 'e') (cs : List Char) :
    findHead? (c :: cs) = findHead? cs := by
  rw [findHead?, headAt?_cons_eq_none h]

theorem findHead?_isSuffix {text name rest : List Char} (h : findHead? text = some (name, rest)) :
    rest <:+ text := by
  induction text with
  | nil => cases h
  | cons c cs ih =>
    unfold findHead? at h
    split at h
    · rename_i r hat
      cases h
      obtain ⟨p, -, htext⟩ := headAt?_eq_some hat
      exact ⟨p, htext.symm⟩
    · exact (ih h).trans (List.suffix_cons c cs)

theorem findHead?_append_isHead {name p : List Char} (h : IsHead name p) (rest : List Char) :
    findHead? (p ++ rest) = some (name, rest) := by
  have hat := headAt?_append h rest
  obtain ⟨more, rfl⟩ := List.head?_eq_some_iff.1 (head?_of_isHead h)
  rw [List.cons_append] at hat ⊢
  rw [findHead?, hat]

/-- The first head of a text that goes on behind a star is in front of the star, or the first one
behind it. -/
theorem findHead?_append_star (text more : List Char) :
    findHead? (text ++ ' ' :: '*' :: more) = match findHead? text with
      | some r => some (r.1, r.2 ++ ' ' :: '*' :: more)
      | none => findHead? more := by
  induction text with
  | nil =>
    rw [List.nil_append, findHead?_cons (by decide), findHead?_cons (by decide)]
    rfl
  | cons c cs ih =>
    have hat := headAt?_append_star (c :: cs) more
    rw [List.cons_append] at hat ⊢
    rw [findHead?, findHead?, hat]
    cases headAt? (c :: cs) with
    | some r => rfl
    | none => exact ih

end SourceEnum
end ApiScribe

/-! Lines of enums. A member that is written on a line is read from it, with its value and the
comment on the line before. -/
namespace ApiScribe
namespace SourceEnum

/-- What was read so far: the comment for the next member, and the members. -/
abbrev Progress := Option String × Entries String SourceMember

/-- Reads one line. -/
def step (s : Progress) (l : List Char) : Progress :=
  match lineOf (Text.trim l) with
  | .comment text => (text, s.2)
  | .skipped => s
  | .other => (none, s.2)
  | .member name value => (none, s.2.put (valueKey value) ⟨String.ofList name, s.1⟩)

theorem readLines_eq_foldl (pending : Option String) (found : Entries String SourceMember)
    (ls : List (List Char)) : readLines pending found ls = (ls.foldl step (pending, found)).2 := by
  induction ls generalizing pending found with
  | nil => rfl
  | cons l ls ih =>
    rw [readLines, List.foldl_cons, step]
    cases lineOf (Text.trim l) <;> exact ih _ _

/-- A character of the names of members: one of a plain name, or one beyond ASCII that is not
blank, as in the names of every script. -/
def isMemberChar (c : Char) : Bool :=
  TypeText.isWordChar c || (128 ≤ c.toNat && !Text.isBlank c)

/-- A character of numbers. -/
def isNumeralChar (c : Char) : Bool := c.isDigit || ['+', '-', '.', 'e', 'E'].contains c

/-- A member that can stand in code: a name, with a text or a number for its value. -/
structure IsDeclarable (e : EnumMember) : Prop where
  name_ne : e.name.toList ≠ []
  name : ∀ c ∈ e.name.toList, isMemberChar c = true
  number_ne : e.value.kind = .number → e.value.value.toList ≠ []
  number : e.value.kind = .number → ∀ c ∈ e.value.value.toList, isNumeralChar c = true

theorem isBlank_of_isMemberChar {c : Char} (h : isMemberChar c = true) :
    Text.isBlank c = false := by
  rw [isMemberChar, Bool.or_eq_true, Bool.and_eq_true] at h
  rcases h with h | ⟨-, h⟩
  · exact TypeText.isBlank_of_isWordChar h
  · simpa using h

theorem isBlank_of_isNumeralChar {c : Char} (h : isNumeralChar c = true) :
    Text.isBlank c = false := by
  rw [isNumeralChar, Bool.or_eq_true] at h
  rcases h with h | h
  · exact TypeText.isBlank_of_isWordChar (by simp [TypeText.isWordChar, Char.isAlphanum, h])
  · simp only [List.contains_iff_mem, List.mem_cons, List.not_mem_nil, or_false] at h
    rcases h with rfl | rfl | rfl | rfl | rfl <;> decide

/-- The comment that a member is read with. -/
def commentOf? (comment : Option String) : Option String :=
  if commentText comment = "" then none else some (commentText comment)

/-- The characters of a member without the blanks in front. -/
def memberChars (e : EnumMember) : List Char :=
  e.name.toList ++ ' ' :: '=' :: ' ' :: (e.value.text.toList ++ [','])

/-- The characters of a comment without the blanks in front. -/
def commentChars (text : List Char) : List Char :=
  '/' :: '*' :: '*' :: ' ' :: (text ++ [' ', '*', '/'])

theorem toList_text_string {l : Literal} (h : l.kind = .string) :
    l.text.toList = '"' :: (l.value.toList.flatMap (Json.quotedChar false) ++ ['"']) := by
  simp [Literal.text, h, Json.quotedRaw, Json.quotedChars]

theorem toList_text_number {l : Literal} (h : l.kind = .number) :
    l.text.toList = l.value.toList := by
  simp [Literal.text, h]

theorem IsDeclarable.isTrimmed_text {e : EnumMember} (h : IsDeclarable e) :
    Text.IsTrimmed e.value.text.toList ∧ e.value.text.toList ≠ [] ∧
      ∀ c ∈ e.value.text.toList.getLast?, c ≠ ',' := by
  cases hkind : e.value.kind with
  | string =>
    rw [toList_text_string hkind, ← List.cons_append]
    refine ⟨⟨?_, ?_⟩, by simp, ?_⟩ <;> intro c hc
    · cases hc
      decide
    · rw [List.getLast?_concat] at hc
      cases hc
      decide
    · rw [List.getLast?_concat] at hc
      cases hc
      decide
  | number =>
    have hchars := h.number hkind
    rw [toList_text_number hkind]
    refine ⟨Text.isTrimmed_of_no_blank fun c hc => isBlank_of_isNumeralChar (hchars c hc),
      h.number_ne hkind, ?_⟩
    rintro c hc rfl
    exact absurd (hchars ',' (List.mem_of_getLast? hc)) (by decide)

/-- The text of a value stands for the value. -/
theorem IsDeclarable.valueKey_text {e : EnumMember} (h : IsDeclarable e) :
    valueKey e.value.text.toList = e.value.value := by
  cases hkind : e.value.kind with
  | string =>
    have hread := Json.read_quotedRaw e.value.value
    have htext : e.value.text = Json.quotedRaw e.value.value := by simp [Literal.text, hkind]
    have hhead : e.value.text.toList.head? = some '"' := by
      rw [toList_text_string hkind]
      rfl
    rw [valueKey, if_pos hhead, String.ofList_toList, htext, hread]
  | number =>
    have hhead : e.value.value.toList.head? ≠ some '"' := by
      intro hquote
      exact absurd (h.number hkind '"' (List.mem_of_mem_head? hquote)) (by decide)
    rw [toList_text_number hkind, valueKey, if_neg hhead, String.ofList_toList]

theorem withoutCommas_eq_self {cs : List Char} (h : ∀ c ∈ cs.getLast?, c ≠ ',') :
    withoutCommas cs = cs := by
  have hreverse : ∀ c ∈ cs.reverse.head?, c ≠ ',' := by simpa using h
  unfold withoutCommas
  cases hcs : cs.reverse with
  | nil => simpa using hcs.symm
  | cons c rest =>
    rw [hcs] at hreverse
    rw [List.dropWhile_cons_of_neg (by simpa using hreverse c rfl), ← hcs, List.reverse_reverse]

theorem withoutCommas_append {cs : List Char} (h : ∀ c ∈ cs.getLast?, c ≠ ',') :
    withoutCommas (cs ++ [',']) = cs := by
  have hself := withoutCommas_eq_self h
  unfold withoutCommas at hself ⊢
  rw [List.reverse_concat, List.dropWhile_cons_of_pos (by simp), hself]

theorem not_mem_of_isMemberChar {cs : List Char} (h : ∀ c ∈ cs, isMemberChar c = true) {x : Char}
    (hx : isMemberChar x = false) : x ∉ cs := by
  intro hmem
  rw [h x hmem] at hx
  cases hx

/-- The line of a member is read as that member. -/
theorem lineOf_memberChars {e : EnumMember} (h : IsDeclarable e) :
    lineOf (memberChars e) = .member e.name.toList e.value.text.toList := by
  obtain ⟨htrimmed, hne, hcomma⟩ := h.isTrimmed_text
  obtain ⟨c, cs, hname⟩ := List.exists_cons_of_ne_nil h.name_ne
  have hc : isMemberChar c = true := h.name c (by simp [hname])
  have hfirst (x : Char) (hx : isMemberChar x = false) : c ≠ x := by
    rintro rfl
    rw [hc] at hx
    cases hx
  have heq : '=' ∉ e.name.toList ++ [' '] := by
    simp [not_mem_of_isMemberChar h.name (x := '=') (by decide)]
  have hcommas : withoutCommas (memberChars e) =
      (e.name.toList ++ [' ']) ++ '=' :: (' ' :: e.value.text.toList) := by
    have hlast : ∀ c ∈ ((e.name.toList ++ [' ']) ++ '=' :: (' ' :: e.value.text.toList)).getLast?,
        c ≠ ',' := by
      intro d hd
      rw [List.getLast?_append] at hd
      obtain ⟨t, ts, htext⟩ := List.exists_cons_of_ne_nil hne
      rw [htext] at hd hcomma
      simp only [List.getLast?_cons, Option.some_or] at hd hcomma
      exact hcomma d hd
    rw [← withoutCommas_append hlast]
    simp [memberChars]
  have hnameTrim : Text.trim (e.name.toList ++ [' ']) = e.name.toList := by
    have hblank := Text.isTrimmed_of_no_blank fun c hc => isBlank_of_isMemberChar (h.name c hc)
    simpa using Text.trim_append [] [' '] (by simp) (List.all_eq_true.1 (by decide)) hblank
  have hvalueTrim : Text.trim (' ' :: e.value.text.toList) = e.value.text.toList := by
    simpa using Text.trim_append [' '] [] (List.all_eq_true.1 (by decide)) (by simp) htrimmed
  have hstart (p : List Char) (x : Char) (hx : isMemberChar x = false) :
      Text.startsWith (x :: p) (memberChars e) = false := by
    simp [memberChars, hname, Text.startsWith, Text.after?, Ne.symm (hfirst x hx)]
  have hempty : (memberChars e).isEmpty = false := by simp [memberChars, hname]
  have hcut := Text.cut?_append heq (' ' :: e.value.text.toList)
  rw [← hcommas] at hcut
  have hnameNe : e.name.toList.isEmpty = false := by simp [hname]
  have hvalueNe : e.value.text.toList.isEmpty = false := by simpa using hne
  have hdoc : Text.startsWith "/**".toList (memberChars e) = false :=
    hstart ['*', '*'] '/' (by decide)
  have hstar : Text.startsWith "*".toList (memberChars e) = false := hstart [] '*' (by decide)
  have hslashes : Text.startsWith "//".toList (memberChars e) = false :=
    hstart ['/'] '/' (by decide)
  have hopen : Text.startsWith "/*".toList (memberChars e) = false := hstart ['*'] '/' (by decide)
  unfold lineOf
  simp only [hempty, hcut, hnameTrim, hvalueTrim, hnameNe, hvalueNe]
  rw [hdoc, hstar, hslashes, hopen]
  rfl

/-- The line of a comment is read as that comment. -/
theorem lineOf_commentChars {text : List Char} (h : Text.IsTrimmed text) (hne : text ≠ []) :
    lineOf (commentChars text) = .comment (some (String.ofList text)) := by
  have hends : Text.endsWith "*/".toList (commentChars text) = true := by
    have hreverse : (commentChars text).reverse =
        "*/".toList.reverse ++ (['/', '*', '*', ' '] ++ text ++ [' ']).reverse := by
      simp [commentChars]
    unfold Text.endsWith Text.startsWith
    rw [hreverse, Text.after?_eq_some_iff.2 rfl]
    rfl
  have hinside : ((commentChars text).take ((commentChars text).length - 2)).drop 3 =
      [' '] ++ text ++ [' '] := by
    have hsplit : commentChars text =
        ['/', '*', '*'] ++ ([' '] ++ text ++ [' ']) ++ ['*', '/'] := by
      simp [commentChars]
    rw [hsplit, List.length_append, List.take_append_of_le_length (by simp),
      List.take_of_length_le (by simp)]
    rfl
  have hspace : ∀ c ∈ [' '], Text.isBlank c = true := List.all_eq_true.1 (by decide)
  have htrim := Text.trim_append [' '] [' '] hspace hspace h
  have hempty : text.isEmpty = false := by simpa using hne
  have hdoc : Text.startsWith "/**".toList (commentChars text) = true := rfl
  unfold lineOf commentOf
  simp only [hinside, htrim, hempty]
  rw [hdoc, hends]
  rfl

/-- The line of a member. -/
def memberRow (e : EnumMember) : List Char := ' ' :: ' ' :: memberChars e

/-- The line of a comment. -/
def commentRow (text : List Char) : List Char := ' ' :: ' ' :: commentChars text

/-- The lines of a member as they are read. -/
def memberRows (e : EnumMember) : List (List Char) := (Model.memberLines e).map String.toList

theorem memberRows_eq (e : EnumMember) : memberRows e =
    (if commentText e.comment = "" then [] else [commentRow (commentText e.comment).toList]) ++
      [memberRow e] := by
  by_cases h : commentText e.comment = ""
  · simp [memberRows, Model.memberLines, Model.commentLine, memberRow, memberChars, h]
  · simp [memberRows, Model.memberLines, Model.commentLine, memberRow, memberChars, commentRow,
      commentChars, h]

theorem mem_memberRows {e : EnumMember} {row : List Char} (h : row ∈ memberRows e) :
    row = memberRow e ∨ row = commentRow (commentText e.comment).toList := by
  rw [memberRows_eq] at h
  split at h
  · exact .inl (by simpa using h)
  · rcases List.mem_append.1 h with h | h
    · exact .inr (List.mem_singleton.1 h)
    · exact .inl (List.mem_singleton.1 h)

theorem isTrimmed_memberChars {e : EnumMember} (h : IsDeclarable e) :
    Text.IsTrimmed (memberChars e) := by
  obtain ⟨c, cs, hname⟩ := List.exists_cons_of_ne_nil h.name_ne
  have hc := isBlank_of_isMemberChar (h.name c (by simp [hname]))
  have hcomma : Text.IsTrimmed [','] := Text.isTrimmed_of_all (by decide)
  have hhead : Text.IsTrimmed [c] := Text.isTrimmed_of_no_blank (by simpa using hc)
  have hsplit : memberChars e =
      [c] ++ (cs ++ ' ' :: '=' :: ' ' :: e.value.text.toList) ++ [','] := by
    simp [memberChars, hname]
  rw [hsplit]
  exact hhead.append (by simp) hcomma (by simp) _

theorem isTrimmed_commentChars (text : List Char) : Text.IsTrimmed (commentChars text) := by
  have hslash : Text.IsTrimmed ['/'] := Text.isTrimmed_of_all (by decide)
  have hsplit : commentChars text =
      ['/'] ++ ('*' :: '*' :: ' ' :: (text ++ [' ', '*'])) ++ ['/'] := by
    simp [commentChars]
  rw [hsplit]
  exact hslash.append (by simp) hslash (by simp) _

theorem trim_memberRow {e : EnumMember} (h : IsDeclarable e) :
    Text.trim (memberRow e) = memberChars e := by
  have htrim := Text.trim_append [' ', ' '] [] (List.all_eq_true.1 (by decide)) (by simp)
    (isTrimmed_memberChars h)
  simpa [memberRow] using htrim

theorem trim_commentRow (text : List Char) :
    Text.trim (commentRow text) = commentChars text := by
  have htrim := Text.trim_append [' ', ' '] [] (List.all_eq_true.1 (by decide)) (by simp)
    (isTrimmed_commentChars text)
  simpa [commentRow] using htrim

theorem step_memberRow {e : EnumMember} (h : IsDeclarable e) (s : Progress) :
    step s (memberRow e) = (none, s.2.put e.value.value ⟨e.name, s.1⟩) := by
  rw [step, trim_memberRow h, lineOf_memberChars h]
  simp only [h.valueKey_text, String.ofList_toList]

theorem step_commentRow {comment : Option String} (h : commentText comment ≠ "")
    (s : Progress) : step s (commentRow (commentText comment).toList) =
      (some (commentText comment), s.2) := by
  have hne : (commentText comment).toList ≠ [] := by simpa using h
  rw [step, trim_commentRow, lineOf_commentChars (isTrimmed_commentText comment) hne]
  simp only [String.ofList_toList]

/-- What a member is read as. -/
def memberOf (e : EnumMember) : SourceMember := ⟨e.name, commentOf? e.comment⟩

/-- A member is read from its lines. -/
theorem foldl_memberRows {e : EnumMember} (h : IsDeclarable e)
    (found : Entries String SourceMember) : (memberRows e).foldl step (none, found) =
      (none, found.put e.value.value (memberOf e)) := by
  rw [memberRows_eq, memberOf, commentOf?]
  split
  · rw [List.nil_append, List.foldl_cons, step_memberRow h]
    rfl
  · rename_i hcomment
    rw [List.singleton_append, List.foldl_cons, step_commentRow hcomment, List.foldl_cons,
      step_memberRow h]
    rfl

/-- Members are read from their lines, one after the other. -/
theorem foldl_flatMap_memberRows {es : List EnumMember} (h : ∀ e ∈ es, IsDeclarable e)
    (found : Entries String SourceMember) : (es.flatMap memberRows).foldl step (none, found) =
      (none, es.foldl (fun m e => m.put e.value.value (memberOf e)) found) := by
  induction es generalizing found with
  | nil => rfl
  | cons e es ih =>
    rw [List.flatMap_cons, List.foldl_append, foldl_memberRows (h e List.mem_cons_self),
      ih fun e' he' => h e' (List.mem_cons_of_mem e he')]
    rfl

end SourceEnum
end ApiScribe
