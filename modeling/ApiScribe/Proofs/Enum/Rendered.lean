import ApiScribe.Proofs.Enum.Torn

/-! Rendered enums. The file of an enum is read back as the enum exactly if no line of its members
is torn and its description does not pass for an enum itself. -/
namespace ApiScribe
namespace SourceEnum

/-- The enum that the file of an enum stands for. -/
def declared (name : String) (es : List EnumMember) : SourceEnum :=
  ⟨name, es.map fun e => (e.value.value, memberOf e)⟩

/-- The lines of members, as one text. -/
def code (es : List EnumMember) : List Char := (es.flatMap memberRows).flatMap (· ++ ['\n'])

/-- The part of the lines that is read: all in front of the first brace. -/
def readable (es : List EnumMember) : List Char :=
  (code es ++ '\x7d' :: ['\n']).takeWhile (· ≠ '\x7d')

theorem readable_isPrefix (es : List EnumMember) : readable es <+: code es :=
  Text.takeWhile_ne_isPrefix '\x7d' (code es) ['\n']

theorem brace_not_mem_readable (es : List EnumMember) : '\x7d' ∉ readable es := by
  intro hmem
  simpa using List.mem_takeWhile_imp hmem

theorem code_isPlain {es : List EnumMember} (h : ∀ e ∈ es, IsDeclarable e)
    (hsafe : ∀ e ∈ es, IsSafe e) : ∀ row ∈ es.flatMap memberRows, ∀ c ∈ row, IsPlain c := by
  intro row hrow
  obtain ⟨e, he, hrow⟩ := List.mem_flatMap.1 hrow
  exact (hsafe e he).isPlain (h e he) row hrow

/-- All lines of safe members are read. -/
theorem readable_eq_code {es : List EnumMember} (h : ∀ e ∈ es, IsDeclarable e)
    (hsafe : ∀ e ∈ es, IsSafe e) : readable es = code es := by
  refine Text.takeWhile_ne_append_cons ?_ ['\n']
  intro hmem
  obtain ⟨row, hrow, hmem⟩ := List.mem_flatMap.1 hmem
  rcases List.mem_append.1 hmem with hmem | hmem
  · exact (code_isPlain h hsafe row hrow _ hmem).2 rfl
  · exact absurd hmem (by decide)

/-- Safe members are read as they are written. -/
theorem foldl_readable {es : List EnumMember} (h : ∀ e ∈ es, IsDeclarable e)
    (hsafe : ∀ e ∈ es, IsSafe e) (found : Entries String SourceMember) :
    (Text.lines (readable es)).foldl step (none, found) =
      (none, es.foldl (fun m e => m.put e.value.value (memberOf e)) found) := by
  rw [readable_eq_code h hsafe, code,
    Text.lines_flatMap fun row hrow c hc => (code_isPlain h hsafe row hrow c hc).1,
    foldl_flatMap_memberRows h]

/-- The lines of members read as these members exactly if the members are safe, and then put on top
of what was found. -/
theorem foldl_readable_eq_iff {es : List EnumMember} (h : ∀ e ∈ es, IsDeclarable e)
    {found : Entries String SourceMember} (hclean : IsClean (none, found)) (name : String) :
    ((Text.lines (readable es)).foldl step (none, found)).2 = (declared name es).members ↔
      (∀ e ∈ es, IsSafe e) ∧
        es.foldl (fun m e => m.put e.value.value (memberOf e)) found =
          (declared name es).members := by
  constructor
  · intro hread
    have hharmless := isHarmless_of_isPrefix h (readable_isPrefix es) (brace_not_mem_readable es)
    have hsafe := isSafe_of_isClean (hclean.foldl_step hharmless) hread
    rw [foldl_readable h hsafe] at hread
    exact ⟨hsafe, hread⟩
  · rintro ⟨hsafe, hput⟩
    rw [foldl_readable h hsafe]
    exact hput

/-- The line that ends the comment of a description, of which `rest` is left. -/
def strayLine (rest : List Char) : List Char := rest ++ [' ', '*', '/']

/-- A value on a line that ends a comment is cut off with the end of the comment. -/
theorem stray_value {rest name value : List Char}
    (h : lineOf (Text.trim (strayLine rest)) = .member name value) : ['*', '/'] <:+ value := by
  have hstar : Text.IsTrimmed ['*', '/'] := Text.isTrimmed_of_all (by decide)
  have hline : ['*', '/'] <:+ Text.trim (strayLine rest) := by
    have hsuffix := Text.isSuffix_trim (rest ++ [' ']) hstar (by simp)
    simpa [strayLine] using hsuffix
  obtain ⟨-, -, as, bs, hequals, rfl⟩ := of_lineOf_eq_member h
  have hcommas : withoutCommas (Text.trim (strayLine rest)) = Text.trim (strayLine rest) := by
    obtain ⟨front, hfront⟩ := hline
    refine withoutCommas_eq_self ?_
    intro c hc
    rw [← hfront, List.getLast?_append] at hc
    cases hc
    decide
  rw [hcommas] at hequals
  rw [hequals] at hline
  have hbehind : ['*', '/'] <:+ bs := by
    by_cases hshort : ('=' :: bs).length ≤ 2
    · have hmem := (List.suffix_of_suffix_length_le (List.suffix_append as _) hline hshort).subset
        List.mem_cons_self
      exact absurd hmem (by decide)
    · refine List.suffix_of_suffix_length_le hline ?_ (by simp at hshort ⊢; omega)
      exact (List.suffix_cons '=' bs).trans (List.suffix_append as _)
  obtain ⟨front, rfl⟩ := hbehind
  exact Text.isSuffix_trim front hstar (by simp)

/-- What ends with a comment is no string, so it is a key as it stands. -/
theorem valueKey_stray {value : List Char} (h : ['*', '/'] <:+ value) :
    valueKey value = String.ofList value := by
  rcases valueKey_cases value with hkey | ⟨q, s, rfl, hread, -⟩
  · exact hkey
  · obtain ⟨rest, hstring, hgaps⟩ := Json.stringChars_of_read hread
    have hquote : '"' :: rest <:+ '"' :: q :=
      (Json.suffix_of_stringChars hstring).trans (List.suffix_cons _ _)
    have hslash : ['/'] <:+ '"' :: rest := by
      have hend : ['/'] <:+ '"' :: q := (List.suffix_cons '*' ['/']).trans h
      exact List.suffix_of_suffix_length_le hend hquote (by simp)
    have hmem : '/' ∈ rest := by
      rcases List.mem_cons.1 (hslash.subset List.mem_cons_self) with heq | hmem
      · exact absurd heq (by decide)
      · exact hmem
    have hgap := List.dropWhile_eq_nil_iff.1 hgaps '/' hmem
    exact absurd hgap (by decide)

theorem isHarmless_strayLine {rest : List Char} (h : ∀ c ∈ rest, IsPlain c) :
    IsHarmless (strayLine rest) := by
  have hplain : ∀ c ∈ strayLine rest, IsPlain c := by
    intro c hc
    exact (List.mem_append.1 hc).elim (h c) (isPlain_of_all (by decide) c)
  refine ⟨hplain, ?_⟩
  intro name value hmember c hc
  rw [valueKey_stray (stray_value hmember), String.toList_ofList] at hc
  have hpiece := (value_isInfix hmember).trans (Text.trim_isInfix (strayLine rest))
  exact (hplain c (hpiece.subset hc)).tears

/-- The head of an enum, as it is written. -/
def declaration (name : List Char) : List Char :=
  ['e', 'x', 'p', 'o', 'r', 't', ' ', 'e', 'n', 'u', 'm', ' '] ++ name ++ [' ', '\x7b']

theorem isHead_declaration {name : List Char} (h : isName name = true) :
    IsHead name (declaration name) := by
  have hblank : AreBlank [' '] := List.all_eq_true.1 (by decide)
  have hhead : IsHead name _ := .intro (by simp) hblank (by simp) hblank h hblank
  simpa [declaration] using hhead

theorem mem_declaration {name : List Char} (h : isName name = true) {c : Char}
    (hc : c ∈ declaration name) : TypeText.isWordChar c = true ∨ c = ' ' ∨ c = '\x7b' := by
  have hfront : ∀ d ∈ ['e', 'x', 'p', 'o', 'r', 't', ' ', 'e', 'n', 'u', 'm', ' '],
      TypeText.isWordChar d = true ∨ d = ' ' := by
    have hall := List.all_eq_true.1 (show ['e', 'x', 'p', 'o', 'r', 't', ' ', 'e', 'n', 'u', 'm',
      ' '].all (fun d => TypeText.isWordChar d || d == ' ') = true by decide)
    simpa using hall
  rw [declaration, List.mem_append, List.mem_append] at hc
  rcases hc with (hc | hc) | hc
  · exact (hfront c hc).imp_right .inl
  · exact .inl (isWordChar_of_isName h c hc)
  · exact .inr (by simpa using hc)

theorem isPlain_declaration {name : List Char} (h : isName name = true) :
    ∀ c ∈ declaration name, IsPlain c := by
  intro c hc
  rcases mem_declaration h hc with hword | rfl | rfl
  · exact isPlain_of_isMemberChar (by simp [isMemberChar, hword])
  · exact ⟨by decide, by decide⟩
  · exact ⟨by decide, by decide⟩

theorem getLast?_declaration (name : List Char) : (declaration name).getLast? = some '\x7b' := by
  rw [declaration, List.getLast?_append]
  rfl

theorem isTrimmed_declaration (name : List Char) : Text.IsTrimmed (declaration name) := by
  refine ⟨?_, ?_⟩ <;> intro c hc
  · cases hc
    decide
  · rw [getLast?_declaration] at hc
    cases hc
    decide

/-- A head inside of an enum is no member, and parts a comment from the next one. -/
theorem step_declaration {name : List Char} (h : isName name = true) (s : Progress) :
    step s (declaration name) = (none, s.2) := by
  have hcommas : withoutCommas (declaration name) = declaration name := by
    refine withoutCommas_eq_self ?_
    intro c hc
    rw [getLast?_declaration] at hc
    cases hc
    decide
  have hequals : '=' ∉ declaration name := by
    intro hmem
    rcases mem_declaration h hmem with hword | heq | heq
    · exact absurd hword (by decide)
    · exact absurd heq (by decide)
    · exact absurd heq (by decide)
  have hother : lineOf (declaration name) = .other := by
    unfold lineOf
    rw [hcommas, Text.cut?_eq_none hequals]
    rfl
  rw [step, Text.trim_eq_self (isTrimmed_declaration name), hother]

/-- Whether the file of an enum is read back. If its description holds no head of an enum, no member
may be torn. If it holds one, that is a head of this enum, and a brace behind it ends the enum
within the description, so the line up to there has to say all. Without a brace the members are
read, and the rest of the description may only be a value that the first member replaces. -/
structure ReadsBack (m : Model) (es : List EnumMember) : Prop where
  safe : findHead? (commentText m.description).toList = none → ∀ e ∈ es, IsSafe e
  head : ∀ name rest, findHead? (commentText m.description).toList = some (name, rest) →
    name = m.name.toList
  closed : ∀ name rest, findHead? (commentText m.description).toList = some (name, rest) →
    '\x7d' ∈ rest →
      (step (none, []) (rest.takeWhile (· ≠ '\x7d'))).2 = (declared m.name es).members
  unclosed : ∀ name rest, findHead? (commentText m.description).toList = some (name, rest) →
    '\x7d' ∉ rest → (∀ e ∈ es, IsSafe e) ∧
      ∀ stray value, lineOf (Text.trim (strayLine rest)) = .member stray value →
        (es.map (·.value.value)).head? = some (valueKey value)

/-- The declaration of an enum in its file, and all behind it. -/
def declarationText (name : List Char) (es : List EnumMember) : List Char :=
  declaration name ++ '\n' :: (code es ++ '\x7d' :: ['\n'])

theorem toList_content {m : Model} {es : List EnumMember} (hkind : m.kind = .enum es)
    (style : ModelStyle) : (m.file style).content.toList =
      (if commentText m.description = "" then []
        else commentChars (commentText m.description).toList ++ ['\n']) ++
        declarationText m.name.toList es := by
  have hrows : (m.file style).content.toList =
      ((Model.lines style m).map String.toList).flatMap (· ++ ['\n']) := by
    rw [Model.file, Render.toList_fileText]
  have hcode : code es =
      ((es.flatMap Model.memberLines).map String.toList).flatMap (· ++ ['\n']) := by
    rw [code, List.map_flatMap]
    rfl
  rw [hrows, declarationText, hcode]
  by_cases h : commentText m.description = ""
  · simp [Model.lines, Model.commentLine, hkind, h, declaration]
  · simp [Model.lines, Model.commentLine, hkind, h, declaration, commentChars]

/-- The first head in the file of an enum is that of the enum, unless its description holds one. -/
theorem findHead?_content {m : Model} {es : List EnumMember} (hkind : m.kind = .enum es)
    (hname : isName m.name.toList = true) (style : ModelStyle) :
    findHead? (m.file style).content.toList =
      match findHead? (commentText m.description).toList with
      | some (name, rest) =>
        some (name, strayLine rest ++ '\n' :: declarationText m.name.toList es)
      | none => some (m.name.toList, '\n' :: (code es ++ '\x7d' :: ['\n'])) := by
  have hhead := findHead?_append_isHead (isHead_declaration hname)
  rw [toList_content hkind]
  by_cases h : commentText m.description = ""
  · rw [if_pos h, h, List.nil_append, declarationText, hhead, String.toList_empty]
    rfl
  · have hsplit : commentChars (commentText m.description).toList ++ ['\n'] ++
        declarationText m.name.toList es = '/' :: '*' :: '*' :: ' ' ::
          ((commentText m.description).toList ++
            ' ' :: '*' :: ('/' :: '\n' :: declarationText m.name.toList es)) := by
      simp [commentChars]
    rw [if_neg h, hsplit, findHead?_cons (by decide), findHead?_cons (by decide),
      findHead?_cons (by decide), findHead?_cons (by decide), findHead?_append_star]
    cases findHead? (commentText m.description).toList with
    | some r =>
      show some (r.1, _) = some (r.1, _)
      simp [strayLine]
    | none =>
      show findHead? ('/' :: '\n' :: declarationText m.name.toList es) = _
      rw [findHead?_cons (by decide), findHead?_cons (by decide), declarationText, hhead]

theorem read_eq_some {content : String} {name rest : List Char}
    (h : findHead? content.toList = some (name, rest)) (hbrace : '\x7d' ∈ rest) :
    SourceEnum.read content = some ⟨String.ofList name,
      ((Text.lines (rest.takeWhile (· ≠ '\x7d'))).foldl step (none, [])).2⟩ := by
  obtain ⟨behind, hcut⟩ := Text.cut?_of_mem hbrace
  simp only [SourceEnum.read, h, hcut, Option.bind_eq_bind, Option.bind_some,
    readLines_eq_foldl]

/-- A text without line ends is read as one line. -/
theorem foldl_lines_of_no_end {cs : List Char} (h : ∀ c ∈ cs, Text.isLineEnd c = false) :
    ((Text.lines cs).foldl step (none, [])).2 = (step (none, []) cs).2 := by
  rw [Text.lines_eq_of_no_end h]
  split
  · rename_i hempty
    rw [hempty]
    rfl
  · rfl

theorem declared_keys (name : String) (es : List EnumMember) :
    (declared name es).members.keys = es.map (·.value.value) := by
  simp [declared, Entries.keys, Function.comp_def]

theorem foldl_put_members (name : String) (es : List EnumMember)
    (found : Entries String SourceMember) :
    es.foldl (fun m e => m.put e.value.value (memberOf e)) found =
      (declared name es).members.foldl (fun m p => m.put p.1 p.2) found := by
  rw [declared, List.foldl_map]

theorem foldl_put_nil {es : List EnumMember} (hnodup : (es.map (·.value.value)).Nodup)
    (name : String) : es.foldl (fun m e => Entries.put e.value.value (memberOf e) m) [] =
      (declared name es).members := by
  rw [foldl_put_members name]
  exact Entries.foldl_put_of_nodup (m := []) (by rwa [List.nil_append, declared_keys])

theorem some_eq_declared_iff {name : List Char} {m : Model} {es : List EnumMember}
    {members : Entries String SourceMember} :
    some (SourceEnum.mk (String.ofList name) members) = some (declared m.name es) ↔
      name = m.name.toList ∧ members = (declared m.name es).members := by
  rw [Option.some_inj, declared, SourceEnum.mk.injEq, ← String.ofList_toList (s := m.name),
    String.ofList_inj, String.toList_ofList]

section
variable {m : Model} {es : List EnumMember}

/-- The lines behind the head of an enum. -/
theorem lines_behind_declaration (es : List EnumMember) :
    Text.lines (('\n' :: (code es ++ '\x7d' :: ['\n'])).takeWhile (· ≠ '\x7d')) =
      [] :: Text.lines (readable es) := by
  have hlines := @Text.lines_append_newline [] (by simp) (readable es)
  rw [List.takeWhile_cons_of_pos (by decide)]
  exact hlines

/-- The lines behind the head of an enum in a description that goes on without a brace. -/
theorem lines_behind_stray {rest name : List Char} (hrest : ∀ c ∈ rest, IsPlain c)
    (hname : isName name = true) (es : List EnumMember) :
    Text.lines ((strayLine rest ++ '\n' :: declarationText name es).takeWhile (· ≠ '\x7d')) =
      strayLine rest :: declaration name :: Text.lines (readable es) := by
  have hstray := (isHarmless_strayLine hrest).1
  have hdeclaration := isPlain_declaration hname
  have htake : (strayLine rest ++ '\n' :: declarationText name es).takeWhile (· ≠ '\x7d') =
      strayLine rest ++ '\n' :: (declaration name ++ '\n' :: readable es) := by
    rw [List.takeWhile_append_of_pos fun c hc => by simpa using (hstray c hc).2,
      List.takeWhile_cons_of_pos (by decide), declarationText,
      List.takeWhile_append_of_pos fun c hc => by simpa using (hdeclaration c hc).2,
      List.takeWhile_cons_of_pos (by decide), readable]
  rw [htake, Text.lines_append_newline
      (Text.newline_ne_of_not_isLineEnd fun c hc => (hstray c hc).1),
    Text.lines_of_no_end fun c hc => (hstray c hc).1, Text.lines_append_newline
      (Text.newline_ne_of_not_isLineEnd fun c hc => (hdeclaration c hc).1),
    Text.lines_of_no_end fun c hc => (hdeclaration c hc).1]
  rfl

/-- What a stray line leaves behind: its value, if it has one. -/
theorem step_strayLine {rest : List Char} :
    (∃ stray value, lineOf (Text.trim (strayLine rest)) = .member stray value ∧
      (step (none, []) (strayLine rest)).2 = [(valueKey value, ⟨String.ofList stray, none⟩)]) ∨
    (∀ stray value, lineOf (Text.trim (strayLine rest)) ≠ .member stray value) ∧
      (step (none, []) (strayLine rest)).2 = [] := by
  unfold step
  cases lineOf (Text.trim (strayLine rest)) with
  | member stray value => exact .inl ⟨stray, value, rfl, rfl⟩
  | _ => exact .inr ⟨nofun, rfl⟩

theorem foldl_put_stray_iff (hnodup : (es.map (·.value.value)).Nodup) (name : String)
    {rest : List Char} :
    es.foldl (fun m e => m.put e.value.value (memberOf e)) (step (none, []) (strayLine rest)).2 =
        (declared name es).members ↔
      ∀ stray value, lineOf (Text.trim (strayLine rest)) = .member stray value →
        (es.map (·.value.value)).head? = some (valueKey value) := by
  have hkeys : (declared name es).members.keys.Nodup := by rwa [declared_keys]
  rcases @step_strayLine rest with ⟨stray, value, hline, hfound⟩ | ⟨hline, hfound⟩
  · rw [hfound, foldl_put_members name, Entries.foldl_put_singleton_eq_iff hkeys, declared_keys,
      hline]
    constructor
    · rintro hhead stray' value' heq
      cases heq
      exact hhead
    · exact fun h => h stray value rfl
  · rw [hfound]
    constructor
    · exact fun _ stray value heq => absurd heq (hline stray value)
    · exact fun _ => foldl_put_nil hnodup name

/-- Behind a head, members and what stands in front of them read as the members exactly if all of
them are safe and nothing in front stays. -/
theorem read_behind_stray_iff (hes : ∀ e ∈ es, IsDeclarable e)
    (hnodup : (es.map (·.value.value)).Nodup) {rest name : List Char}
    (hrest : ∀ c ∈ rest, IsPlain c) (hname : isName name = true) (enumName : String) :
    ((Text.lines ((strayLine rest ++ '\n' :: declarationText name es).takeWhile
        (· ≠ '\x7d'))).foldl step (none, [])).2 = (declared enumName es).members ↔
      (∀ e ∈ es, IsSafe e) ∧
        ∀ stray value, lineOf (Text.trim (strayLine rest)) = .member stray value →
          (es.map (·.value.value)).head? = some (valueKey value) := by
  have hstart : IsClean (none, []) := ⟨by simp, by simp, by simp⟩
  have hstray := hstart.step (isHarmless_strayLine hrest)
  have hclean : IsClean (none, (step (none, []) (strayLine rest)).2) :=
    ⟨by simp, hstray.key, hstray.comment⟩
  rw [lines_behind_stray hrest hname, List.foldl_cons, List.foldl_cons, step_declaration hname,
    foldl_readable_eq_iff hes hclean, foldl_put_stray_iff hnodup]

/-- Without a head in the description, the file is read as the enum if no member is torn. -/
theorem read_content_iff_isSafe (hkind : m.kind = .enum es) (hname : isName m.name.toList = true)
    (hes : ∀ e ∈ es, IsDeclarable e) (hnodup : (es.map (·.value.value)).Nodup)
    (style : ModelStyle) (hhead : findHead? (commentText m.description).toList = none) :
    SourceEnum.read (m.file style).content = some (declared m.name es) ↔ ∀ e ∈ es, IsSafe e := by
  have hstart : IsClean (none, []) := ⟨by simp, by simp, by simp⟩
  have hfind := findHead?_content hkind hname style
  rw [hhead] at hfind
  have hread := foldl_readable_eq_iff hes hstart m.name
  rw [read_eq_some hfind (by simp), lines_behind_declaration, List.foldl_cons,
    some_eq_declared_iff]
  constructor
  · rintro ⟨-, hmembers⟩
    exact (hread.1 hmembers).1
  · exact fun hsafe => ⟨rfl, hread.2 ⟨hsafe, foldl_put_nil hnodup m.name⟩⟩

variable {name rest : List Char}

theorem isLineEnd_behind_head
    (hhead : findHead? (commentText m.description).toList = some (name, rest)) :
    ∀ c ∈ rest, Text.isLineEnd c = false :=
  fun c hc => isLineEnd_commentText c ((findHead?_isSuffix hhead).subset hc)

/-- A brace behind a head in the description ends what is read of the file. -/
theorem read_content_iff_of_brace (hkind : m.kind = .enum es)
    (hname : isName m.name.toList = true) (style : ModelStyle)
    (hhead : findHead? (commentText m.description).toList = some (name, rest))
    (hbrace : '\x7d' ∈ rest) :
    SourceEnum.read (m.file style).content = some (declared m.name es) ↔
      name = m.name.toList ∧
        (step (none, []) (rest.takeWhile (· ≠ '\x7d'))).2 = (declared m.name es).members := by
  have hends := isLineEnd_behind_head hhead
  have hfind := findHead?_content hkind hname style
  rw [hhead] at hfind
  have htake : (strayLine rest ++ '\n' :: declarationText m.name.toList es).takeWhile
      (· ≠ '\x7d') = rest.takeWhile (· ≠ '\x7d') := by
    rw [strayLine, List.append_assoc, Text.takeWhile_ne_append_of_mem hbrace]
  rw [read_eq_some hfind (by simp [strayLine, hbrace]), htake, some_eq_declared_iff,
    foldl_lines_of_no_end fun c hc => hends c (List.takeWhile_subset _ hc)]

/-- Behind a head in the description without a brace, the members are read too. -/
theorem read_content_iff_of_no_brace (hkind : m.kind = .enum es)
    (hname : isName m.name.toList = true) (hes : ∀ e ∈ es, IsDeclarable e)
    (hnodup : (es.map (·.value.value)).Nodup) (style : ModelStyle)
    (hhead : findHead? (commentText m.description).toList = some (name, rest))
    (hbrace : '\x7d' ∉ rest) :
    SourceEnum.read (m.file style).content = some (declared m.name es) ↔
      name = m.name.toList ∧ (∀ e ∈ es, IsSafe e) ∧
        ∀ stray value, lineOf (Text.trim (strayLine rest)) = .member stray value →
          (es.map (·.value.value)).head? = some (valueKey value) := by
  have hfind := findHead?_content hkind hname style
  rw [hhead] at hfind
  have hrest : ∀ c ∈ rest, IsPlain c := by
    refine fun c hc => ⟨isLineEnd_behind_head hhead c hc, ?_⟩
    rintro rfl
    exact hbrace hc
  rw [read_eq_some hfind (by simp [declarationText]), some_eq_declared_iff,
    read_behind_stray_iff hes hnodup hrest hname]

/-- The file of an enum in either style is read as the enum, with each value and what its member is
read as in order, exactly if it reads back. -/
theorem read_content_iff (hkind : m.kind = .enum es) (hname : isName m.name.toList = true)
    (hes : ∀ e ∈ es, IsDeclarable e) (hnodup : (es.map (·.value.value)).Nodup)
    (style : ModelStyle) :
    SourceEnum.read (m.file style).content = some (declared m.name es) ↔ ReadsBack m es := by
  cases hhead : findHead? (commentText m.description).toList with
  | none =>
    rw [read_content_iff_isSafe hkind hname hes hnodup style hhead]
    constructor
    · exact fun hsafe => ⟨fun _ => hsafe, by simp [hhead], by simp [hhead], by simp [hhead]⟩
    · exact fun h => h.safe hhead
  | some r =>
    obtain ⟨name, rest⟩ := r
    have hunique {name' rest' : List Char}
        (heq : findHead? (commentText m.description).toList = some (name', rest')) :
        name' = name ∧ rest' = rest := by
      cases hhead.symm.trans heq
      exact ⟨rfl, rfl⟩
    by_cases hbrace : '\x7d' ∈ rest
    · rw [read_content_iff_of_brace hkind hname style hhead hbrace]
      constructor
      · rintro ⟨hsame, hmembers⟩
        refine ⟨by simp [hhead], ?_, ?_, ?_⟩ <;> intro name' rest' heq <;>
          obtain ⟨rfl, rfl⟩ := hunique heq
        · exact hsame
        · exact fun _ => hmembers
        · exact fun hnot => absurd hbrace hnot
      · exact fun h => ⟨h.head name rest hhead, h.closed name rest hhead hbrace⟩
    · rw [read_content_iff_of_no_brace hkind hname hes hnodup style hhead hbrace]
      constructor
      · rintro ⟨hsame, hmembers⟩
        refine ⟨by simp [hhead], ?_, ?_, ?_⟩ <;> intro name' rest' heq <;>
          obtain ⟨rfl, rfl⟩ := hunique heq
        · exact hsame
        · exact fun hmem => absurd hmem hbrace
        · exact fun _ => hmembers
      · exact fun h => ⟨h.head name rest hhead, h.unclosed name rest hhead hbrace⟩

end

end SourceEnum
end ApiScribe
