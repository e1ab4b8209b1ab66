import Mathlib.Data.String.Basic
import ApiScribe.Enum.Plan
import ApiScribe.Proofs.Enum.Rendered
import ApiScribe.Proofs.Text.Lines
import ApiScribe.Proofs.Workspace.Write
import ApiScribe.Workspace.Enums

/-! Enums of a directory. The enums that are read from a directory are those of its files, the last
file of a name winning, and names chosen by hand in them stand in every plan made of them. -/
namespace ApiScribe
namespace SourceEnum

/-- The enum that the file at a location declares, if there is a file that can be read. -/
def at? (w : Workspace) (l : Location) : Option SourceEnum :=
  match w.tree.read w.current l with
  | .error _ => none
  | .ok bs => (Job.textOf bs).bind SourceEnum.read

/-- The enums known so far, with that of one more file. -/
def addTo (found : SourceEnums) : Option SourceEnum → SourceEnums
  | none => found
  | some e => if e.members.isEmpty then found else found.put e.name e.members

/-- A file adds its enum; beyond that, something may be said. -/
theorem addSource_run (found : SourceEnums) {l : Location} (h : l.isStorable = true)
    (w : Workspace) : ∃ notes, (Job.addSource found l).run w =
      (.ok (addTo found (at? w l)), { w with notes := notes }) := by
  unfold Job.addSource at?
  rw [Job.run_bind_ok (Job.read_run h w)]
  cases w.tree.read w.current l with
  | error r => exact ⟨_, rfl⟩
  | ok bs =>
    dsimp only
    cases Job.textOf bs with
    | none => exact ⟨_, rfl⟩
    | some s =>
      dsimp only [Option.bind_some]
      cases SourceEnum.read s with
      | none => exact ⟨w.notes, rfl⟩
      | some e => exact ⟨w.notes, rfl⟩

/-- Files add their enums one after the other. -/
theorem foldlM_addSource_run {d : Location} {names : List String}
    (h : ∀ name ∈ names, (d.below name).isStorable = true) (found : SourceEnums)
    (w : Workspace) : ∃ notes,
      (names.foldlM (fun found name => Job.addSource found (d.below name)) found).run w =
        (.ok (names.foldl (fun found name => addTo found (at? w (d.below name))) found),
          { w with notes := notes }) := by
  induction names generalizing found w with
  | nil => exact ⟨w.notes, rfl⟩
  | cons name names ih =>
    obtain ⟨notes, hrun⟩ := addSource_run found (h name List.mem_cons_self) w
    obtain ⟨notes', hrest⟩ := ih (fun n hn => h n (List.mem_cons_of_mem name hn))
      (addTo found (at? w (d.below name))) { w with notes := notes }
    refine ⟨notes', ?_⟩
    rw [List.foldlM_cons, Job.run_bind_ok hrun, hrest, List.foldl_cons]
    rfl

/-- The names of the files in a directory that may declare enums, in the order of reading. -/
def enumFiles (t : FileTree) (place : List String) : List String :=
  ((t.names place).filter Job.isEnumFile).mergeSort fun a b => decide (a ≤ b)

theorem mem_enumFiles {t : FileTree} {place : List String} {name : String} :
    name ∈ enumFiles t place ↔ name ∈ t.names place ∧ Job.isEnumFile name = true := by
  rw [enumFiles, List.mem_mergeSort, List.mem_filter]

theorem enumFiles_sorted (t : FileTree) (place : List String) :
    (enumFiles t place).Pairwise (· ≤ ·) := by
  rw [enumFiles]
  exact pairwise_mergeSort_key (id : String → String) (fun _ _ => decide_eq_true_iff) _

/-- The enums of a directory are those of its files. -/
theorem sourceEnums_run {w : Workspace} {d : Location} {place : List String}
    (hplace : w.tree.locate w.current d = .ok place)
    (hdirectory : w.tree.node? place = some .directory)
    (hstorable : ∀ name ∈ enumFiles w.tree place, (d.below name).isStorable = true) :
    ∃ notes, (Job.sourceEnums d).run w =
      (.ok ((enumFiles w.tree place).foldl
        (fun found name => addTo found (at? w (d.below name))) []), { w with notes := notes }) := by
  obtain ⟨notes, hrun⟩ := foldlM_addSource_run hstorable [] w
  refine ⟨notes, ?_⟩
  unfold Job.sourceEnums
  rw [Job.run_bind_ok (Job.isDirectory_run hplace hdirectory), if_neg (by decide), ← hrun,
    Job.run_bind_ok (Job.run_get w), hplace]
  rfl

/-- A file stands in a directory, and no file behind it declares members of the same enum. -/
structure HoldsLast (w : Workspace) (d : Location) (place : List String) (file : PlannedFile)
    (enumName : String) : Prop where
  located : w.tree.locate w.current d = .ok place
  isDirectory : w.tree.node? place = some .directory
  storable : ∀ name ∈ enumFiles w.tree place, (d.below name).isStorable = true
  listed : file.path ∈ w.tree.names place
  content : w.tree.read w.current (d.below file.path) = .ok (Text.utf8 file.content)
  last : ∀ name ∈ enumFiles w.tree place, file.path < name → ∀ e,
    at? w (d.below name) = some e → e.name = enumName → e.members = []

/-- Files that declare nothing else of an enum leave what is known of it. -/
theorem get?_foldl_addTo {w : Workspace} {d : Location} {enumName : String}
    {members : Entries String SourceMember} {names : List String}
    (h : ∀ name ∈ names, ∀ e, at? w (d.below name) = some e → e.name = enumName →
      e.members = [] ∨ e.members = members) {found : SourceEnums}
    (hfound : found.get? enumName = some members) :
    (names.foldl (fun found name => addTo found (at? w (d.below name))) found).get? enumName =
      some members := by
  induction names generalizing found with
  | nil => exact hfound
  | cons name names ih =>
    rw [List.foldl_cons]
    refine ih (fun n hn => h n (List.mem_cons_of_mem name hn)) ?_
    cases he : at? w (d.below name) with
    | none => exact hfound
    | some e =>
      have hsame := h name List.mem_cons_self e he
      unfold addTo
      by_cases hempty : e.members = []
      · simpa [hempty] using hfound
      · have hne : e.members.isEmpty = false := by simpa using hempty
        simp only [hne, Bool.false_eq_true, if_false, Entries.get?_put]
        by_cases hname : e.name = enumName
        · simp [hname, (hsame hname).resolve_left hempty]
        · simpa [hname] using hfound

/-- The enum of a file that is the last one of its name is found with its members. -/
theorem HoldsLast.get?_sourceEnums {w : Workspace} {d : Location} {place : List String}
    {file : PlannedFile} {e : SourceEnum} (h : HoldsLast w d place file e.name)
    (hfile : Job.isEnumFile file.path = true) (hread : at? w (d.below file.path) = some e)
    (hne : e.members ≠ []) :
    ∃ found notes, (Job.sourceEnums d).run w = (.ok found, { w with notes := notes }) ∧
      found.get? e.name = some e.members := by
  obtain ⟨notes, hrun⟩ := sourceEnums_run h.located h.isDirectory h.storable
  refine ⟨_, notes, hrun, ?_⟩
  obtain ⟨front, behind, hsplit⟩ := List.append_of_mem (mem_enumFiles.2 ⟨h.listed, hfile⟩)
  have hsorted := enumFiles_sorted w.tree place
  rw [hsplit] at hsorted
  have hbehind : ∀ name ∈ behind, file.path ≤ name :=
    (List.pairwise_cons.1 (List.pairwise_append.1 hsorted).2.1).1
  rw [hsplit, List.foldl_append, List.foldl_cons, hread]
  refine get?_foldl_addTo ?_ ?_
  · intro name hname e' he' hsame
    by_cases heq : name = file.path
    · rw [heq, hread] at he'
      cases he'
      exact .inr rfl
    · have hlt : file.path < name := by
        rw [← String.not_le]
        exact fun hle => heq (String.le_antisymm hle (hbehind name hname))
      exact .inl (h.last name (by simp [hsplit, hname]) hlt e' he' hsame)
  · have hnonempty : e.members.isEmpty = false := by simpa using hne
    simp [addTo, hnonempty, Entries.get?_put]

theorem isEnumFile_path {m : Model} {es : List EnumMember} (hkind : m.kind = .enum es)
    (hname : isName m.name.toList = true) (style : ModelStyle) :
    Job.isEnumFile (m.file style).path = true := by
  have hpath : (m.file style).path = m.name ++ ".ts" := by
    cases style <;> simp [Model.file, Model.fileName, Model.isEnum, hkind]
  have hends : (m.name ++ ".ts").endsWith ".ts" = true := by
    rw [String.endsWith_eq_endsWith_toSlice, String.Slice.endsWith_string_iff,
      String.copy_toSlice, String.toList_append]
    exact List.suffix_append _ _
  have hplain : (m.name ++ ".ts").endsWith ".d.ts" = false := by
    rw [String.endsWith_eq_endsWith_toSlice, String.Slice.endsWith_string_eq_false_iff,
      String.copy_toSlice, String.toList_append]
    intro hsuffix
    have hdeclared : ".d".toList <:+ m.name.toList := by
      have hsplit : ".d.ts".toList = ".d".toList ++ ".ts".toList := by simp
      rw [hsplit] at hsuffix
      exact List.suffix_append_self_iff.1 hsuffix
    exact absurd (isWordChar_of_isName hname '.' (hdeclared.subset (by simp))) (by decide)
  rw [hpath, Job.isEnumFile, hends, hplain]
  rfl

theorem newline_not_mem_content {m : Model} {es : List EnumMember} (hkind : m.kind = .enum es)
    (hname : isName m.name.toList = true) (hes : ∀ e ∈ es, IsDeclarable e) (style : ModelStyle) :
    '\r' ∉ (m.file style).content.toList := by
  have hdescription : '\r' ∉ commentChars (commentText m.description).toList := by
    have hrow := Text.newline_ne_of_not_isLineEnd (@isLineEnd_commentRow m.description)
    simp only [commentRow, List.mem_cons, not_or] at hrow
    exact hrow.2.2
  have hdeclaration : '\r' ∉ declaration m.name.toList :=
    Text.newline_ne_of_not_isLineEnd fun c hc => (isPlain_declaration hname c hc).1
  have hcode : '\r' ∉ code es := by
    intro hmem
    obtain ⟨row, hrow, hmem⟩ := List.mem_flatMap.1 hmem
    obtain ⟨e, he, hrow⟩ := List.mem_flatMap.1 hrow
    have hnot := newline_not_mem_memberRows (hes e he) row hrow
    simp [hnot] at hmem
  rw [toList_content hkind]
  split <;> simp [declarationText, hdescription, hdeclaration, hcode]

/-- The file of an enum that reads back is read from a directory as the enum. -/
theorem at?_file {m : Model} {es : List EnumMember} (hkind : m.kind = .enum es)
    (hname : isName m.name.toList = true) (hes : ∀ e ∈ es, IsDeclarable e) {style : ModelStyle}
    (hread : SourceEnum.read (m.file style).content = some (declared m.name es)) {w : Workspace}
    {l : Location}
    (hcontent : w.tree.read w.current l = .ok (Text.utf8 (m.file style).content)) :
    at? w l = some (declared m.name es) := by
  have hnewline := newline_not_mem_content hkind hname hes style
  rw [at?, hcontent]
  simp only [Job.textOf, Text.ofUtf8?_utf8, Option.map_some, Option.bind_some,
    Text.unifyNewlines_eq_self hnewline, String.ofList_toList, hread]

/-- Every plan made with the enums found keeps, in the enum of a name, the names of members that
generating would not have produced. -/
def KeepsNames (found : SourceEnums) (enumName : String) (es : List EnumMember) : Prop :=
  ∀ (s : ModelSet), ∀ m ∈ s.models, m.name = enumName → ∀ es', m.kind = .enum es' →
    ∃ p ∈ (EnumPlan.ofModels found s).enums, p.enumName = enumName ∧
      ∀ e ∈ es, ∀ (i : Nat) (e' : EnumMember), es'[i]? = some e' →
        e'.value.value = e.value.value →
        EnumPlan.isGenerated e.name e.value.value i = false →
          (p.members[i]?).map (·.name) = some e.name

/-- Enums that are found with all their members keep the names of these. -/
theorem keepsNames_of_get? {found : SourceEnums} {enumName : String} {es : List EnumMember}
    (hnodup : (es.map (·.value.value)).Nodup)
    (h : es ≠ [] → found.get? enumName = some (declared enumName es).members) :
    KeepsNames found enumName es := by
  intro s m hm hname es' hkind
  refine ⟨_, List.mem_filterMap.2 ⟨m, hm, by simp only [EnumPlan.enumOf, hkind]; rfl⟩, hname, ?_⟩
  intro e he i e' hi hvalue hchosen
  have hkeys : (declared enumName es).members.keys.Nodup := by rwa [declared_keys]
  have hmem : (e.value.value, memberOf e) ∈ (declared enumName es).members :=
    List.mem_map.2 ⟨e, he, rfl⟩
  have hold := Entries.get?_eq_some_of_mem hkeys hmem
  have hfound := h (List.ne_nil_of_mem he)
  simp only [List.getElem?_mapIdx, hi, Option.map_some, hname, hfound, Option.getD_some,
    EnumPlan.memberOf, hvalue, hold, memberOf, hchosen]
  rfl

/-- The file of an enum in either style is read as the enum, with each value and the member that
holds it in order, exactly if it reads back. Then all names in it that were chosen by hand are kept,
wherever the file is the last one of its enum in a directory. -/
theorem read_content_iff_and_keepsNames {m : Model} {es : List EnumMember}
    (hkind : m.kind = .enum es) (hname : isName m.name.toList = true)
    (hes : ∀ e ∈ es, IsDeclarable e) (hnodup : (es.map (·.value.value)).Nodup)
    (style : ModelStyle) :
    (SourceEnum.read (m.file style).content = some (declared m.name es) ↔ ReadsBack m es) ∧
      (ReadsBack m es → ∀ (w : Workspace) (d : Location) (place : List String),
        HoldsLast w d place (m.file style) m.name →
          ∃ found notes, (Job.sourceEnums d).run w = (.ok found, { w with notes := notes }) ∧
            KeepsNames found m.name es) := by
  have hiff := read_content_iff hkind hname hes hnodup style
  refine ⟨hiff, ?_⟩
  intro hback w d place hholds
  have hfile := at?_file hkind hname hes (hiff.2 hback) hholds.content
  by_cases hempty : es = []
  · obtain ⟨notes, hrun⟩ := sourceEnums_run hholds.located hholds.isDirectory hholds.storable
    exact ⟨_, notes, hrun, keepsNames_of_get? hnodup fun hne => absurd hempty hne⟩
  · have hmembers : (declared m.name es).members ≠ [] := by simpa [declared] using hempty
    obtain ⟨found, notes, hrun, hget⟩ := HoldsLast.get?_sourceEnums (e := declared m.name es)
      hholds (isEnumFile_path hkind hname style) hfile hmembers
    exact ⟨found, notes, hrun, keepsNames_of_get? hnodup fun _ => hget⟩

/-- Members with names that were chosen by hand, and what a reader may stumble over. -/
def colours : List EnumMember :=
  [⟨"Warm", ⟨.string, "red \"1\"\n"⟩, some "Like = fire,"⟩, ⟨"Cold", ⟨.number, "-2e3"⟩, none⟩]

/-- The enum of the colours. -/
def colour : Model := ⟨"Colour", some "All colours: export enum", .enum colours⟩

/-- A workspace with the file of the colours in a directory. -/
def colourWorkspace : Workspace :=
  { tree := ⟨[(["models"], .directory),
      (["models", "Colour.ts"], .file (Text.utf8 (colour.file .modules).content))]⟩ }

theorem isDeclarable_colours : ∀ e ∈ colours, IsDeclarable e := by
  intro e he
  simp only [colours, List.mem_cons, List.not_mem_nil, or_false] at he
  rcases he with rfl | rfl
  · exact ⟨by simp, by simp; decide, by simp, by simp⟩
  · exact ⟨by simp, by simp; decide, by simp, by simp; decide⟩

theorem readsBack_colour : ReadsBack colour colours := by
  have hhead : findHead? (commentText colour.description).toList = none := by
    rw [toList_commentText]
    decide
  refine ⟨?_, by simp [hhead], by simp [hhead], by simp [hhead]⟩
  intro _ e he
  simp only [colours, List.mem_cons, List.not_mem_nil, or_false] at he
  rcases he with rfl | rfl
  all_goals
    refine ⟨by simp; decide, ?_⟩
    rw [toList_commentText]
    decide

theorem holdsLast_colourWorkspace :
    HoldsLast colourWorkspace ⟨"", ["models"]⟩ ["models"] (colour.file .modules) "Colour" := by
  have hnames : colourWorkspace.tree.names ["models"] = ["Colour.ts"] := by decide
  have hfiles : ∀ name ∈ enumFiles colourWorkspace.tree ["models"], name = "Colour.ts" := by
    intro name hname
    rw [mem_enumFiles, hnames] at hname
    simpa using hname.1
  have hpath : (colour.file .modules).path = "Colour.ts" := by decide
  have hbelow : (⟨"", ["models"]⟩ : Location).below "Colour.ts" =
      ⟨"", ["models", "Colour.ts"]⟩ := by decide +kernel
  refine ⟨by decide, by decide, ?_, by decide, ?_, ?_⟩
  · intro name hname
    rw [hfiles name hname, hbelow]
    decide
  · rw [hpath, hbelow]
    rfl
  · intro name hname hlt
    rw [hfiles name hname] at hlt
    exact absurd hlt (String.lt_irrefl _)

theorem read_content_colour :
    SourceEnum.read (colour.file .modules).content = some (declared "Colour" colours) ∧
      ∃ found notes, (Job.sourceEnums ⟨"", ["models"]⟩).run colourWorkspace =
        (.ok found, { colourWorkspace with notes := notes }) ∧
          KeepsNames found "Colour" colours := by
  obtain ⟨hiff, hkeeps⟩ := read_content_iff_and_keepsNames (m := colour) rfl (by decide)
    isDeclarable_colours (by decide) .modules
  exact ⟨hiff.2 readsBack_colour,
    hkeeps readsBack_colour colourWorkspace ⟨"", ["models"]⟩ ["models"] holdsLast_colourWorkspace⟩

/-- Members with a brace in a value. -/
def tornLetters : List EnumMember :=
  [⟨"Chosen", ⟨.string, "a\x7db"⟩, none⟩, ⟨"Other", ⟨.string, "c"⟩, none⟩]

/-- The enum of the letters. -/
def tornLetter : Model := ⟨"Letter", none, .enum tornLetters⟩

/-- The brace in a value ends the enum when it is read, and the names of all members are lost. -/
theorem read_content_tornLetter :
    let found : Entries String SourceMember := [("\"a", ⟨"Chosen", none⟩)]
    SourceEnum.read (tornLetter.file .modules).content = some ⟨"Letter", found⟩ ∧
      ⟨"Letter", found⟩ ≠ declared tornLetter.name tornLetters ∧
      EnumPlan.isGenerated "Chosen" "a\x7db" 0 = false ∧
      EnumPlan.isGenerated "Other" "c" 1 = false ∧
      (EnumPlan.ofModels [("Letter", found)] ⟨[⟨"Letter", none, .enum
        [⟨"Value1", ⟨.string, "a\x7db"⟩, none⟩, ⟨"Value2", ⟨.string, "c"⟩, none⟩]⟩]⟩).enums.map
          (fun p => p.members.map (·.name)) = [["Value1", "Value2"]] := by
  decide +kernel

end SourceEnum
end ApiScribe
