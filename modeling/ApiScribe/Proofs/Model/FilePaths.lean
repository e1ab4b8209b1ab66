import ApiScribe.Model.Text
import ApiScribe.Proofs.Model.Closed
import ApiScribe.Proofs.Path
import ApiScribe.Proofs.Text.Comment
import ApiScribe.Proofs.Workspace.Fresh
import ApiScribe.Proofs.Workspace.Interrupted

/-! Paths of model files. A file is named after its schema, whatever the name is, so the files of a
document stay inside the directory for models exactly if no name is an absolute path or leads above
the place that it starts from. -/
namespace ApiScribe
namespace Model

open Path

/-- The file of a model has a path inside exactly if the name of the model is confined. -/
theorem isInside_fileName_iff (style : ModelStyle) (m : Model) :
    IsInside (fileName style m) ↔ IsConfined m.name := by
  unfold fileName
  split
  · exact isInside_append_iff (by decide) ⟨'t', by decide, by decide⟩
  · exact isInside_append_iff (by decide) ⟨'t', by decide, by decide⟩

end Model

namespace ModelSet

open Model Path

variable {document : Value} {s : ModelSet}

theorem forall_mem_files_iff {P : String → Prop} {style : ModelStyle} {only : List String} :
    (∀ f ∈ s.files style only, P f.path) ↔
      ∀ m ∈ s.models, only = [] ∨ m.name ∈ only → P (fileName style m) := by
  simp only [files, List.forall_mem_map, List.mem_filter, Bool.or_eq_true, List.isEmpty_iff,
    List.contains_iff_mem, and_imp]
  rfl

/-- The files for the models of a document have paths inside exactly if the names of the schemas are
confined, in either style and for whatever choice of models. Written to a directory, such files
change no file but below that directory, even if writing them fails. -/
theorem files_isInside_iff (h : ofDocument document = .ok s) (style : ModelStyle)
    (only : List String) :
    ((∀ f ∈ s.files style only, IsInside f.path) ↔
      ∀ p ∈ Schema.entries document, ∀ name, Check.string (.scalar p.1) = .ok name →
        only = [] ∨ name ∈ only → IsConfined name) ∧
    ((∀ f ∈ s.files style only, IsInside f.path) → ∀ root w q,
      ((Job.writeFiles root (s.files style only)).run w).2.tree.file? q ≠ w.tree.file? q →
      ∃ f ∈ s.files style only, q = root.place w.current ++ normalSteps false (steps f.path)) := by
  obtain ⟨hmodels, hentries⟩ := models_of_ofDocument h
  refine ⟨?_, fun hinside root w q hq => Job.exists_of_file?_writeFiles_ne_inside hinside hq⟩
  rw [forall_mem_files_iff]
  simp only [isInside_fileName_iff]
  constructor
  · intro hall p hp name hname hchosen
    obtain ⟨m, hm, hpm⟩ := hentries p hp
    obtain rfl : name = m.name := Checked.ok.inj (hname.symm.trans (ofSchema_eq_ok hpm).1)
    exact hall m hm hchosen
  · intro hall m hm hchosen
    obtain ⟨p, hp, hpm⟩ := hmodels m hm
    exact hall p hp m.name (ofSchema_eq_ok hpm).1 hchosen

/-- A named schema of texts. -/
def textSchema : List (Scalar × Value) := [(.str "type", .str "string")]

def textDocument (name : String) : Value :=
  .record [("components", .record [("schemas", .record [(name, .map textSchema)])])]

/-- The model of the named schema of texts. -/
def textModels (name : String) : ModelSet := ⟨[⟨name, none, .aliased .string false⟩]⟩

theorem ofDocument_textDocument (name : String) :
    ofDocument (textDocument name) = .ok (textModels name) := by
  have hnull : Nullable.canBeNull (textDocument name) (.map textSchema) = .ok false :=
    Nullable.canBeNull_of_plain _ rfl (List.forall_mem_cons.2
      ⟨rfl, List.forall_mem_cons.2 ⟨rfl, List.forall_mem_singleton.2 rfl⟩⟩)
  have hkind : kindOf (textDocument name) textSchema name = .ok (.aliased .string false) :=
    Outcome.bind_eq_ok.2 ⟨some "string", rfl, Outcome.bind_eq_ok.2 ⟨_, hnull, rfl⟩⟩
  have hmodel : ofSchema (textDocument name) (.str name) (.map textSchema) =
      .ok ⟨name, none, .aliased .string false⟩ :=
    Outcome.bind_eq_ok.2 ⟨_, hkind, rfl⟩
  refine Outcome.bind_eq_ok.2 ⟨.map [(.str name, .map textSchema)], rfl,
    Outcome.bind_eq_ok.2 ⟨[(.str name, .ok (.map textSchema))], rfl,
      Outcome.bind_eq_ok.2 ⟨[_], ?_, rfl⟩⟩⟩
  exact Outcome.mapM_eq_ok.2 (.cons hmodel .nil)

/-- A name may lead through directories as long as it stays below the first of them. -/
theorem files_isInside_nested : ofDocument (textDocument "a/../b/c") = .ok (textModels "a/../b/c") ∧
    ∀ f ∈ (textModels "a/../b/c").files .modules [], IsInside f.path := by
  have hfiles := files_isInside_iff (ofDocument_textDocument "a/../b/c") .modules []
  refine ⟨ofDocument_textDocument _, hfiles.1.2 ?_⟩
  intro p hp name hname _
  have hentries : Schema.entries (textDocument "a/../b/c") = [(.str "a/../b/c", .map textSchema)] :=
    rfl
  rw [hentries, List.mem_singleton] at hp
  rw [hp] at hname
  rw [← Checked.ok.inj hname]
  decide +kernel

/-- A name that leads up makes a file in the directory above, in either style. -/
theorem not_isInside_climbing :
    ofDocument (textDocument "../x") = .ok (textModels "../x") ∧ ∀ style : ModelStyle,
      let files := (textModels "../x").files style []
      (∃ f ∈ files, ¬ IsInside f.path) ∧ ∃ place, ¬ ["work", "out"] <+: place ∧
        Job.lettersWorkspace.tree.file? place = none ∧
        (((Job.writeFiles (.ofPath "out") files).run Job.lettersWorkspace).2.tree.file?
          place).isSome := by
  refine ⟨ofDocument_textDocument _, fun style => ?_⟩
  cases style with
  | declarations => exact ⟨by decide +kernel, ["work", "x.d.ts"], by decide +kernel⟩
  | modules => exact ⟨by decide +kernel, ["work", "x.ts"], by decide +kernel⟩

end ModelSet

/-! Names of model files. Models of different names have files of different names, but for a model
that is declared and the enum that is called like it with `.d` behind, which have one file. -/

namespace Model

open Render

/-- As declarations a model and an enum have one file. -/
structure Clashes (m n : Model) : Prop where
  declared : m.isEnum = false
  enum : n.isEnum = true
  name : n.name = m.name ++ ".d"

instance (m n : Model) : Decidable (m.Clashes n) :=
  decidable_of_iff (m.isEnum = false ∧ n.isEnum = true ∧ n.name = m.name ++ ".d")
    ⟨fun ⟨hm, hn, hname⟩ => ⟨hm, hn, hname⟩, fun h => ⟨h.declared, h.enum, h.name⟩⟩

theorem Clashes.isEnum_ne {m n : Model} (h : m.Clashes n) : m.isEnum ≠ n.isEnum := by
  rw [h.declared, h.enum]
  exact Bool.false_ne_true

theorem fileName_declarations (m : Model) :
    fileName .declarations m = m.name ++ if m.isEnum then ".ts" else ".d.ts" := by
  cases h : m.isEnum <;> simp [fileName, h]

theorem clashes_iff {m n : Model} (hm : m.isEnum = false) (hn : n.isEnum = true) :
    fileName .declarations m = fileName .declarations n ↔ m.Clashes n := by
  have hending : m.name ++ ".d.ts" = m.name ++ ".d" ++ ".ts" := by
    rw [String.append_assoc]
    rfl
  rw [fileName_declarations, fileName_declarations, hm, hn, if_neg Bool.false_ne_true, if_pos rfl,
    hending, String.append_left_inj]
  exact ⟨fun h => ⟨hm, hn, h.symm⟩, fun h => h.name.symm⟩

/-- Models of different names have one file exactly if they clash as declarations. -/
theorem fileName_eq_iff (style : ModelStyle) {m n : Model} (hname : m.name ≠ n.name) :
    fileName style m = fileName style n ↔
      style = .declarations ∧ (m.Clashes n ∨ n.Clashes m) := by
  cases style with
  | modules =>
    have hne : ¬ m.name ++ ".ts" = n.name ++ ".ts" := fun h => hname ((String.append_left_inj _).1 h)
    exact iff_of_false hne fun h => nomatch h.1
  | declarations =>
    rw [and_iff_right rfl]
    -- two enums, and two models that are none, have files with the same ending
    by_cases hkind : m.isEnum = n.isEnum
    · refine iff_of_false ?_ ?_
      · rw [fileName_declarations, fileName_declarations, hkind]
        exact fun h => hname ((String.append_left_inj _).1 h)
      · exact not_or.2 ⟨fun h => h.isEnum_ne hkind, fun h => h.isEnum_ne hkind.symm⟩
    · cases hm : m.isEnum <;> cases hn : n.isEnum
      · exact absurd (hm.trans hn.symm) hkind
      · have hnot : ¬ n.Clashes m := fun h => Bool.false_ne_true (h.declared.symm.trans hn)
        rw [clashes_iff hm hn, or_iff_left hnot]
      · have hnot : ¬ m.Clashes n := fun h => Bool.false_ne_true (h.declared.symm.trans hm)
        rw [eq_comm, clashes_iff hn hm, or_iff_right hnot]
      · exact absurd (hm.trans hn.symm) hkind

/-- Behind the comment of a declared model stands a line that tells whether it is an enum. -/
theorem exists_declarations_lines (m : Model) : ∃ line ls,
    m.lines .declarations = commentLine "" m.description ++ line :: ls ∧
      line.toList.head? = some (if m.isEnum then 'e' else 'd') := by
  obtain ⟨name, description, kind⟩ := m
  cases kind with
  | interface ps => exact ⟨_, _, rfl, by simp [keyword, isEnum]⟩
  | enum es => exact ⟨_, _, rfl, by simp [isEnum]⟩
  | aliased target nullable => exact ⟨_, _, rfl, by simp [keyword, isEnum]⟩

/-- The text of a declared model: nothing or one line of comment, and what tells its kind. -/
theorem exists_declarations_content (m : Model) : ∃ rest,
    rest.head? = some (if m.isEnum then 'e' else 'd') ∧
      ((m.file .declarations).content.toList = rest ∨ ∃ cs, '\n' ∉ cs ∧
        (m.file .declarations).content.toList = '/' :: cs ++ '\n' :: rest) := by
  obtain ⟨line, ls, hlines, hhead⟩ := exists_declarations_lines m
  have hcontent : (m.file .declarations).content =
      fileText (commentLine "" m.description ++ line :: ls) := by rw [file, ← hlines]
  refine ⟨(fileText (line :: ls)).toList, ?_, ?_⟩
  · rw [toList_fileText, List.map_cons, List.flatMap_cons, List.append_assoc, List.head?_append, hhead]
    rfl
  · rw [hcontent, commentLine]
    split
    · exact .inl rfl
    · refine .inr ⟨('*' :: '*' :: ' ' :: (commentText m.description).toList) ++ [' ', '*', '/'], ?_, ?_⟩
      · have hline : '\n' ∉ (commentText m.description).toList := fun hmem =>
          absurd (isLineEnd_commentText '\n' hmem) (by decide)
        simp [hline]
      · simp [toList_fileText]

/-- Files that clash have different texts. -/
theorem Clashes.content_ne {m n : Model} (h : m.Clashes n) :
    (m.file .declarations).content ≠ (n.file .declarations).content := by
  intro heq
  obtain ⟨rest, hrest, hm⟩ := exists_declarations_content m
  obtain ⟨rest', hrest', hn⟩ := exists_declarations_content n
  rw [h.declared, if_neg Bool.false_ne_true] at hrest
  rw [h.enum, if_pos rfl] at hrest'
  rw [heq] at hm
  rcases hm with hm | ⟨cs, hcs, hm⟩ <;> rcases hn with hn | ⟨cs', hcs', hn⟩
  · rw [← hm, hn, hrest'] at hrest
    cases hrest
  · rw [← hm, hn] at hrest
    cases hrest
  · rw [← hn, hm] at hrest'
    cases hrest'
  · -- the comments are the same line, and the lines behind them differ
    have hcut : Text.cut? ['\n'] ('/' :: cs ++ '\n' :: rest) = some ('/' :: cs, rest) :=
      Text.cut?_append (by simpa using hcs) rest
    have hcut' : Text.cut? ['\n'] ('/' :: cs' ++ '\n' :: rest') = some ('/' :: cs', rest') :=
      Text.cut?_append (by simpa using hcs') rest'
    rw [← hm, hn, hcut'] at hcut
    obtain ⟨-, hsame⟩ := Prod.mk.inj (Option.some.inj hcut)
    rw [← hsame, hrest'] at hrest
    cases hrest

/-- Whether a model is rendered: without a choice all are. -/
def IsChosen (only : List String) (m : Model) : Prop := only = [] ∨ m.name ∈ only

end Model

namespace ModelSet

open Model Path

variable {s : ModelSet}

/-- Two of the chosen models clash. -/
def HasClash (s : ModelSet) (style : ModelStyle) (only : List String) : Prop :=
  style = .declarations ∧ ∃ m ∈ s.models, ∃ n ∈ s.models,
    m.IsChosen only ∧ n.IsChosen only ∧ m.Clashes n

/-- The files are those of the chosen models, in the order of the models. -/
theorem exists_chosen (s : ModelSet) (style : ModelStyle) (only : List String) :
    ∃ chosen : List Model, chosen.Sublist s.models ∧
      (∀ m, m ∈ chosen ↔ m ∈ s.models ∧ m.IsChosen only) ∧
      s.files style only = chosen.map (Model.file style) := by
  refine ⟨_, List.filter_sublist, fun m => ?_, rfl⟩
  rw [List.mem_filter, Bool.or_eq_true, List.isEmpty_iff, List.contains_iff_mem]
  rfl

/-- Chosen models of different names have files of different names unless two of them clash. -/
theorem nodup_paths_iff (h : (s.models.map (·.name)).Nodup) (style : ModelStyle)
    (only : List String) :
    ((s.files style only).map (·.path)).Nodup ↔ ¬ s.HasClash style only := by
  obtain ⟨chosen, hsub, hchosen, hfiles⟩ := s.exists_chosen style only
  rw [hfiles, List.map_map, List.nodup_map_iff_inj_on (h.of_map.sublist hsub)]
  constructor
  · rintro hinj ⟨rfl, m, hm, n, hn, hmc, hnc, hclash⟩
    have hsame := hinj m ((hchosen m).2 ⟨hm, hmc⟩) n ((hchosen n).2 ⟨hn, hnc⟩)
      ((clashes_iff hclash.declared hclash.enum).2 hclash)
    exact absurd hclash.enum (by rw [← hsame, hclash.declared]; decide)
  · intro hno m hm n hn hpath
    obtain ⟨hm, hmc⟩ := (hchosen m).1 hm
    obtain ⟨hn, hnc⟩ := (hchosen n).1 hn
    by_contra hne
    have hname : m.name ≠ n.name := fun he => hne (List.inj_on_of_nodup_map h hm hn he)
    obtain ⟨hstyle, hclash | hclash⟩ := (fileName_eq_iff style hname).1 hpath
    · exact hno ⟨hstyle, m, hm, n, hn, hmc, hnc, hclash⟩
    · exact hno ⟨hstyle, n, hn, m, hm, hnc, hmc, hclash⟩

/-- If paths go down, files with one place are the same exactly if no two models clash. -/
theorem forall_bytes_eq_iff (h : (s.models.map (·.name)).Nodup) {style : ModelStyle}
    {only : List String} (hdown : ∀ f ∈ s.files style only, IsDown (steps f.path))
    (current : List String) (root : Location) :
    (∀ f ∈ s.files style only, ∀ g ∈ s.files style only,
      f.place current root = g.place current root → f.bytes = g.bytes) ↔
      ¬ s.HasClash style only := by
  constructor
  · rintro hsame ⟨rfl, m, hm, n, hn, hmc, hnc, hclash⟩
    obtain ⟨chosen, -, hchosen, hfiles⟩ := s.exists_chosen .declarations only
    rw [hfiles] at hsame
    have hpath : (m.file .declarations).path = (n.file .declarations).path :=
      (clashes_iff hclash.declared hclash.enum).2 hclash
    have hplace : (m.file .declarations).place current root =
        (n.file .declarations).place current root := by
      rw [PlannedFile.place, PlannedFile.location, hpath]
      rfl
    exact hclash.content_ne <| Text.utf8_injective <|
      hsame _ (List.mem_map_of_mem ((hchosen m).2 ⟨hm, hmc⟩)) _
        (List.mem_map_of_mem ((hchosen n).2 ⟨hn, hnc⟩)) hplace
  · intro hno f hf g hg hplace
    rw [PlannedFile.place_of_isDown current (hdown f hf),
      PlannedFile.place_of_isDown current (hdown g hg)] at hplace
    have hpath := steps_injective (List.append_cancel_left hplace)
    rw [List.inj_on_of_nodup_map ((nodup_paths_iff h style only).2 hno) hf hg hpath]

/-- Models of different names are rendered to one file each, all the chosen ones in order. The files
have different paths unless two models clash, a declared one and the enum that is called like it
with `.d` behind. Once they are written each of them is there exactly if no other one has its place
with other bytes, and if their paths go down that means that no two models clash. -/
theorem nodup_paths_and_file?_writeFiles_iff (h : (s.models.map (·.name)).Nodup)
    (style : ModelStyle) (only : List String) :
    (∃ chosen : List Model, chosen.Sublist s.models ∧
      (∀ m, m ∈ chosen ↔ m ∈ s.models ∧ m.IsChosen only) ∧
      s.files style only = chosen.map (Model.file style)) ∧
    (((s.files style only).map (·.path)).Nodup ↔ ¬ s.HasClash style only) ∧
    ∀ root w r w', (Job.writeFiles root (s.files style only)).run w = (.ok r, w') →
      ((∀ f ∈ s.files style only, w'.tree.file? (f.place w.current root) = some f.bytes) ↔
        ∀ f ∈ s.files style only, ∀ g ∈ s.files style only,
          f.place w.current root = g.place w.current root → f.bytes = g.bytes) ∧
      ((∀ f ∈ s.files style only, IsDown (steps f.path)) →
        ((∀ f ∈ s.files style only, w'.tree.file? (f.place w.current root) = some f.bytes) ↔
          ¬ s.HasClash style only)) := by
  refine ⟨s.exists_chosen style only, nodup_paths_iff h style only, fun root w r w' hrun => ?_⟩
  have hthere := Job.forall_file?_writeFiles_iff hrun
  exact ⟨hthere, fun hdown => hthere.trans (forall_bytes_eq_iff h hdown w.current root)⟩

/-- A text and an enum with one value. -/
def statusModels (text enum : String) : ModelSet :=
  ⟨[⟨text, none, .aliased .string false⟩,
    ⟨enum, none, .enum [⟨"Open", ⟨.string, "open"⟩, none⟩]⟩]⟩

/-- The text may have the longer name. -/
theorem nodup_paths_statusModels :
    let files := (statusModels "Status.d" "Status").files .declarations []
    (files.map (·.path)).Nodup ∧
      ∃ r w', (Job.writeFiles (.ofPath "out") files).run Job.lettersWorkspace = (.ok r, w') ∧
        ∀ f ∈ files, w'.tree.file? (f.place ["work"] (.ofPath "out")) = some f.bytes := by
  obtain ⟨-, hpaths, hwritten⟩ := nodup_paths_and_file?_writeFiles_iff
    (s := statusModels "Status.d" "Status") (by decide +kernel) .declarations []
  have hno : ¬ (statusModels "Status.d" "Status").HasClash .declarations [] := by
    rintro ⟨-, m, hm, n, hn, -, -, hclash⟩
    have hnone : ∀ m ∈ (statusModels "Status.d" "Status").models,
        ∀ n ∈ (statusModels "Status.d" "Status").models, ¬ m.Clashes n := by decide +kernel
    exact hnone m hm n hn hclash
  have hrun : ((Job.writeFiles (.ofPath "out")
      ((statusModels "Status.d" "Status").files .declarations [])).run Job.lettersWorkspace).1 =
      .ok ⟨(statusModels "Status.d" "Status").files .declarations [], 0⟩ := by decide +kernel
  have hboth := hwritten (.ofPath "out") Job.lettersWorkspace _ _ (Prod.ext hrun rfl)
  exact ⟨hpaths.2 hno, _, _, Prod.ext hrun rfl, (hboth.2 (by decide +kernel)).2 hno⟩

/-- The enum with the longer name takes the place of the text. -/
theorem not_nodup_paths_statusModels :
    let s := statusModels "Status" "Status.d"
    let files := s.files .declarations []
    (s.models.map (·.name)).Nodup ∧ ¬ (files.map (·.path)).Nodup ∧
      ((Job.writeFiles (.ofPath "out") files).run Job.lettersWorkspace).1 = .ok ⟨files, 0⟩ ∧
      ∃ f ∈ files, ((Job.writeFiles (.ofPath "out") files).run
        Job.lettersWorkspace).2.tree.file? (f.place ["work"] (.ofPath "out")) ≠ some f.bytes := by
  decide +kernel

end ModelSet
end ApiScribe
