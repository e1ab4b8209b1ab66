import ApiScribe.Proofs.FileTree.Refused
import ApiScribe.Proofs.Json.Written
import ApiScribe.Proofs.Path
import ApiScribe.Proofs.Text.Lines
import ApiScribe.Proofs.Workspace.Write
import ApiScribe.Workspace.Source

/-! Runs that fail. A run touches nothing before all its files are planned, laid out and formatted,
and a file that cannot be written leaves exactly the files that were written before it. -/
namespace ApiScribe
namespace Job
open FileTree
variable {w w' w₁ : Workspace} {root l : Location} {f : PlannedFile} {content : Bytes} {e : Failure}
  {files before after : List PlannedFile}

theorem read_run_of_not_isStorable (h : l.isStorable = false) (w : Workspace) :
    (read l).run w = (.error .unexpected, w) := by
  unfold read demandStorable
  rw [h]
  rfl

/-- Comparing a file with bytes leaves the workspace as it is. -/
theorem holds_run_snd (l : Location) (content : Bytes) (w : Workspace) :
    ((holds l content).run w).2 = w := by
  unfold holds
  cases hstorable : l.isStorable with
  | false =>
    rw [run_bind_error (read_run_of_not_isStorable hstorable w)]
  | true =>
    rw [run_bind_ok (read_run hstorable w)]
    cases w.tree.read w.current l with
    | ok bs => rfl
    | error r => cases r <;> rfl

theorem read_of_holds_run (h : (holds l content).run w = (.ok true, w')) :
    w.tree.read w.current l = .ok content := by
  unfold holds at h
  cases hstorable : l.isStorable with
  | false =>
    rw [run_bind_error (read_run_of_not_isStorable hstorable w)] at h
    cases h
  | true =>
    rw [run_bind_ok (read_run hstorable w)] at h
    cases hread : w.tree.read w.current l with
    | ok bs =>
      rw [hread] at h
      have hbs : (bs == content) = true := Except.ok.inj (congrArg Prod.fst h)
      rw [beq_iff_eq.1 hbs]
    | error r =>
      rw [hread] at h
      cases r <;> cases h

/-- A file comes to stand at its target, where it is read, or the replacement fails and all files are
as they were. -/
theorem replace_run_cases (l : Location) (content : Bytes) (w : Workspace) :
    (∃ t, (replace l content).run w = (.ok (), { w with tree := t }) ∧
      t.read w.current l = .ok content ∧
      t.file? = Function.update w.tree.file? (l.place w.current) (some content)) ∨
    ∃ e w', (replace l content).run w = (.error e, w') ∧ w'.tree.file? = w.tree.file? := by
  cases hstorable : l.isStorable with
  | false => exact .inr ⟨_, w, replace_run_of_not_isStorable hstorable content, rfl⟩
  | true =>
    rcases replace_cases w.tree w.current l content with
      ⟨t, hreplace, hread, hfiles⟩ | ⟨t, r, hreplace, hfiles⟩
    · exact .inl ⟨t, replace_run hstorable hreplace, hread, hfiles⟩
    · exact .inr ⟨_, _, replace_run_refused hstorable hreplace, hfiles⟩

/-- A planned file is there afterwards and all other files are as they were, or writing it fails and
all files are as they were. -/
theorem writeFile_run_cases (root : Location) (f : PlannedFile) (w : Workspace) :
    (∃ wrote w', (writeFile root f).run w = (.ok wrote, w') ∧ w'.current = w.current ∧
      w'.tree.file? = Function.update w.tree.file? (f.place w.current root) (some f.bytes)) ∨
    ∃ e w', (writeFile root f).run w = (.error e, w') ∧ w'.tree.file? = w.tree.file? := by
  have hleft := holds_run_snd (f.location root) f.bytes w
  rcases hrun : (holds (f.location root) f.bytes).run w with ⟨_ | there, w₁⟩
  · next e =>
    rw [hrun] at hleft
    obtain rfl : w₁ = w := hleft
    exact .inr ⟨e, w₁, run_bind_error hrun, rfl⟩
  rw [hrun] at hleft
  obtain rfl : w₁ = w := hleft
  have hwrite : (writeFile root f).run w₁ = (if there then pure false else do
      replace (f.location root) f.bytes
      note .debug ("Wrote " ++ (f.location root).text)
      return true : Job Bool).run w₁ := run_bind_ok hrun
  cases there with
  | true =>
    have hfile := file?_of_read (read_of_holds_run hrun)
    refine .inl ⟨false, w₁, hwrite, rfl, ?_⟩
    rw [PlannedFile.place, ← hfile, Function.update_eq_self]
  | false =>
    rcases replace_run_cases (f.location root) f.bytes w₁ with
      ⟨t, hreplace, -, hfiles⟩ | ⟨e, w', hreplace, hfiles⟩
    · left
      refine ⟨true, { w₁ with tree := t, notes := w₁.notes ++ [f.note root] }, ?_, rfl, hfiles⟩
      rw [hwrite, if_neg Bool.false_ne_true, run_bind_ok hreplace, run_bind_ok (run_note _ _ _)]
      rfl
    · refine .inr ⟨e, w', ?_, hfiles⟩
      rw [hwrite, if_neg Bool.false_ne_true, run_bind_error hreplace]

/-- Files with planned ones put in their places, one after the other. -/
def overwritten (current : List String) (root : Location) (files : List PlannedFile)
    (m : List String → Option Bytes) : List String → Option Bytes :=
  files.foldl (fun m f => Function.update m (f.place current root) (some f.bytes)) m

/-- Writing a file and then the others is writing them all. -/
theorem writeFiles_run_cons {wrote : Bool} (h : (writeFile root f).run w = (.ok wrote, w₁)) :
    (writeFiles root (f :: files)).run w = match (writeFiles root files).run w₁ with
      | (.ok r, w') => (.ok (if wrote then { r with filesWritten := f :: r.filesWritten }
          else { r with skippedFiles := r.skippedFiles + 1 }), w')
      | (.error e, w') => (.error e, w') := by
  rw [writeFiles, run_bind_ok h, run_bind]
  rcases (writeFiles root files).run w₁ with ⟨_ | r, w'⟩ <;> cases wrote <;> rfl

/-- Writing ends at the first file that cannot be written. -/
theorem writeFiles_run_append_error {r : WriteResult}
    (hbefore : (writeFiles root before).run w = (.ok r, w₁))
    (hf : (writeFile root f).run w₁ = (.error e, w')) :
    (writeFiles root (before ++ f :: after)).run w = (.error e, w') := by
  induction before generalizing w r with
  | nil =>
    obtain rfl : w = w₁ := congrArg Prod.snd hbefore
    exact run_bind_error hf
  | cons g gs ih =>
    rcases hg : (writeFile root g).run w with ⟨e' | wrote, w₂⟩
    · rw [writeFiles, run_bind_error hg] at hbefore
      cases hbefore
    rw [writeFiles_run_cons hg] at hbefore
    rcases hgs : (writeFiles root gs).run w₂ with ⟨e' | r', w₃⟩
    · rw [hgs] at hbefore
      cases hbefore
    rw [hgs] at hbefore
    obtain rfl : w₃ = w₁ := congrArg Prod.snd hbefore
    rw [List.cons_append, writeFiles_run_cons hg, ih hgs]

/-- All planned files are there afterwards, or one of them fails after those before it were written,
and exactly they are there. The induction is on the files. -/
theorem writeFiles_run_cases (root : Location) (files : List PlannedFile) (w : Workspace) :
    (∃ r w', (writeFiles root files).run w = (.ok r, w') ∧ w'.current = w.current ∧
      w'.tree.file? = overwritten w.current root files w.tree.file?) ∨
    ∃ before f after r w₁ e w', files = before ++ f :: after ∧
      (writeFiles root before).run w = (.ok r, w₁) ∧ (writeFile root f).run w₁ = (.error e, w') ∧
      w'.tree.file? = w₁.tree.file? ∧
      w'.tree.file? = overwritten w.current root before w.tree.file? := by
  induction files generalizing w with
  | nil => exact .inl ⟨{}, w, rfl, rfl, rfl⟩
  | cons f files ih =>
    rcases writeFile_run_cases root f w with
      ⟨wrote, w₁, hf, hcurrent, hfiles⟩ | ⟨e, w', hf, hfiles⟩
    · rcases ih w₁ with ⟨r, w', hrun, hcurrent', hfiles'⟩ |
        ⟨before, g, after, r, w₂, e, w', hsplit, hbefore, hg, hsame, hfiles'⟩
      · refine .inl ⟨_, w', by rw [writeFiles_run_cons hf, hrun], hcurrent'.trans hcurrent, ?_⟩
        rw [hfiles', hfiles, hcurrent]
        rfl
      · refine .inr ⟨f :: before, g, after, _, w₂, e, w', by rw [hsplit, List.cons_append],
          by rw [writeFiles_run_cons hf, hbefore], hg, hsame, ?_⟩
        rw [hfiles', hfiles, hcurrent]
        rfl
    · exact .inr ⟨[], f, files, {}, w, e, w', rfl, rfl, hf, hfiles, hfiles⟩

theorem exists_of_overwritten_ne {current : List String} {m : List String → Option Bytes}
    {q : List String} (h : overwritten current root files m q ≠ m q) :
    ∃ f ∈ files, f.place current root = q := by
  induction files generalizing m with
  | nil => exact absurd rfl h
  | cons f files ih =>
    by_cases hq : f.place current root = q
    · exact ⟨f, List.mem_cons_self, hq⟩
    · have hrest : overwritten current root files
          (Function.update m (f.place current root) (some f.bytes)) q ≠
          Function.update m (f.place current root) (some f.bytes) q := by
        rwa [Function.update_of_ne (Ne.symm hq)]
      obtain ⟨g, hg, hplace⟩ := ih hrest
      exact ⟨g, List.mem_cons_of_mem f hg, hplace⟩

/-- Of files with one place the last one stays, so all of them stay if those with one place are the
same. -/
theorem forall_overwritten_iff {current : List String} {m : List String → Option Bytes} :
    (∀ f ∈ files, overwritten current root files m (f.place current root) = some f.bytes) ↔
      ∀ f ∈ files, ∀ g ∈ files, f.place current root = g.place current root → f.bytes = g.bytes := by
  constructor
  · intro hall f hf g hg hplace
    have hcontent := hall f hf
    rw [hplace, hall g hg] at hcontent
    exact (Option.some.inj hcontent).symm
  · induction files generalizing m with
    | nil => simp
    | cons f files ih =>
      intro hsame
      have hrest : ∀ g ∈ files, overwritten current root (f :: files) m (g.place current root) =
          some g.bytes := ih fun g hg g' hg' =>
        hsame g (List.mem_cons_of_mem f hg) g' (List.mem_cons_of_mem f hg')
      refine List.forall_mem_cons.2 ⟨?_, hrest⟩
      by_cases hagain : ∃ g ∈ files, g.place current root = f.place current root
      · obtain ⟨g, hg, hplace⟩ := hagain
        rw [← hplace, hrest g hg,
          hsame g (List.mem_cons_of_mem f hg) f List.mem_cons_self hplace]
      · -- nothing behind the file comes to its place
        have hkept : overwritten current root files
            (Function.update m (f.place current root) (some f.bytes)) (f.place current root) =
              Function.update m (f.place current root) (some f.bytes) (f.place current root) :=
          not_not.1 fun hne => hagain (exists_of_overwritten_ne hne)
        exact hkept.trans (Function.update_self _ _ _)

/-- Once files are written, each of them is there exactly if none has the place of one with other
bytes. -/
theorem forall_file?_writeFiles_iff {r : WriteResult}
    (h : (writeFiles root files).run w = (.ok r, w')) :
    (∀ f ∈ files, w'.tree.file? (f.place w.current root) = some f.bytes) ↔
      ∀ f ∈ files, ∀ g ∈ files, f.place w.current root = g.place w.current root →
        f.bytes = g.bytes := by
  rcases writeFiles_run_cases root files w with ⟨r', w₁, hrun, -, hfiles⟩ |
    ⟨before, f, after, _, w₁, e, w₂, hsplit, hbefore, hf, -⟩
  · rw [h] at hrun
    obtain rfl : w' = w₁ := congrArg Prod.snd hrun
    rw [hfiles]
    exact forall_overwritten_iff
  · rw [hsplit, writeFiles_run_append_error hbefore hf] at h
    cases h

/-- Whether or not all files are written, no file is changed but at the place of a planned one. -/
theorem exists_of_file?_writeFiles_ne {q : List String}
    (h : ((writeFiles root files).run w).2.tree.file? q ≠ w.tree.file? q) :
    ∃ f ∈ files, f.place w.current root = q := by
  rcases writeFiles_run_cases root files w with
    ⟨r, w', hrun, -, hfiles⟩ | ⟨before, f, after, r, w₁, e, w', rfl, hbefore, hf, -, hfiles⟩
  · rw [hrun, hfiles] at h
    exact exists_of_overwritten_ne h
  · rw [writeFiles_run_append_error hbefore hf, hfiles] at h
    obtain ⟨g, hg, hplace⟩ := exists_of_overwritten_ne h
    exact ⟨g, List.mem_append_left _ hg, hplace⟩

/-- Writing files with paths inside changes nothing but files below the directory that they are
written to, even if it fails. -/
theorem exists_of_file?_writeFiles_ne_inside (h : ∀ f ∈ files, Path.IsInside f.path) {q : List String}
    (hq : ((writeFiles root files).run w).2.tree.file? q ≠ w.tree.file? q) :
    ∃ f ∈ files, q = root.place w.current ++ Path.normalSteps false (Path.steps f.path) := by
  obtain ⟨f, hf, rfl⟩ := exists_of_file?_writeFiles_ne hq
  exact ⟨f, hf, (h f hf).place_below root w.current⟩

theorem writeFiles_run_eq_error_iff :
    (writeFiles root files).run w = (.error e, w') ↔
      ∃ before f after r w₁, files = before ++ f :: after ∧
        (writeFiles root before).run w = (.ok r, w₁) ∧ (writeFile root f).run w₁ = (.error e, w') ∧
        w'.tree.file? = w₁.tree.file? ∧
        w'.tree.file? = overwritten w.current root before w.tree.file? := by
  constructor
  · intro h
    rcases writeFiles_run_cases root files w with ⟨r, w₂, hrun, -, -⟩ |
      ⟨before, f, after, r, w₁, e', w₂, hsplit, hbefore, hf, hsame, hfiles⟩
    · rw [hrun] at h
      cases h
    · have hrun : (writeFiles root (before ++ f :: after)).run w = (.error e', w₂) :=
        writeFiles_run_append_error hbefore hf
      rw [← hsplit, h] at hrun
      cases hrun
      exact ⟨before, f, after, r, w₁, hsplit, hbefore, hf, hsame, hfiles⟩
  · rintro ⟨before, f, after, r, w₁, rfl, hbefore, hf, -, -⟩
    exact writeFiles_run_append_error hbefore hf

end Job

/-- Any stages of a run: what reads a document, named passes, named renderers, what lays files out,
and what formats the content of the file at a path. Each stage can fail; none sees a workspace. -/
structure Stages where
  parse : Value → Outcome Api
  passes : List (String × (Api → Outcome Api))
  renderers : List (String × (Api → Outcome RenderOutput))
  layout : List PlannedFile → Outcome (List PlannedFile)
  format : String → String → Outcome String

namespace Stages

/-- Runs renderers one after the other, adding their files to those planned before. -/
def renderOnto (a : Api) (owned : Entries String OwnedFile) :
    List (String × (Api → Outcome RenderOutput)) →
      Outcome (List RendererReport × Entries String OwnedFile)
  | [] => .ok ([], owned)
  | (id, render) :: rs => do
    let output ← render a
    let owned ← output.files.foldlM (Pipeline.addFile id) owned
    let (reports, owned) ← renderOnto a owned rs
    return (⟨id, output.files.length, output.warnings⟩ :: reports, owned)

/-- Everything before writing. -/
def draft (s : Stages) (document : Value) : Outcome Draft := do
  let a ← s.parse document
  let a ← s.passes.foldlM (fun a pass => pass.2 a) a
  let (reports, owned) ← renderOnto a [] s.renderers
  let files ← s.layout (owned.map fun c => c.2.file)
  let files ← files.mapM fun p => return ⟨p.path, ← s.format p.path p.content⟩
  return ⟨a.endpoints.length, s.passes.map Prod.fst, reports, files⟩

/-- The whole run, with the files written below a directory. -/
def plan (s : Stages) (root : Location) (document : Value) : Job ExecutionPlan := do
  let d ← Job.ofOutcome (s.draft document)
  let r ← Job.writeFiles root d.files
  Job.note .debug ("Planned " ++ toString d.files.length ++ " files for "
    ++ toString d.endpointCount ++ " endpoints (" ++ toString r.filesWritten.length
    ++ " written, " ++ toString r.skippedFiles ++ " unchanged)")
  return d.plan r

end Stages

namespace Pipeline

/-- The stages of a pipeline. -/
def stages (p : Pipeline) : Stages where
  parse := p.extract
  passes := p.passes.map fun pass => (pass.name, fun a =>
    match pass.apply a.endpoints with
    | (es, none) => .ok { a with endpoints := es }
    | (_, some f) => .fail f)
  renderers := p.renderers.map fun r => (r.id, fun a => .ok (r.render a))
  layout files := .ok (p.layout.apply files)
  format := p.formatter.format

theorem foldlM_stages_passes (p : Pipeline) (a : Api) :
    p.stages.passes.foldlM (fun a pass => pass.2 a) a =
      (fun es => { a with endpoints := es }) <$> Pass.applyAll p.passes a.endpoints := by
  show (p.passes.map _).foldlM _ a = _
  induction p.passes generalizing a with
  | nil => rfl
  | cons pass passes ih =>
    rw [List.map_cons, List.foldlM_cons, Pass.applyAll]
    rcases hpass : pass.apply a.endpoints with ⟨es, _ | f⟩
    · simp only [hpass]
      exact ih { a with endpoints := es }
    · simp only [hpass]
      rfl

theorem renderOnto_stages_renderers (rs : List Renderer) (a : Api)
    (owned : Entries String OwnedFile) :
    Stages.renderOnto a owned (rs.map fun r => (r.id, fun a => .ok (r.render a))) =
      renderOnto a owned rs := by
  induction rs generalizing owned with
  | nil => rfl
  | cons r rs ih =>
    rw [List.map_cons, Stages.renderOnto, renderOnto]
    show (List.foldlM (addFile r.id) owned (r.render a).files >>= _) = _
    simp only [ih]

/-- The stages of a pipeline plan what it plans. -/
theorem draft_stages (p : Pipeline) (document : Value) :
    p.stages.draft document = p.draft document := by
  have hnames : p.stages.passes.map Prod.fst = p.passes.map Pass.name := by simp [stages]
  simp only [Stages.draft, draft, transformed, render, foldlM_stages_passes, hnames,
    bind_map_left, bind_assoc, pure_bind]
  refine bind_congr fun a => bind_congr fun es => ?_
  rw [show p.stages.renderers = p.renderers.map fun r => (r.id, fun a => .ok (r.render a)) from rfl,
    renderOnto_stages_renderers]
  exact bind_congr fun ⟨reports, owned⟩ => rfl

/-- A run that writes is the run of its stages. -/
theorem plan_of_target (p : Pipeline) (target : String) (document : Value) :
    ({ p with target := some target } : Pipeline).plan document =
      ({ p with target := some target } : Pipeline).stages.plan (.ofPath target) document := by
  unfold Stages.plan
  rw [draft_stages]
  rfl

end Pipeline

namespace Stages

/-- Once the files are written a run cannot fail. -/
theorem plan_run_of_draft (s : Stages) (root : Location) {document : Value} {d : Draft}
    (hd : s.draft document = .ok d) (w w' : Workspace) (e : Failure) :
    (s.plan root document).run w = (.error e, w') ↔
      (Job.writeFiles root d.files).run w = (.error e, w') := by
  have hdraft : (Job.ofOutcome (s.draft document)).run w = (.ok d, w) := by rw [Job.run_ofOutcome, hd]
  rw [plan, Job.run_bind_ok hdraft]
  rcases hwrite : (Job.writeFiles root d.files).run w with ⟨e' | r, w₁⟩
  · rw [Job.run_bind_error hwrite]
    constructor <;> (intro h; cases h; rfl)
  · rw [Job.run_bind_ok hwrite, Job.run_bind_ok (Job.run_note _ _ _)]
    constructor <;> (intro h; cases h)

/-- A run fails just if a stage before writing fails or a file cannot be written. In the first case
nothing at all is changed. In the second the files before that one were written, and they and what
was there before are all the files that there are. What a pipeline with a target does is such a
run. -/
theorem plan_run_eq_error_iff (s : Stages) (root : Location) (document : Value) (w w' : Workspace)
    (e : Failure) :
    ((s.plan root document).run w = (.error e, w') ↔
      (s.draft document = .error e ∧ w' = w) ∨
      ∃ d before f after r w₁, s.draft document = .ok d ∧ d.files = before ++ f :: after ∧
        (Job.writeFiles root before).run w = (.ok r, w₁) ∧
        (Job.writeFile root f).run w₁ = (.error e, w') ∧
        w'.tree.file? = w₁.tree.file? ∧
        w'.tree.file? = Job.overwritten w.current root before w.tree.file?) ∧
    ∀ (p : Pipeline) (target : String), ({ p with target := some target } : Pipeline).plan document =
      ({ p with target := some target } : Pipeline).stages.plan (.ofPath target) document := by
  refine ⟨?_, fun p target => p.plan_of_target target document⟩
  cases hd : s.draft document with
  | error e' =>
    have hrun : (s.plan root document).run w = (.error e', w) := by
      refine Job.run_bind_error ?_
      rw [Job.run_ofOutcome, hd]
    rw [hrun]
    constructor
    · intro h
      cases h
      exact .inl ⟨rfl, rfl⟩
    · rintro (⟨he, rfl⟩ | ⟨d, before, f, after, r, w₁, hd', -⟩)
      · cases he
        rfl
      · cases hd'
  | ok d =>
    rw [plan_run_of_draft s root hd, Job.writeFiles_run_eq_error_iff]
    constructor
    · rintro ⟨before, f, after, r, w₁, h⟩
      exact .inr ⟨d, before, f, after, r, w₁, rfl, h⟩
    · rintro (⟨he, -⟩ | ⟨d', before, f, after, r, w₁, hd', h⟩)
      · cases he
      · cases hd'
        exact ⟨before, f, after, r, w₁, h⟩

/-- The third file is planned below the first. -/
example :
    let run := (Job.writeFiles (.ofPath "out") [⟨"c", "x"⟩, ⟨"b", "z"⟩, ⟨"c/d", "y"⟩, ⟨"e", "x"⟩]).run
      Job.lettersWorkspace
    run.1 = .error (.fault (.write "out/c/d"
      "cannot read existing file: [Errno 20] Not a directory: 'out/c/d'")) ∧
    run.2.tree.file? ["work", "out", "c"] = some (Text.utf8 "x") ∧
    run.2.tree.file? ["work", "out", "b"] = some (Text.utf8 "z") ∧
    run.2.tree.file? ["work", "out", "e"] = none := by
  decide +kernel

end Stages
end ApiScribe

/-! Values in files. A file that was put somewhere is read there, and a value that was stored as JSON
text is read back from it. -/
namespace ApiScribe
namespace Job
open FileTree
variable {w w' : Workspace} {l : Location} {content : Bytes}

/-- A file that was put at a location is what is read there, and nothing but the tree changed. -/
theorem read_of_replace_run (h : (replace l content).run w = (.ok (), w')) :
    l.isStorable = true ∧ w'.current = w.current ∧ w'.tree.read w'.current l = .ok content := by
  rcases replace_run_cases l content w with ⟨t, hrun, hread, -⟩ | ⟨e, w₁, hrun, -⟩
  · rw [h] at hrun
    obtain ⟨-, rfl⟩ := Prod.mk.inj hrun
    refine ⟨?_, rfl, hread⟩
    by_contra hstorable
    rw [replace_run_of_not_isStorable (Bool.eq_false_iff.2 hstorable)] at h
    cases h
  · rw [h] at hrun
    cases hrun

theorem isFile_run_of_read (h : w.tree.read w.current l = .ok content) :
    (isFile l).run w = (.ok true, w) := by
  obtain ⟨hlocate, hnode⟩ := read_eq_ok_iff.1 h
  unfold isFile
  rw [run_bind_ok (standing_run hlocate), hnode]
  rfl

/-- Text without carriage returns is read as it was stored. -/
theorem readText_run {s : String} (hstorable : l.isStorable = true)
    (h : w.tree.read w.current l = .ok (Text.utf8 s)) (hs : '\r' ∉ s.toList) :
    (readText l).run w = (.ok s, w) := by
  unfold readText
  rw [run_bind_ok (read_run hstorable w), h]
  show (ofOutcome (Outcome.expect (textOf (Text.utf8 s)))).run w = _
  rw [textOf, Text.ofUtf8?_utf8, Option.map_some, Text.unifyNewlines_eq_self hs,
    String.ofList_toList]
  rfl

end Job

/-- A file at a location holds the JSON text of a value, with blanks or line feeds behind it. -/
structure HoldsJson (w : Workspace) (l : Location) (f : Json.Format) (v : Value) : Prop where
  storable : l.isStorable = true
  content : ∃ after : List Char, (∀ c ∈ after, c = ' ' ∨ c = '\t' ∨ c = '\n') ∧
    w.tree.read w.current l = .ok (Text.utf8 (f.write v ++ String.ofList after))

namespace Job
variable {w w' : Workspace} {l : Location} {f : Json.Format} {v : Value}

/-- Storing the text of a value with a line feed makes the file hold the value. -/
theorem holdsJson_of_replace_run
    (h : (replace l (Text.utf8 (f.write v ++ "\n"))).run w = (.ok (), w')) : HoldsJson w' l f v := by
  obtain ⟨hstorable, -, hread⟩ := read_of_replace_run h
  exact ⟨hstorable, ['\n'], by simp, hread⟩

/-- The text in a file that holds a value is read as the value. -/
theorem readText_run_of_holdsJson (h : HoldsJson w l f v) (hkeeps : f.Keeps Json.mostLevels v) :
    ∃ s, (readText l).run w = (.ok s, w) ∧ Json.read s = .ok v := by
  obtain ⟨after, hafter, hread⟩ := h.content
  have hgap : ∀ c ∈ after, Json.isGap c = true := fun c hc => by
    rcases hafter c hc with rfl | rfl | rfl <;> rfl
  have hreturn : '\r' ∉ (f.write v ++ String.ofList after).toList := by
    rw [String.toList_append, Json.Format.write, String.toList_ofList, String.toList_ofList,
      List.mem_append, not_or]
    exact ⟨Json.return_not_mem_chars hkeeps 0, fun hmem => absurd (hafter _ hmem) (by decide)⟩
  exact ⟨_, readText_run h.storable hread hreturn, Json.read_written hkeeps hgap⟩

/-- A file that holds a value is read as the value. -/
theorem readJson_run (h : HoldsJson w l f v) (hkeeps : f.Keeps Json.mostLevels v) :
    (readJson l).run w = (.ok v, w) := by
  obtain ⟨after, -, hread⟩ := h.content
  obtain ⟨s, htext, hvalue⟩ := readText_run_of_holdsJson h hkeeps
  unfold readJson
  rw [run_bind_ok (isFile_run_of_read hread)]
  show ((readText l) >>= fun s => ofOutcome (Document.readJson _ s)).run w = _
  rw [run_bind_ok htext, Document.readJson, hvalue]
  rfl

end Job
end ApiScribe
