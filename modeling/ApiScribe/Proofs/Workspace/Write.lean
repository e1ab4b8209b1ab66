import ApiScribe.Proofs.FileTree.Replace
import ApiScribe.Workspace
import ApiScribe.Workspace.Write

/-! Runs of jobs. A job that succeeds hands on its result and the workspace it left, and looking at
files leaves the workspace as it is. -/
namespace ApiScribe
namespace Job

theorem run_bind {α β : Type} (x : Job α) (f : α → Job β) (w : Workspace) :
    (x >>= f).run w = match x.run w with
      | (.ok a, w') => (f a).run w'
      | (.error e, w') => (.error e, w') := by
  show (ExceptT.bind x f).run w = _
  simp only [ExceptT.bind, ExceptT.run, ExceptT.mk, bind, StateT.bind]
  rcases x w with ⟨r, w''⟩
  cases r <;> rfl

/-- A step that succeeds hands its result and what it left to the next one. -/
theorem run_bind_ok {α β : Type} {x : Job α} {f : α → Job β} {w w' : Workspace} {a : α}
    (h : x.run w = (.ok a, w')) : (x >>= f).run w = (f a).run w' := by
  rw [run_bind, h]

/-- A step that fails ends the run. -/
theorem run_bind_error {α β : Type} {x : Job α} {f : α → Job β} {w w' : Workspace} {e : Failure}
    (h : x.run w = (.error e, w')) : (x >>= f).run w = (.error e, w') := by
  rw [run_bind, h]

theorem run_ofOutcome {α : Type} (r : Outcome α) (w : Workspace) : (ofOutcome r).run w = (r, w) := by
  cases r <;> rfl

theorem run_note (level : NoteLevel) (text : String) (w : Workspace) :
    (note level text).run w = (.ok (), { w with notes := w.notes ++ [⟨level, text⟩] }) := rfl

theorem run_get (w : Workspace) : (get : Job Workspace).run w = (.ok w, w) := rfl

/-- Reading at a storable location gives what the tree holds there. -/
theorem read_run {l : Location} (h : l.isStorable = true) (w : Workspace) :
    (read l).run w = (.ok (w.tree.read w.current l), w) := by
  unfold read demandStorable
  rw [if_pos h]
  rfl

theorem standing_run {w : Workspace} {l : Location} {place : List String}
    (h : w.tree.locate w.current l = .ok place) :
    (standing l).run w = (.ok (w.tree.node? place), w) := by
  unfold standing
  rw [run_bind_ok (run_get w), h]
  rfl

theorem isDirectory_run {w : Workspace} {l : Location} {place : List String}
    (hplace : w.tree.locate w.current l = .ok place)
    (hdirectory : w.tree.node? place = some .directory) :
    (isDirectory l).run w = (.ok true, w) := by
  unfold isDirectory
  rw [run_bind_ok (standing_run hplace), hdirectory]
  rfl

end Job
end ApiScribe

/-! Writing planned files. Each file that is not there with its content already is put in its place
with the directories it needs, nothing else is touched, and so a second run finds nothing to do. -/
namespace ApiScribe

/-- What is said of a planned file that was written. -/
def PlannedFile.note (root : Location) (f : PlannedFile) : Note :=
  ⟨.debug, "Wrote " ++ (f.location root).text⟩

/-- A workspace with another tree after planned files were written. -/
def Workspace.withFiles (w : Workspace) (root : Location) (written : List PlannedFile)
    (t : FileTree) : Workspace :=
  { w with tree := t, notes := w.notes ++ written.map (PlannedFile.note root) }

theorem Workspace.withFiles_nil (w : Workspace) (root : Location) :
    w.withFiles root [] w.tree = w := by
  rw [withFiles, List.map_nil, List.append_nil]

theorem Workspace.withFiles_withFiles (w : Workspace) (root : Location) (fs gs : List PlannedFile)
    (t t' : FileTree) :
    (w.withFiles root fs t).withFiles root gs t' = w.withFiles root (fs ++ gs) t' := by
  simp only [withFiles, List.map_append, List.append_assoc]

namespace Job
open FileTree
variable {w : Workspace} {root : Location} {f : PlannedFile} {files : List PlannedFile}

/-- A file that can be read or is missing is compared with the bytes. -/
theorem holds_run {l : Location} {content : Bytes} (hstorable : l.isStorable = true)
    (h : (∀ bs, w.tree.read w.current l ≠ .ok bs) → w.tree.read w.current l = .error .missing) :
    (holds l content).run w = (.ok (decide (w.tree.read w.current l = .ok content)), w) := by
  unfold holds
  rw [run_bind_ok (read_run hstorable w)]
  cases hread : w.tree.read w.current l with
  | ok bs =>
    show (Except.ok (bs == content), w) = _
    by_cases hbs : bs = content <;> simp [hbs]
  | error r =>
    rw [hread] at h
    obtain rfl : r = .missing := by simpa using h
    rfl

theorem replace_run {l : Location} {content : Bytes} {t : FileTree} (hstorable : l.isStorable = true)
    (h : w.tree.replace w.current l content = (t, none)) :
    (replace l content).run w = (.ok (), { w with tree := t }) := by
  unfold replace demandStorable
  rw [if_pos hstorable, pure_bind, run_bind_ok (run_get w), h]
  rfl

theorem replace_run_refused {l : Location} {content : Bytes} {t : FileTree} {r : Refused}
    (hstorable : l.isStorable = true)
    (h : w.tree.replace w.current l content = (t, some r)) :
    (replace l content).run w = (.error (.fault (.write l.text r.text)), { w with tree := t }) := by
  unfold replace demandStorable
  rw [if_pos hstorable, pure_bind, run_bind_ok (run_get w), h]
  rfl

theorem replace_run_of_not_isStorable {l : Location} (h : l.isStorable = false) (content : Bytes) :
    (replace l content).run w = (.error .unexpected, w) := by
  unfold replace demandStorable
  rw [h]
  rfl

/-- Whether a planned file is not there with its content already. -/
def lacks (w : Workspace) (root : Location) (f : PlannedFile) : Bool :=
  w.tree.file? (f.place w.current root) ≠ some f.bytes

theorem writeFile_run (h : w.tree.IsReady w.current root [f]) :
    ∃ t', (writeFile root f).run w =
        (.ok (lacks w root f), w.withFiles root (if lacks w root f then [f] else []) t') ∧
      Holds w.current root [f] w.tree t' ∧ (lacks w root f = false → t' = w.tree) := by
  have hf : f ∈ [f] := List.mem_singleton_self f
  have hread : w.tree.read w.current (f.location root) = .ok f.bytes ↔
      w.tree.file? (f.place w.current root) = some f.bytes := h.read_eq_ok hf
  have hholds : (holds (f.location root) f.bytes).run w = (.ok !lacks w root f, w) := by
    rw [holds_run (h.storable f hf)
      ((h.clear f hf).read_eq_missing (h.fits f hf) (h.directory f hf))]
    simp only [hread, lacks, decide_not, Bool.not_not]
  have hwrite : (writeFile root f).run w = (if !lacks w root f then pure false else do
      replace (f.location root) f.bytes
      note .debug ("Wrote " ++ (f.location root).text)
      return true : Job Bool).run w := by
    unfold writeFile
    exact run_bind_ok hholds
  rw [hwrite]
  cases hlacks : lacks w root f with
  | false =>
    have hfile : w.tree.file? (f.place w.current root) = some f.bytes := by simpa [lacks] using hlacks
    refine ⟨w.tree, ?_, h.holds_of_file? hfile, fun _ => rfl⟩
    rw [if_neg Bool.false_ne_true, Workspace.withFiles_nil]
    rfl
  | true =>
    have hfile : w.tree.file? (f.place w.current root) ≠ some f.bytes := by simpa [lacks] using hlacks
    obtain ⟨t', hreplace, hholds'⟩ := h.exists_replace hfile
    refine ⟨t', ?_, hholds', fun hno => absurd hno (by simp)⟩
    rw [if_neg (by simp), run_bind_ok (replace_run (h.storable f hf) hreplace),
      run_bind_ok (run_note _ _ _)]
    rfl

/-- Writing goes through all files: those are written that are not there already, and in the end all
are there. The induction is on the files; each leaves a tree that is ready for the next. -/
theorem writeFiles_run_of_isReady (h : w.tree.IsReady w.current root files) :
    ∃ r t', (writeFiles root files).run w = (.ok r, w.withFiles root r.filesWritten t') ∧
      r.filesWritten = files.filter (lacks w root) ∧
      r.filesWritten.length + r.skippedFiles = files.length ∧
      Holds w.current root files w.tree t' ∧ (r.filesWritten = [] → t' = w.tree) := by
  induction files generalizing w with
  | nil =>
    refine ⟨{}, w.tree, by rw [Workspace.withFiles_nil]; rfl, rfl, rfl, ?_, fun _ => rfl⟩
    exact ⟨by simp, by simp, fun _ _ => rfl, fun _ hq => hq, fun _ hq => .inl hq⟩
  | cons f fs ih =>
    obtain ⟨t₁, hrun₁, hholds₁, hsame₁⟩ := writeFile_run (h.sublist (by simp : [f].Sublist (f :: fs)))
    obtain ⟨r, t₂, hrun₂, hwritten, hcount, hholds₂, hsame₂⟩ :=
      ih (w := w.withFiles root (if lacks w root f then [f] else []) t₁) (h.after hholds₁)
    have hsame : ∀ g ∈ fs, lacks (w.withFiles root (if lacks w root f then [f] else []) t₁) root g =
        lacks w root g := fun g hg => by
      show decide (t₁.file? (g.place w.current root) ≠ some g.bytes) = lacks w root g
      rw [hholds₁.file?_place h.distinct hg]
      rfl
    rw [Workspace.withFiles_withFiles] at hrun₂
    rw [List.filter_congr hsame] at hwritten
    have hcons := hholds₁.cons (List.nodup_cons.1 h.distinct).1 hholds₂
    cases hlacks : lacks w root f with
    | true =>
      rw [hlacks] at hrun₁ hrun₂
      refine ⟨{ r with filesWritten := f :: r.filesWritten }, t₂, ?_, ?_, ?_, hcons,
        fun hnone => absurd hnone (List.cons_ne_nil f _)⟩
      · unfold writeFiles
        rw [run_bind_ok hrun₁, run_bind_ok hrun₂]
        rfl
      · rw [List.filter_cons_of_pos hlacks, ← hwritten]
      · simp only [List.length_cons]
        omega
    | false =>
      rw [hlacks] at hrun₁ hrun₂
      refine ⟨{ r with skippedFiles := r.skippedFiles + 1 }, t₂, ?_, ?_, ?_, hcons,
        fun hnone => (hsame₂ hnone).trans (hsame₁ hlacks)⟩
      · unfold writeFiles
        rw [run_bind_ok hrun₁, run_bind_ok hrun₂]
        rfl
      · rw [List.filter_cons_of_neg (by simp [hlacks]), ← hwritten]
      · simp only [List.length_cons]
        omega

end Job

/-- Planned files with places of their own: no two have one place, none has a place above another,
and none is planned for a directory. -/
structure AreTargets (w : Workspace) (root : Location) (files : List PlannedFile) : Prop where
  tree : w.tree.IsTree
  current : w.tree.node? w.current = some .directory
  distinct : (files.map (·.place w.current root)).Nodup
  apart : ∀ f ∈ files, ∀ g ∈ files,
    ¬ f.place w.current root <+: (g.place w.current root).dropLast
  directory : ∀ f ∈ files, w.tree.node? (f.place w.current root) ≠ some .directory

instance (w : Workspace) (root : Location) (files : List PlannedFile) :
    Decidable (AreTargets w root files) :=
  decidable_of_iff (w.tree.IsTree ∧ w.tree.node? w.current = some .directory ∧
    (files.map (·.place w.current root)).Nodup ∧
    (∀ f ∈ files, ∀ g ∈ files, ¬ f.place w.current root <+: (g.place w.current root).dropLast) ∧
    ∀ f ∈ files, w.tree.node? (f.place w.current root) ≠ some .directory)
    ⟨fun ⟨htree, hcurrent, hdistinct, hapart, hdirectory⟩ =>
      ⟨htree, hcurrent, hdistinct, hapart, hdirectory⟩,
      fun h => ⟨h.tree, h.current, h.distinct, h.apart, h.directory⟩⟩

/-- Targets that can be reached and held: no file stands above one, a way that leaves the directories
above goes through directories that are there, and names and paths are within the limits. -/
structure AreReachable (w : Workspace) (root : Location) (files : List PlannedFile) : Prop
    extends AreTargets w root files where
  above : ∀ f ∈ files, ∀ q ∈ (f.place w.current root).dropLast.inits, w.tree.file? q = none
  detour : ∀ f ∈ files, ∀ q ∈ (f.location root).passed w.current,
    q <+: (f.place w.current root).dropLast ∨ w.tree.node? q = some .directory
  storable : ∀ f ∈ files, (f.location root).isStorable = true
  fits : ∀ f ∈ files, (f.location root).Fits
  room : ∀ f ∈ files, w.tree.read w.current (f.location root) ≠ .ok f.bytes →
    FileTree.hasRoom ((f.location root).parent.place w.current) (f.location root).name = true

theorem AreReachable.isReady {w : Workspace} {root : Location} {files : List PlannedFile}
    (h : AreReachable w root files) : w.tree.IsReady w.current root files := by
  have hclear : ∀ f ∈ files, w.tree.IsClear w.current (f.location root) := by
    intro f hf q hq
    rcases h.detour f hf q hq with habove | hdirectory
    · exact h.above f hf q (List.mem_inits _ _ |>.2 habove)
    · rw [FileTree.file?, hdirectory]
  have hreached : ∀ f ∈ files, ∀ bs, w.tree.file? (f.place w.current root) = some bs →
      w.tree.Leads w.current (f.location root) := by
    intro f hf bs hbs q hq
    rcases h.detour f hf q hq with habove | hdirectory
    · exact h.tree.node?_of_prefix (FileTree.file?_eq_some.1 hbs) habove
    · exact hdirectory
  refine ⟨h.storable, h.fits, ?_, ?_, h.distinct, hclear, h.directory, ?_, hreached⟩
  · -- A location without steps is a directory that is there.
    intro f hf hsteps
    refine h.directory f hf ?_
    rw [PlannedFile.place, Location.place, hsteps, List.foldl_nil, Location.start]
    split
    · exact h.current
    · rfl
  · intro f hf hlacks
    refine h.room f hf fun hread => hlacks ?_
    exact (((hclear f hf).read_eq_ok (h.fits f hf)).1 hread).2
  · intro f hf g hg hpassed
    rcases h.detour g hg _ hpassed with habove | hdirectory
    · exact h.apart f hf g hg habove
    · exact h.directory f hf hdirectory

namespace Job

/-- Writing files to targets that can be reached succeeds and writes those, in their order, that
cannot be read with their content already; all others count as skipped. In the end every target
holds the bytes of its file, every other place holds what it held, and writing once more writes
nothing and changes nothing. -/
theorem writeFiles_run {w : Workspace} {root : Location} {files : List PlannedFile}
    (h : AreReachable w root files) :
    ∃ r w', (writeFiles root files).run w = (.ok r, w') ∧
      r.filesWritten =
        files.filter (fun f => w.tree.read w.current (root.below f.path) ≠ .ok f.bytes) ∧
      r.filesWritten.length + r.skippedFiles = files.length ∧
      (∀ f ∈ files, w'.tree.read w.current (root.below f.path) = .ok f.bytes) ∧
      (∀ q ∉ files.map (·.place w.current root), w'.tree.file? q = w.tree.file? q) ∧
      w' = w.withFiles root r.filesWritten w'.tree ∧
      (writeFiles root files).run w' = (.ok ⟨[], files.length⟩, w') := by
  have hready := h.isReady
  obtain ⟨r, t, hrun, hwritten, hcount, hholds, -⟩ := writeFiles_run_of_isReady hready
  have hagain := hready.again hholds
  obtain ⟨r', t', hrun', hwritten', hcount', -, hsame'⟩ :=
    writeFiles_run_of_isReady (w := w.withFiles root r.filesWritten t) hagain
  have hnone : r'.filesWritten = [] := by
    rw [hwritten', List.filter_eq_nil_iff]
    intro f hf
    rw [Bool.not_eq_true]
    exact decide_eq_false (not_not.2 (hholds.content f hf))
  have hresult : r' = ⟨[], files.length⟩ := by
    obtain ⟨written, skipped⟩ := r'
    obtain rfl : written = [] := hnone
    have hskipped : skipped = files.length := by simpa using hcount'
    rw [hskipped]
  rw [hsame' hnone, hnone, Workspace.withFiles_nil, hresult] at hrun'
  refine ⟨r, w.withFiles root r.filesWritten t, hrun, ?_, hcount, fun f hf => ?_, hholds.others, rfl,
    hrun'⟩
  · rw [hwritten]
    refine List.filter_congr fun f hf => ?_
    exact decide_eq_decide.2 (not_congr (hready.read_eq_ok hf).symm)
  · exact (hagain.read_eq_ok hf).2 (hholds.content f hf)

/-- A workspace with two files in a directory. -/
def lettersWorkspace : Workspace where
  tree := ⟨[(["work"], .directory), (["work", "out"], .directory),
    (["work", "out", "a"], .file (Text.utf8 "x")), (["work", "out", "b"], .file (Text.utf8 "y"))]⟩
  current := ["work"]

/-- Files for that directory: one with new content, one that is there, and one below a directory
that is missing. -/
def lettersFiles : List PlannedFile := [⟨"a", "z"⟩, ⟨"b", "y"⟩, ⟨"c/d", "z"⟩]

theorem writeFiles_lettersFiles :
    AreReachable lettersWorkspace (.ofPath "out") lettersFiles ∧
    ∃ r w', (writeFiles (.ofPath "out") lettersFiles).run lettersWorkspace = (.ok r, w') ∧
      r.filesWritten = [⟨"a", "z"⟩, ⟨"c/d", "z"⟩] ∧ r.skippedFiles = 1 ∧
      (∀ f ∈ lettersFiles, w'.tree.read ["work"] ((Location.ofPath "out").below f.path) =
        .ok f.bytes) ∧
      (writeFiles (.ofPath "out") lettersFiles).run w' = (.ok ⟨[], 3⟩, w') := by
  have h : AreReachable lettersWorkspace (.ofPath "out") lettersFiles :=
    ⟨by decide +kernel, by decide +kernel, by decide +kernel, by decide +kernel, by decide +kernel,
      by decide +kernel⟩
  obtain ⟨r, w', hrun, hwritten, hcount, hcontent, -, -, hagain⟩ := writeFiles_run h
  have hletters : r.filesWritten = [⟨"a", "z"⟩, ⟨"c/d", "z"⟩] := by
    rw [hwritten]
    decide +kernel
  refine ⟨h, r, w', hrun, hletters, ?_, hcontent, hagain⟩
  rw [hletters] at hcount
  simp only [List.length_cons, List.length_nil, lettersFiles] at hcount
  omega

/-- A target that cannot be read, for any cause but that it is missing, ends the run before anything
is written. -/
theorem writeFiles_run_of_unreadable (w : Workspace) (root : Location) (f : PlannedFile)
    (fs : List PlannedFile) {r : Refusal} (hstorable : (root.below f.path).isStorable = true)
    (hread : w.tree.read w.current (root.below f.path) = .error r) (hr : r ≠ .missing) :
    (writeFiles root (f :: fs)).run w = (.error (.fault (.write (root.below f.path).text
      ("cannot read existing file: " ++ r.text (root.below f.path)))), w) := by
  have hholds : (holds (root.below f.path) f.bytes).run w =
      (.error (.fault (.write (root.below f.path).text
        ("cannot read existing file: " ++ r.text (root.below f.path)))), w) := by
    unfold holds
    rw [run_bind_ok (read_run hstorable w), hread]
    cases r <;> first | exact absurd rfl hr | rfl
  exact run_bind_error (run_bind_error hholds)

/-- A name that is too long for a tree. -/
def longName : String := String.ofList (List.replicate 256 'n')

/-- Targets that cannot be reached or held, each alone in its list: below a file, with a detour
through a missing directory to a file that is there, with a detour through its own place, with a
character that no name has, and below a name that is too long. -/
theorem writeFiles_unreachable :
    (AreTargets lettersWorkspace (.ofPath "out") [⟨"a/e", "z"⟩] ∧
      ((writeFiles (.ofPath "out") [⟨"a/e", "z"⟩]).run lettersWorkspace).1 = .error (.fault (.write
        "out/a/e" "cannot read existing file: [Errno 20] Not a directory: 'out/a/e'"))) ∧
    (AreTargets lettersWorkspace (.ofPath "out") [⟨"c/../b", "y"⟩] ∧
      lettersWorkspace.tree.file? (PlannedFile.place ["work"] (.ofPath "out") ⟨"c/../b", "y"⟩) =
        some (PlannedFile.bytes ⟨"c/../b", "y"⟩) ∧
      ((writeFiles (.ofPath "out") [⟨"c/../b", "y"⟩]).run lettersWorkspace).1 =
        .ok ⟨[⟨"c/../b", "y"⟩], 0⟩) ∧
    (AreTargets lettersWorkspace (.ofPath "out") [⟨"c/../c", "z"⟩] ∧
      ((writeFiles (.ofPath "out") [⟨"c/../c", "z"⟩]).run lettersWorkspace).1 =
        .error (.fault (.write "out/c/../c" "[Errno 21] Is a directory: 'out/c/../c'"))) ∧
    (AreTargets lettersWorkspace (.ofPath "out") [⟨"\x00", "z"⟩] ∧
      ((writeFiles (.ofPath "out") [⟨"\x00", "z"⟩]).run lettersWorkspace).1 = .error .unexpected) ∧
    (AreTargets lettersWorkspace ⟨"", ["out", longName]⟩ [⟨"a", "z"⟩] ∧
      ((writeFiles ⟨"", ["out", longName]⟩ [⟨"a", "z"⟩]).run lettersWorkspace).1 =
        .error (.fault (.write (Location.text ⟨"", ["out", longName, "a"]⟩)
          ("cannot read existing file: " ++
            Refusal.text .nameTooLong ⟨"", ["out", longName, "a"]⟩)))) := by
  refine ⟨by decide +kernel, by decide +kernel, by decide +kernel, by decide +kernel,
    by decide +kernel, ?_⟩
  have hnone : ∀ n, '\x00' ∉ List.replicate n 'n' := fun n hmem =>
    absurd (List.eq_of_mem_replicate hmem) (by decide)
  have hletters : longName.toList = List.replicate 256 'n' := String.toList_ofList
  have hname : '\x00' ∉ longName.toList := hletters.symm ▸ hnone 256
  have hstorable : Location.isStorable ⟨"", ["out", longName, "a"]⟩ = true := by
    simp [Location.isStorable, hname]
  have hread : lettersWorkspace.tree.read ["work"] ⟨"", ["out", longName, "a"]⟩ =
      .error .nameTooLong := by decide +kernel
  have hbelow : Location.below ⟨"", ["out", longName]⟩ "a" = ⟨"", ["out", longName, "a"]⟩ := by
    decide +kernel
  rw [← hbelow] at hstorable hread ⊢
  exact congrArg Prod.fst (writeFiles_run_of_unreadable lettersWorkspace
    ⟨"", ["out", longName]⟩ ⟨"a", "z"⟩ [] hstorable hread (by simp))

end Job
end ApiScribe
