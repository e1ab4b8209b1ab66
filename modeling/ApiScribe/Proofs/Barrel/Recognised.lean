import ApiScribe.Barrel
import ApiScribe.Proofs.Text.Lines

/-! Which barrels are taken for barrels when they are read. A line of a barrel is an export line just
if its name is not empty and holds neither a quote nor a line end; a barrel is taken for a file that
was written by hand if a single one of its names is not of this kind. -/
namespace ApiScribe
namespace Text

/-- Lines are the same whatever the line ends are. -/
theorem linesFrom_unifyNewlines (line cs : List Char) :
    linesFrom line (unifyNewlines cs) = linesFrom line cs := by
  fun_induction linesFrom line cs with
  | case1 line hempty => simp [unifyNewlines, linesFrom, hempty]
  | case2 line hempty => simp [unifyNewlines, linesFrom, hempty]
  | case3 line cs ih => simp [unifyNewlines, linesFrom, ih, isLineEnd, inRanges, lineEndRanges]
  | case4 line c cs hnext hend ih =>
    rw [unifyNewlines]
    · by_cases hc : c = '\r'
      · simp [hc, linesFrom, ih, isLineEnd, inRanges, lineEndRanges]
      · simp only [hc, if_false]
        rw [linesFrom, if_pos hend, ih]
        rintro _ rfl
        exact absurd rfl hc
    · exact hnext
  | case5 line c cs hnext hend ih =>
    have hc : c ≠ '\r' := by
      rintro rfl
      exact hend (by decide)
    rw [unifyNewlines, if_neg hc, linesFrom, if_neg hend, ih]
    · rintro _ rfl
      exact absurd rfl hc
    · exact hnext

theorem lines_unifyNewlines (cs : List Char) : lines (unifyNewlines cs) = lines cs :=
  linesFrom_unifyNewlines [] cs

/-- What stands behind a line end has its lines at the end, unless the line end goes on. The induction
is on the way to the line end. -/
theorem lines_isSuffix {line cs front rest : List Char} {c : Char} (hc : isLineEnd c = true)
    (hrest : '\n' ∉ rest.head?) (hcs : cs = front ++ c :: rest) :
    lines rest <:+ linesFrom line cs := by
  fun_induction linesFrom line cs generalizing front with
  | case1 => simp at hcs
  | case2 => simp at hcs
  | case3 line cs ih =>
    rcases front with _ | ⟨d, _ | ⟨e, front⟩⟩
    · obtain ⟨rfl, rfl⟩ := List.cons.inj hcs
      simp at hrest
    · obtain ⟨-, hcs⟩ := List.cons.inj hcs
      obtain ⟨-, rfl⟩ := List.cons.inj hcs
      exact List.suffix_cons _ _
    · obtain ⟨-, hcs⟩ := List.cons.inj hcs
      obtain ⟨-, hcs⟩ := List.cons.inj hcs
      exact (ih hcs).trans (List.suffix_cons _ _)
  | case4 line d cs hnext hend ih =>
    rcases front with _ | ⟨e, front⟩
    · obtain ⟨-, rfl⟩ := List.cons.inj hcs
      exact List.suffix_cons _ _
    · obtain ⟨-, hcs⟩ := List.cons.inj hcs
      exact (ih hcs).trans (List.suffix_cons _ _)
  | case5 line d cs hnext hend ih =>
    rcases front with _ | ⟨e, front⟩
    · obtain ⟨rfl, -⟩ := List.cons.inj hcs
      exact absurd hc hend
    · exact ih (List.cons.inj hcs).2

/-- A text without line ends between two of them is a line. -/
theorem mem_lines_of_between {front line : List Char} (rest : List Char)
    (hfront : ∀ c ∈ front.getLast?, isLineEnd c = true) (hline : ∀ c ∈ line, isLineEnd c = false)
    (hne : line ≠ []) : line ∈ lines (front ++ (line ++ '\n' :: rest)) := by
  have hfirst : line ∈ lines (line ++ '\n' :: rest) := by
    rw [lines_append_newline (newline_ne_of_not_isLineEnd hline), lines_of_no_end hline]
    exact List.mem_append_left _ (List.mem_singleton_self line)
  rcases List.eq_nil_or_concat front with rfl | ⟨before, c, rfl⟩
  · exact hfirst
  · obtain ⟨d, line, rfl⟩ := List.exists_cons_of_ne_nil hne
    have hnext : '\n' ∉ ((d :: line) ++ '\n' :: rest).head? := by
      intro hmem
      obtain rfl : d = '\n' := by simpa using hmem
      exact absurd (hline '\n' List.mem_cons_self) (by decide)
    rw [List.concat_eq_append] at hfront ⊢
    rw [List.append_assoc, List.singleton_append]
    exact (lines_isSuffix (hfront c (by simp)) hnext rfl).subset hfirst

end Text

namespace Barrel
open Text

/-- A name that is told apart in its export: it is not empty, and holds no quote and no line end. -/
def IsRecognisable (name : String) : Prop :=
  name ≠ "" ∧ ∀ c ∈ name.toList, c ≠ '"' ∧ isLineEnd c = false

instance (name : String) : Decidable (IsRecognisable name) :=
  decidable_of_iff (name ≠ "" ∧ name.toList.all (fun c => c != '"' && !isLineEnd c) = true)
    (and_congr_right fun _ => by simp)

/-- What stands before the name in an export. -/
def exportHead : List Char := "export * from \"./".toList

theorem head?_exportHead : exportHead.head? = some 'e' := rfl

/-- The characters of the line that exports a name again. -/
def exportChars (name : List Char) : List Char := exportHead ++ (name ++ ['"', ';'])

theorem isExportLine_iff {line : List Char} :
    isExportLine line = true ↔ ∃ name, line = exportChars name ∧ name ≠ [] ∧ '"' ∉ name := by
  unfold isExportLine exportChars exportHead
  constructor
  · intro h
    split at h
    · next rest hrest =>
      simp only [Bool.and_eq_true, Bool.not_eq_true', List.isEmpty_eq_false_iff, beq_iff_eq] at h
      refine ⟨rest.takeWhile (· ≠ '"'), ?_, h.1, fun hmem => ?_⟩
      · rw [after?_eq_some_iff.1 hrest, ← h.2, List.takeWhile_append_dropWhile]
      · simpa using List.mem_takeWhile_imp hmem
    · cases h
  · rintro ⟨name, rfl, hne, hquote⟩
    have hdrop : (name ++ ['"', ';']).dropWhile (· ≠ '"') = ['"', ';'] := by
      rw [List.dropWhile_append_of_pos]
      · rfl
      · intro c hc
        simpa using ne_of_mem_of_not_mem hc hquote
    rw [after?_eq_some_iff.2 rfl]
    simp only [takeWhile_ne_append_cons hquote, hdrop, beq_self_eq_true, Bool.and_true,
      Bool.not_eq_true', List.isEmpty_eq_false_iff]
    exact hne

/-- A text is written by hand if one of its lines is neither blank nor an export. -/
theorem isHandWritten_eq_true {content : String} : isHandWritten content = true ↔
    ∃ line ∈ lines content.toList, trim line ≠ [] ∧ isExportLine (trim line) = false := by
  simp [isHandWritten]

/-- The text of a barrel as it is read from a file. -/
def readBack (names : List String) : String := String.ofList (unifyNewlines (text names).toList)

theorem toList_exportLine (name : String) :
    (exportLine name).toList = exportChars name.toList ++ ['\n'] := by
  have hline : ("export * from \"./" ++ name ++ "\";\n").toList =
      "export * from \"./".toList ++ (name.toList ++ ['"', ';', '\n']) := by simp
  rw [exportChars, List.append_assoc, List.append_assoc]
  exact hline

theorem toList_join_exportLine (names : List String) :
    (String.join (names.map exportLine)).toList =
      (names.map fun name => exportChars name.toList).flatMap (· ++ ['\n']) := by
  induction names with
  | nil => rfl
  | cons name names ih =>
    rw [List.map_cons, String.join_cons, String.toList_append, ih, toList_exportLine]
    rfl

theorem lines_readBack (names : List String) : lines (readBack names).toList =
    lines (((names.eraseDups.mergeSort fun a b => decide (a ≤ b)).map
      fun name => exportChars name.toList).flatMap (· ++ ['\n'])) := by
  rw [readBack, String.toList_ofList, lines_unifyNewlines, text, toList_join_exportLine]

theorem isTrimmed_exportChars (name : List Char) : IsTrimmed (exportChars name) where
  head c hc := by
    rw [exportChars, List.head?_append, head?_exportHead] at hc
    obtain rfl : 'e' = c := Option.some.inj hc
    decide
  last c hc := by
    have hlast : (exportChars name).getLast? = some ';' := by
      rw [exportChars, List.getLast?_append, List.getLast?_append]
      rfl
    rw [hlast] at hc
    obtain rfl : ';' = c := Option.some.inj hc
    decide

theorem not_isLineEnd_of_all {cs : List Char} (h : cs.all (!isLineEnd ·) = true) :
    ∀ c ∈ cs, isLineEnd c = false := by simpa using h

theorem not_isLineEnd_exportChars {name : List Char} (h : ∀ c ∈ name, isLineEnd c = false) :
    ∀ c ∈ exportChars name, isLineEnd c = false := by
  have hstart : ∀ c ∈ exportHead, isLineEnd c = false := not_isLineEnd_of_all (by decide)
  have hend : ∀ c ∈ ['"', ';'], isLineEnd c = false := not_isLineEnd_of_all (by decide)
  exact List.forall_mem_append.2 ⟨hstart, List.forall_mem_append.2 ⟨h, hend⟩⟩

theorem exportChars_ne_nil (name : List Char) : exportChars name ≠ [] :=
  List.append_ne_nil_of_right_ne_nil _ (by simp)

theorem exportChars_injective {name name' : List Char} (h : exportChars name = exportChars name') :
    name = name' :=
  List.append_cancel_right (List.append_cancel_left h)

/-- The export of a name without line ends is an export line just if the name is recognisable. -/
theorem isExportLine_exportChars_iff {name : String}
    (h : ∀ c ∈ name.toList, isLineEnd c = false) :
    isExportLine (exportChars name.toList) = true ↔ IsRecognisable name := by
  rw [isExportLine_iff]
  constructor
  · rintro ⟨cs, heq, hne, hquote⟩
    obtain rfl := exportChars_injective heq
    exact ⟨by simpa using hne, fun c hc => ⟨ne_of_mem_of_not_mem hc hquote, h c hc⟩⟩
  · intro hname
    exact ⟨_, rfl, by simpa using hname.1, fun hmem => (hname.2 _ hmem).1 rfl⟩

/-- What stands behind the last line end of a name has no slash, so it is not an export line. -/
theorem isExportLine_trim_of_no_slash {line : List Char} (h : '/' ∉ line) :
    isExportLine (trim line) = false := by
  by_contra hexport
  obtain ⟨name, hname, -, -⟩ := isExportLine_iff.1 (Bool.of_not_eq_false hexport)
  have hslash : '/' ∈ trim line := by
    rw [hname]
    exact List.mem_append_left _ (by decide)
  exact h ((trim_isInfix line).subset hslash)

/-- A text with line ends has a last one. -/
theorem exists_last_isLineEnd {cs : List Char} (h : ¬ ∀ c ∈ cs, isLineEnd c = false) :
    ∃ front c last, cs = front ++ c :: last ∧ isLineEnd c = true ∧
      ∀ d ∈ last, isLineEnd d = false := by
  induction cs with
  | nil => simp at h
  | cons c cs ih =>
    by_cases hrest : ∀ d ∈ cs, isLineEnd d = false
    · refine ⟨[], c, cs, rfl, Bool.of_not_eq_false fun hc => h ?_, hrest⟩
      exact List.forall_mem_cons.2 ⟨hc, hrest⟩
    · obtain ⟨front, d, last, rfl, hd, hlast⟩ := ih hrest
      exact ⟨c :: front, d, last, rfl, hd, hlast⟩

/-- A name that is not recognisable leaves a line that is not an export line among those of its
barrel. -/
theorem exists_line_of_not_isRecognisable {before after : List (List Char)} {name : String}
    (hname : ¬ IsRecognisable name) (hslash : '/' ∉ name.toList) :
    ∃ line ∈ lines ((before ++ exportChars name.toList :: after).flatMap (· ++ ['\n'])),
      trim line ≠ [] ∧ isExportLine (trim line) = false := by
  have hcut : (before ++ exportChars name.toList :: after).flatMap (· ++ ['\n']) =
      before.flatMap (· ++ ['\n']) ++
        (exportChars name.toList ++ '\n' :: after.flatMap (· ++ ['\n'])) := by
    simp
  have hbefore : ∀ c ∈ (before.flatMap (· ++ ['\n'])).getLast?, isLineEnd c = true := by
    rcases List.eq_nil_or_concat before with rfl | ⟨front, l, rfl⟩
    · simp
    · intro c hc
      rw [List.concat_eq_append, List.flatMap_append, List.flatMap_singleton, ← List.append_assoc,
        List.getLast?_concat] at hc
      obtain rfl : '\n' = c := Option.some.inj hc
      decide
  by_cases hends : ∀ c ∈ name.toList, isLineEnd c = false
  · -- The export is a line of its own, with an empty name or with a quote in its name.
    refine ⟨exportChars name.toList, ?_, ?_, ?_⟩
    · rw [hcut]
      exact mem_lines_of_between _ hbefore (not_isLineEnd_exportChars hends) (exportChars_ne_nil _)
    · rw [trim_eq_self (isTrimmed_exportChars _)]
      exact exportChars_ne_nil _
    · rw [trim_eq_self (isTrimmed_exportChars _)]
      exact Bool.eq_false_iff.2 fun h => hname ((isExportLine_exportChars_iff hends).1 h)
  · -- The export is broken inside its name.
    obtain ⟨front, c, last, hsplit, hc, hlast⟩ := exists_last_isLineEnd hends
    have hwhole : before.flatMap (· ++ ['\n']) ++
        (exportChars name.toList ++ '\n' :: after.flatMap (· ++ ['\n'])) =
        (before.flatMap (· ++ ['\n']) ++ (exportHead ++ (front ++ [c]))) ++
          ((last ++ ['"', ';']) ++ '\n' :: after.flatMap (· ++ ['\n'])) := by
      simp only [exportChars, hsplit, List.append_assoc, List.cons_append, List.nil_append]
    have hline : ∀ d ∈ last ++ ['"', ';'], isLineEnd d = false :=
      List.forall_mem_append.2 ⟨hlast, not_isLineEnd_of_all (by decide)⟩
    refine ⟨last ++ ['"', ';'], ?_, ?_, isExportLine_trim_of_no_slash ?_⟩
    · rw [hcut, hwhole]
      refine mem_lines_of_between _ (fun d hd => ?_) hline (by simp)
      rw [← List.append_assoc, ← List.append_assoc, List.getLast?_concat] at hd
      rwa [← Option.some.inj hd]
    · rw [Ne, trim_eq_nil_iff, isAllBlank, List.all_eq_true]
      exact fun hblank => absurd (hblank ';' (by simp)) (by decide)
    · rw [hsplit, List.mem_append, List.mem_cons, not_or, not_or] at hslash
      rw [List.mem_append, not_or]
      exact ⟨hslash.2.2, by decide⟩

/-- A barrel that is read from its file is taken for one that was written by hand just if one of its
names is not recognisable. -/
theorem isHandWritten_readBack_iff {names : List String} (hslash : ∀ n ∈ names, '/' ∉ n.toList) :
    isHandWritten (readBack names) = true ↔ ∃ n ∈ names, ¬ IsRecognisable n := by
  have hmem : ∀ n, n ∈ names.eraseDups.mergeSort (fun a b => decide (a ≤ b)) ↔ n ∈ names := by
    simp [List.mem_mergeSort, List.mem_eraseDups]
  rw [isHandWritten_eq_true, lines_readBack]
  constructor
  · rintro ⟨line, hline, -, hexport⟩
    by_contra hall
    have hgood : ∀ n ∈ names, IsRecognisable n := fun n hn =>
      of_not_not fun hbad => hall ⟨n, hn, hbad⟩
    have hends : ∀ l ∈ (names.eraseDups.mergeSort fun a b => decide (a ≤ b)).map
        (fun name => exportChars name.toList), ∀ c ∈ l, isLineEnd c = false := by
      intro l hl
      obtain ⟨n, hn, rfl⟩ := List.mem_map.1 hl
      exact not_isLineEnd_exportChars fun c hc => ((hgood n ((hmem n).1 hn)).2 c hc).2
    rw [lines_flatMap hends] at hline
    obtain ⟨n, hn, rfl⟩ := List.mem_map.1 hline
    have hname := hgood n ((hmem n).1 hn)
    rw [trim_eq_self (isTrimmed_exportChars _),
      (isExportLine_exportChars_iff fun c hc => (hname.2 c hc).2).2 hname] at hexport
    cases hexport
  · rintro ⟨n, hn, hbad⟩
    obtain ⟨before, after, hsplit⟩ := List.append_of_mem ((hmem n).2 hn)
    rw [hsplit, List.map_append, List.map_cons]
    exact exists_line_of_not_isRecognisable hbad (hslash n hn)

end Barrel
end ApiScribe
