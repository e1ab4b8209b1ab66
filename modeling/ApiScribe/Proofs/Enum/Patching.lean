import ApiScribe.Enum.Patch
import ApiScribe.Proofs.Model.Extraction
import ApiScribe.Proofs.Naming.Words
import ApiScribe.Proofs.Text.Lines
import ApiScribe.Proofs.Value.Sorting

/-! Patched enums. Patches change names and comments of enum members and nothing else of the models
of a document, and after any calls the members of every enum can still be declared together. -/
namespace ApiScribe

namespace Naming

/-- Runs of letters and digits hold nothing else. -/
theorem isWordText_of_mem_runsFrom {word w cs : List Char} (hword : IsWordText word)
    (h : w ∈ runsFrom word cs) : IsWordText w := by
  induction cs generalizing word with
  | nil =>
    unfold runsFrom at h
    split at h
    · cases h
    · rw [List.mem_singleton.1 h]
      exact fun c hc => hword c (List.mem_reverse.1 hc)
  | cons c cs ih =>
    unfold runsFrom at h
    split at h
    · next hc => exact ih (List.forall_mem_cons.2 ⟨hc, hword⟩) h
    · split at h
      · exact ih (by simp [IsWordText]) h
      · rcases List.mem_cons.1 h with rfl | h
        · exact fun c hc => hword c (List.mem_reverse.1 hc)
        · exact ih (by simp [IsWordText]) h

end Naming

namespace TypeText

open Naming

theorem isNameChar_of_isWordChar {c : Char} (h : Naming.isWordChar c = true) :
    isNameChar c = true := by
  rw [Naming.isWordChar_eq_isAlphanum] at h
  rw [isNameChar, h, Bool.true_or]

/-- Letters and digits that start with no digit are a name. -/
theorem isName_of_isWordText {c : Char} {cs : List Char} (h : IsWordText (c :: cs))
    (hdigit : c.isDigit = false) : isName (c :: cs) = true := by
  obtain ⟨hc, hcs⟩ := List.forall_mem_cons.1 h
  have hstart := isNameChar_of_isWordChar hc
  simp only [isNameChar, Char.isAlphanum, hdigit, Bool.or_false] at hstart
  rw [isName, Bool.and_eq_true, List.all_eq_true]
  exact ⟨hstart, fun d hd => isNameChar_of_isWordChar (hcs d hd)⟩

/-- Free text becomes a name unless nothing of it is left. -/
theorem isName_identifierChars {cs : List Char} (h : identifierChars cs ≠ []) :
    isName (identifierChars cs) = true := by
  have hword : IsWordText ((runs cs).flatMap capitalize) :=
    isWordText_flatMap_capitalize fun w hw => isWordText_of_mem_runsFrom (by simp [IsWordText]) hw
  unfold identifierChars at h ⊢
  generalize (runs cs).flatMap capitalize = joined at h hword
  cases joined with
  | nil => exact absurd rfl h
  | cons c cs =>
    dsimp only
    split
    · have hvalue : IsWordText ('V' :: ("alue".toList ++ (c :: cs))) :=
        @IsWordText.append "Value".toList (c :: cs) (by decide) hword
      exact isName_of_isWordText hvalue (by decide)
    · next hdigit => exact isName_of_isWordText hword (by simpa using hdigit)

/-- A trimmed text has no line feed at its end. -/
theorem chomp_trim (cs : List Char) : chomp (Text.trim cs) = Text.trim cs := by
  unfold chomp
  split
  · next hlast =>
    have hblank := List.head?_dropWhile_not Text.isBlank (Text.trimStart cs).reverse
    rw [Text.trim, Text.trimEnd, List.getLast?_reverse] at hlast
    rw [hlast] at hblank
    exact absurd hblank (by decide)
  · rfl

end TypeText

namespace EnumPatch

open TypeText

/-- What is made of a suggested name is a name or nothing. -/
theorem isName_identifier {suggested : Option String} (h : identifier suggested ≠ "") :
    isName (identifier suggested).toList = true := by
  simp only [identifier] at h ⊢
  generalize htext : Text.trimmed (suggested.getD "") = text at h ⊢
  split
  · next hcase =>
    rw [if_pos hcase] at h
    have hname := (Bool.or_eq_true_iff.1 hcase).resolve_left (by simpa using h)
    rw [← htext] at hname ⊢
    simpa only [isIdentifier, Text.trimmed, String.toList_ofList, chomp_trim] using hname
  · next hcase =>
    rw [if_neg hcase, Naming.identifierOf] at h
    rw [Naming.identifierOf, String.toList_ofList]
    exact isName_identifierChars fun hnil => h (by rw [hnil])

theorem mergeInto_of_some {policy : ConflictPolicy} {entries : List PatchMember} {e : EnumMember}
    {p : PatchMember} (h : entry? entries e.value.value = some p) :
    mergeInto policy entries e = merge policy p e := by
  rw [mergeInto, h]

@[simp] theorem value_mergeInto (policy : ConflictPolicy) (entries : List PatchMember)
    (m : EnumMember) : (mergeInto policy entries m).value = m.value := by
  unfold mergeInto merge
  split
  · dsimp only
    split
    · rfl
    · split <;> rfl
  · rfl

theorem isName_mergeInto (policy : ConflictPolicy) (entries : List PatchMember) {m : EnumMember}
    (h : isName m.name.toList = true) :
    isName (mergeInto policy entries m).name.toList = true := by
  unfold mergeInto
  split
  · next p _ =>
    cases policy with
    | patchFirst =>
      dsimp only [merge]
      split
      · exact h
      · next hname => exact isName_identifier hname
    | schemaFirst =>
      dsimp only [merge]
      split <;> exact h
  · exact h

theorem map_value_withUniqueNames (ms : List EnumMember) :
    (withUniqueNames ms).map EnumMember.value = ms.map EnumMember.value := by
  have hzip : ∀ (ms : List EnumMember) (names : List String), names.length = ms.length →
      (ms.zipWith (fun m name => { m with name }) names).map EnumMember.value =
        ms.map EnumMember.value := by
    intro ms
    induction ms with
    | nil => simp
    | cons m ms ih =>
      intro names hlength
      obtain ⟨name, names, rfl⟩ := List.exists_cons_of_length_eq_add_one hlength
      simp [ih names (by simpa using hlength)]
  exact hzip ms _ (by simp)

theorem map_name_withUniqueNames (ms : List EnumMember) :
    (withUniqueNames ms).map EnumMember.name =
      (Naming.uniqueNames [] (ms.map EnumMember.name)).1 := by
  have hzip : ∀ (names : List String) (ms : List EnumMember), names.length = ms.length →
      (ms.zipWith (fun m name => { m with name }) names).map EnumMember.name = names := by
    intro names
    induction names with
    | nil => simp
    | cons name names ih =>
      intro ms hlength
      obtain ⟨m, ms, rfl⟩ := List.exists_cons_of_length_eq_add_one hlength.symm
      simp [ih ms (by simpa using hlength)]
  exact hzip _ ms (by simp)

/-- Members with different names keep them. -/
theorem withUniqueNames_of_nodup {ms : List EnumMember} (h : (ms.map EnumMember.name).Nodup) :
    withUniqueNames ms = ms := by
  rw [withUniqueNames, Naming.uniqueNames_of_nodup h (by simp), List.zipWith_map_right,
    List.zipWith_self]
  simp

theorem map_value_applyToMembers (policy : ConflictPolicy) (entries : List PatchMember)
    (ms : List EnumMember) :
    (applyToMembers policy entries ms).map EnumMember.value = ms.map EnumMember.value := by
  rw [applyToMembers, map_value_withUniqueNames, List.map_map]
  exact List.map_congr_left fun m _ => value_mergeInto policy entries m

/-- Whatever names are suggested, the members of a patched enum can be declared together. -/
theorem areWellNamed_applyToMembers (policy : ConflictPolicy) (entries : List PatchMember)
    {ms : List EnumMember} (h : EnumMember.AreWellNamed ms) :
    EnumMember.AreWellNamed (applyToMembers policy entries ms) where
  distinct := by
    rw [applyToMembers, map_name_withUniqueNames]
    exact (Naming.uniqueNames_nodup [] _).1
  identifiers := by
    intro m hm
    have hname := List.mem_map_of_mem (f := EnumMember.name) hm
    rw [applyToMembers, map_name_withUniqueNames] at hname
    refine Naming.forall_mem_uniqueNames (p := fun s => isName s.toList = true)
      (fun s n hs => isName_append_number hs n) ?_ [] m.name hname
    intro s hs
    obtain ⟨d, hd, rfl⟩ := List.mem_map.1 hs
    obtain ⟨e, he, rfl⟩ := List.mem_map.1 hd
    exact isName_mergeInto policy entries (h.identifiers e he)

end EnumPatch

/-- What patches leave of a model: all of it, if it is no enum, and of an enum its name, its
description and the values of its members in their order. -/
inductive Model.Keeps : Model → Model → Prop
  | other {m : Model} (h : m.isEnum = false) : Keeps m m
  | enum {name : String} {description : Option String} {ms ms' : List EnumMember}
      (h : ms'.map EnumMember.value = ms.map EnumMember.value) :
      Keeps ⟨name, description, .enum ms⟩ ⟨name, description, .enum ms'⟩

/-- What patches leave of models, one by one. -/
def ModelSet.Keeps (s t : ModelSet) : Prop := List.Forall₂ Model.Keeps s.models t.models

theorem Model.Keeps.refl (m : Model) : m.Keeps m := by
  obtain ⟨name, description, kind⟩ := m
  cases kind with
  | enum ms => exact .enum rfl
  | interface ps => exact .other rfl
  | aliased t nullable => exact .other rfl

theorem Model.Keeps.trans {l m n : Model} (h : l.Keeps m) (h' : m.Keeps n) : l.Keeps n := by
  cases h with
  | other => exact h'
  | enum hvalues =>
    cases h' with
    | other => exact .enum hvalues
    | enum hvalues' => exact .enum (hvalues'.trans hvalues)

theorem ModelSet.Keeps.refl (s : ModelSet) : s.Keeps s :=
  List.forall₂_same.2 fun m _ => Model.Keeps.refl m

theorem ModelSet.Keeps.trans {s t u : ModelSet} (h : s.Keeps t) (h' : t.Keeps u) :
    s.Keeps u := by
  have hall : ∀ {ls ms ns : List Model}, List.Forall₂ Model.Keeps ls ms →
      List.Forall₂ Model.Keeps ms ns → List.Forall₂ Model.Keeps ls ns := by
    intro ls ms ns h
    induction h generalizing ns with
    | nil => exact id
    | cons hm _ ih =>
      intro h'
      cases h' with
      | cons hm' hms' => exact .cons (hm.trans hm') (ih hms')
  exact hall h h'

theorem Model.Keeps.name_eq {m n : Model} (h : m.Keeps n) : n.name = m.name := by
  cases h <;> rfl

theorem Model.Keeps.isEnum_eq {m n : Model} (h : m.Keeps n) : n.isEnum = m.isEnum := by
  cases h <;> rfl

theorem ModelSet.Keeps.map_name {s t : ModelSet} (h : s.Keeps t) :
    t.models.map Model.name = s.models.map Model.name := by
  obtain ⟨ms⟩ := s
  obtain ⟨ns⟩ := t
  simp only [ModelSet.Keeps] at h ⊢
  induction h with
  | nil => rfl
  | cons hm _ ih => rw [List.map_cons, List.map_cons, hm.name_eq, ih]

/-- Models are found by the names that they had. -/
theorem ModelSet.Keeps.get? {s t : ModelSet} (h : s.Keeps t) (name : String) :
    Option.Rel Model.Keeps (s.get? name) (t.get? name) := by
  obtain ⟨ms⟩ := s
  obtain ⟨ns⟩ := t
  simp only [ModelSet.Keeps, ModelSet.get?] at h ⊢
  induction h with
  | nil => exact .none
  | cons hm _ ih =>
    rw [List.find?_cons, List.find?_cons, hm.name_eq]
    split
    · exact .some hm
    · exact ih

namespace EnumPatch

/-- A model after a patch that is meant for it. -/
def patched (policy : ConflictPolicy) (p : EnumPatch) (m : Model) : Model :=
  match m.kind with
  | .enum ms => { m with kind := .enum (applyToMembers policy p.members ms) }
  | _ => m

theorem keeps_patched (policy : ConflictPolicy) (p : EnumPatch) (m : Model) :
    m.Keeps (patched policy p m) := by
  obtain ⟨name, description, kind⟩ := m
  cases kind with
  | enum ms => exact .enum (map_value_applyToMembers policy p.members ms)
  | interface ps => exact .other rfl
  | aliased t nullable => exact .other rfl

theorem areWellNamed_patched {policy : ConflictPolicy} {p : EnumPatch} {m : Model}
    (h : ∀ ms, m.kind = .enum ms → EnumMember.AreWellNamed ms) :
    ∀ ms, (patched policy p m).kind = .enum ms → EnumMember.AreWellNamed ms := by
  intro ms hms
  unfold patched at hms
  split at hms
  · next ms' hkind =>
    cases hms
    exact areWellNamed_applyToMembers policy p.members (h ms' hkind)
  · exact h ms hms

/-- Changing the first model of a name changes that one by what it is changed with. -/
theorem forall₂_changeFirst {R : Model → Model → Prop} (hrefl : ∀ m, R m m) {f : Model → Model}
    (h : ∀ m, R m (f m)) (name : String) (ms : List Model) :
    List.Forall₂ R ms (changeFirst name f ms) := by
  induction ms with
  | nil => exact .nil
  | cons m ms ih =>
    unfold changeFirst
    split
    · exact .cons (h m) (List.forall₂_same.2 fun d _ => hrefl d)
    · exact .cons (hrefl m) ih

/-- The first model of a name is the one that is changed. -/
theorem get?_changeFirst {name : String} {f : Model → Model} {s : ModelSet} {m : Model}
    (h : s.get? name = some m) (hf : ∀ m : Model, (f m).name = m.name) :
    (⟨changeFirst name f s.models⟩ : ModelSet).get? name = some (f m) := by
  obtain ⟨models⟩ := s
  simp only [ModelSet.get?] at h ⊢
  induction models with
  | nil => cases h
  | cons d ms ih =>
    by_cases hd : d.name = name
    · simp only [List.find?_cons, hd, decide_true, Option.some.injEq] at h
      rw [h] at hd
      simp [changeFirst, hd, hf, h]
    · simp only [List.find?_cons, hd, decide_false] at h
      simp [changeFirst, hd, ih h]

theorem mem_changeFirst {name : String} {f : Model → Model} {ms : List Model} {m : Model}
    (h : m ∈ changeFirst name f ms) : m ∈ ms ∨ ∃ d ∈ ms, m = f d := by
  induction ms with
  | nil => cases h
  | cons d ms ih =>
    unfold changeFirst at h
    split at h
    · rcases List.mem_cons.1 h with rfl | h
      · exact .inr ⟨d, List.mem_cons_self, rfl⟩
      · exact .inl (List.mem_cons_of_mem d h)
    · rcases List.mem_cons.1 h with rfl | h
      · exact .inl List.mem_cons_self
      · rcases ih h with h | ⟨e, he, rfl⟩
        · exact .inl (List.mem_cons_of_mem d h)
        · exact .inr ⟨e, List.mem_cons_of_mem d he, rfl⟩

/-- Models stay as they are if the change does nothing to the first model of the name. -/
theorem changeFirst_eq_self {name : String} {f : Model → Model} {s : ModelSet}
    (h : ∀ m, s.get? name = some m → f m = m) : changeFirst name f s.models = s.models := by
  obtain ⟨models⟩ := s
  simp only [ModelSet.get?] at h
  induction models with
  | nil => rfl
  | cons d ms ih =>
    by_cases hd : d.name = name
    · rw [changeFirst, if_pos hd, h d (by simp [hd])]
    · rw [changeFirst, if_neg hd, ih fun m hm => h m (by simpa [List.find?_cons, hd] using hm)]

/-- The models after a patch: the first model of its name is patched. -/
def after (policy : ConflictPolicy) (s : ModelSet) (p : EnumPatch) : ModelSet :=
  ⟨changeFirst p.enumName (patched policy p) s.models⟩

/-- What is said about a patch when its name is that of no enum. -/
def skipped (s : ModelSet) (p : EnumPatch) : List String :=
  match s.get? p.enumName with
  | none => ["Enum patch for '" ++ p.enumName ++ "' skipped: no such schema"]
  | some m =>
    if m.isEnum then []
    else ["Enum patch for '" ++ p.enumName ++ "' skipped: schema is not an enum"]

theorem apply_eq (policy : ConflictPolicy) (p : EnumPatch) (s : ModelSet) :
    p.apply policy s = (after policy s p, skipped s p) := by
  -- what is patched is changed only if it is an enum, so a skipped patch changes no model
  have hself : (∀ m, s.get? p.enumName = some m → patched policy p m = m) →
      after policy s p = s := fun h => congrArg ModelSet.mk (changeFirst_eq_self h)
  unfold apply skipped
  cases hget : s.get? p.enumName with
  | none => rw [hself fun m hm => by simp [hget] at hm]
  | some m =>
    cases hkind : m.kind with
    | enum ms =>
      simp only [Model.isEnum, hkind]
      rfl
    | _ =>
      have hsame : patched policy p m = m := by rw [patched, hkind]
      rw [hself fun d hd => by rwa [← Option.some.inj (hget.symm.trans hd)]]
      simp [Model.isEnum, hkind]

theorem keeps_after (policy : ConflictPolicy) (p : EnumPatch) (s : ModelSet) :
    s.Keeps (after policy s p) :=
  forall₂_changeFirst Model.Keeps.refl (keeps_patched policy p) p.enumName s.models

theorem isWellNamed_after (policy : ConflictPolicy) (p : EnumPatch) {s : ModelSet}
    (h : s.IsWellNamed) : (after policy s p).IsWellNamed := by
  intro m hm
  rcases mem_changeFirst hm with hm | ⟨d, hd, rfl⟩
  · exact h m hm
  · exact areWellNamed_patched (h d hd)

/-- What is said about a patch stays the same as long as names and kinds of models do. -/
theorem skipped_of_keeps {s t : ModelSet} (h : s.Keeps t) (p : EnumPatch) :
    skipped t p = skipped s p := by
  have hfound := h.get? p.enumName
  unfold skipped
  generalize s.get? p.enumName = m, t.get? p.enumName = n at hfound ⊢
  cases hfound with
  | none => rfl
  | some hm => simp only [hm.isEnum_eq]

/-- One call is its patches one after the other, and what is said about them does not depend on
each other. -/
theorem applyAll_eq (policy : ConflictPolicy) (ps : List EnumPatch) (s : ModelSet) :
    applyAll policy ps s = (ps.foldl (after policy) s, ps.flatMap (skipped s)) := by
  induction ps generalizing s with
  | nil => rfl
  | cons p ps ih =>
    have hlater : ps.flatMap (skipped (after policy s p)) = ps.flatMap (skipped s) :=
      congrArg (List.flatMap · ps) (funext (skipped_of_keeps (keeps_after policy p s)))
    simp only [applyAll, apply_eq, ih, hlater, List.foldl_cons, List.flatMap_cons]

/-- One call leaves what each of its patches leaves. -/
theorem applyAll_keeps (policy : ConflictPolicy) (ps : List EnumPatch) {s : ModelSet}
    (h : s.IsWellNamed) :
    s.Keeps (applyAll policy ps s).1 ∧ (applyAll policy ps s).1.IsWellNamed := by
  induction ps generalizing s with
  | nil => exact ⟨.refl s, h⟩
  | cons p ps ih =>
    obtain ⟨hkeeps, hnamed⟩ := ih (isWellNamed_after policy p h)
    simp only [applyAll, apply_eq]
    exact ⟨(keeps_after policy p s).trans hkeeps, hnamed⟩

/-- A call: patches, and what wins where both they and the schema say something. -/
structure Call where
  policy : ConflictPolicy
  patches : List EnumPatch

/-- The models after calls one after the other. -/
def afterCalls (s : ModelSet) (calls : List Call) : ModelSet :=
  calls.foldl (fun s c => (applyAll c.policy c.patches s).1) s

theorem afterCalls_keeps {s : ModelSet} (h : s.IsWellNamed) (calls : List Call) :
    s.Keeps (afterCalls s calls) ∧ (afterCalls s calls).IsWellNamed := by
  induction calls generalizing s with
  | nil => exact ⟨.refl s, h⟩
  | cons c calls ih =>
    obtain ⟨hcall, hnamed⟩ := applyAll_keeps c.policy c.patches h
    obtain ⟨hrest, hnamed⟩ := ih hnamed
    exact ⟨hcall.trans hrest, hnamed⟩

/-- After any calls on the models of a document, whatever their patches suggest, the models are what
they were but for names and comments of enum members, and in each enum the names are identifiers of
which no two are the same. -/
theorem keeps_and_isWellNamed_afterCalls {document : Value} {s : ModelSet}
    (h : ModelSet.ofDocument document = .ok s) (calls : List Call) :
    s.Keeps (afterCalls s calls) ∧ (afterCalls s calls).IsWellNamed :=
  afterCalls_keeps (ModelSet.isWellNamed_ofDocument h) calls

/-- An enum and a schema that is none. -/
def letterSchemas : List (Scalar × Value) :=
  [(.str "Letter", .record [("type", .str "string"), ("enum", .ofStrings ["a", "b", "c"])]),
    (.str "Pet", .record [("type", .str "object")])]

def letterDocument : Value := .record [("components", .record [("schemas", .map letterSchemas)])]

/-- The models of the document. -/
def letterModels : ModelSet :=
  ⟨[⟨"Letter", none, .enum [⟨"Value1", ⟨.string, "a"⟩, none⟩, ⟨"Value2", ⟨.string, "b"⟩, none⟩,
      ⟨"Value3", ⟨.string, "c"⟩, none⟩]⟩,
    ⟨"Pet", none, .interface []⟩]⟩

/-- The members of a model, if it is an enum. -/
def membersOf (m : Model) : List EnumMember :=
  match m.kind with
  | .enum ms => ms
  | _ => []

/-- Calls that suggest names in use, names with a number behind that are in use only because of
the call before, a text that is no name, and a name for what is no enum. -/
def letterCalls : List Call :=
  [⟨.patchFirst, [⟨"Letter", [⟨"a", "Value2", none⟩], none, none⟩,
      ⟨"Pet", [⟨"a", "Dog", none⟩], none, none⟩]⟩,
    ⟨.schemaFirst, [⟨"Letter", [⟨"b", "Other", " in the middle "⟩], none, none⟩]⟩,
    ⟨.patchFirst, [⟨"Letter", [⟨"c", "Value22", none⟩], none, none⟩,
      ⟨"Letter", [⟨"a", " 1st letter", none⟩], none, none⟩]⟩]

theorem ofDocument_letterDocument : ModelSet.ofDocument letterDocument = .ok letterModels := by
  have hnamed : Schema.named letterDocument = .ok (.map letterSchemas) := rfl
  have hsort : Scalar.sortOn (·.1) letterSchemas = .ok letterSchemas :=
    Scalar.sortOn_of_pairwise rfl (by decide) (by decide)
  have hschemas : Model.namedSchemas (.map letterSchemas) =
      .ok (letterSchemas.map fun p => (p.1, .ok p.2)) := Outcome.bind_eq_ok.2 ⟨_, hsort, rfl⟩
  exact Outcome.bind_eq_ok.2 ⟨_, hnamed, Outcome.bind_eq_ok.2 ⟨_, hschemas, rfl⟩⟩

theorem afterCalls_letterModels :
    letterModels.Keeps (afterCalls letterModels letterCalls) ∧
      (afterCalls letterModels letterCalls).IsWellNamed ∧
      (afterCalls letterModels letterCalls).models.map membersOf =
        [[⟨"Value1stLetter", ⟨.string, "a"⟩, none⟩,
          ⟨"Value22", ⟨.string, "b"⟩, some "in the middle"⟩,
          ⟨"Value222", ⟨.string, "c"⟩, none⟩], []] := by
  obtain ⟨hkeeps, hnamed⟩ :=
    keeps_and_isWellNamed_afterCalls ofDocument_letterDocument letterCalls
  exact ⟨hkeeps, hnamed, by decide⟩

end EnumPatch
end ApiScribe
