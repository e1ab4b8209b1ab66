import Mathlib.Data.List.TFAE
import Mathlib.Tactic.TFAE
import ApiScribe.Proofs.Endpoint.Names
import ApiScribe.Proofs.Naming.Respelling
import ApiScribe.Proofs.Render.Keys
import ApiScribe.Render.Hooks

/-! The ladder of names. An endpoint takes the first of its candidates that no endpoint before it
took, and behind the last of them the least serial number that is free. There always is one, so
naming comes to an end for every list of endpoints, and no two exports share a name. -/
namespace ApiScribe
namespace Endpoint

open Naming

/-- The name that the ladder of candidates ends at, given the names used. Nothing bounds the serial
numbers, so a ladder has an end only if some number is free. -/
inductive Chosen (used : List String) : List String → String → Prop
  | unused {name : String} {names : List String} (h : name ∉ used) : Chosen used (name :: names) name
  | next {name other chosen : String} {names : List String} (h : name ∈ used)
      (rest : Chosen used (other :: names) chosen) : Chosen used (name :: other :: names) chosen
  | serial {name : String} {n : Nat} (h : name ∈ used)
      (first : IsFirstFree used (name ++ "_") 2 n) :
      Chosen used [name] (name ++ "_" ++ toString n)

theorem chosen_chooseName (used : List String) {names : List String} (hne : names ≠ []) :
    Chosen used names (chooseName used names) := by
  induction names with
  | nil => exact absurd rfl hne
  | cons name names ih =>
    cases names with
    | nil =>
      simp only [chooseName]
      split
      · next hmem =>
        obtain ⟨n, hn, hfirst⟩ := exists_firstSerial used name 2
        rw [hn]
        exact .serial hmem hfirst
      · next hmem => exact .unused hmem
    | cons other names =>
      simp only [chooseName]
      split
      · next hmem => exact .next hmem (ih (by simp))
      · next hmem => exact .unused hmem

/-- A ladder has one end at most. -/
theorem Chosen.eq {used names : List String} {s t : String} (hs : Chosen used names s)
    (ht : Chosen used names t) : s = t := by
  induction hs with
  | unused hfree =>
    cases ht with
    | unused => rfl
    | next hmem => exact absurd hmem hfree
    | serial hmem => exact absurd hmem hfree
  | next hmem _ ih =>
    cases ht with
    | unused hfree => exact absurd hmem hfree
    | next _ hrest => exact ih hrest
  | serial hmem hfirst =>
    cases ht with
    | unused hfree => exact absurd hmem hfree
    | serial _ hother => rw [hfirst.eq hother]

theorem chosen_iff (used : List String) {names : List String} (hne : names ≠ []) (s : String) :
    Chosen used names s ↔ s = chooseName used names := by
  constructor
  · exact fun h => h.eq (chosen_chooseName used hne)
  · rintro rfl
    exact chosen_chooseName used hne

/-- Only which names are used matters, not in which order. -/
theorem Chosen.congr {used used' : List String} (h : ∀ s, s ∈ used ↔ s ∈ used')
    {names : List String} {s : String} (hs : Chosen used names s) : Chosen used' names s := by
  induction hs with
  | unused hfree => exact .unused fun hmem => hfree ((h _).2 hmem)
  | next hmem _ ih => exact .next ((h _).1 hmem) ih
  | serial hmem hfirst => exact .serial ((h _).1 hmem) (hfirst.congr h)

theorem nameCandidates_ne_nil (e : Endpoint) : e.nameCandidates ≠ [] := by simp [nameCandidates]

/-- Each endpoint is named at the end of its ladder, given the names used before it. -/
theorem exists_getElem?_nameFrom (used : List String) (es : List Endpoint) (i : Fin es.length) :
    ∃ name, (nameFrom used es)[i]? = some (es[i].withName name) ∧
      ∀ s, Chosen (((nameFrom used es).take i).map exportName ++ used) es[i].nameCandidates s ↔
        s = name := by
  induction es generalizing used with
  | nil => exact i.elim0
  | cons e es ih =>
    cases i using Fin.cases with
    | zero =>
      refine ⟨chooseName used e.nameCandidates, rfl, fun s => ?_⟩
      exact chosen_iff used (nameCandidates_ne_nil e) s
    | succ i =>
      obtain ⟨name, hname, hchosen⟩ := ih (chooseName used e.nameCandidates :: used) i
      refine ⟨name, hname, fun s => ?_⟩
      rw [← hchosen s]
      refine ⟨Chosen.congr fun t => ?_, Chosen.congr fun t => ?_⟩ <;>
      · simp only [nameFrom, List.take_succ_cons, Fin.val_succ, List.map_cons, withName,
          List.mem_append, List.mem_cons]
        tauto

/-- However endpoints are scoped, called and ordered, naming them gives each the one name at the end
of its ladder, over the names of those before it, and no two of these names are the same. -/
theorem nodup_exportNames_nameAll (es : List Endpoint) :
    ((nameAll es).map exportName).Nodup ∧ (nameAll es).length = es.length ∧
      ∀ i : Fin es.length, ∃ name, (nameAll es)[i]? = some (es[i].withName name) ∧
        ∀ s, Chosen (((nameAll es).take i).map exportName) es[i].nameCandidates s ↔ s = name := by
  refine ⟨exportName_nameFrom_nodup [] es, ?_, fun i => ?_⟩
  · have hmap := congrArg List.length (map_nameFrom Endpoint.path (fun _ _ => rfl) [] es)
    simpa only [nameAll, List.length_map] using hmap
  · simpa only [nameAll, List.append_nil] using exists_getElem?_nameFrom [] es i

end Endpoint
end ApiScribe

/-! Names of builders and hooks. They are made from export names by splitting these into words once
more, which forgets the underscore of a serial number and which of the capitals in a row started a
word. Two exports share a builder, and a hook, exactly when nothing else tells their names apart. -/
namespace ApiScribe
namespace Endpoint

open Naming

theorem isCased_toList_pascal (k : LetterClass) (s : String) : IsCased k (pascal s).toList := by
  rw [pascal, String.toList_ofList]
  exact isCased_pascalChars k s.toList

theorem isCased_digits (k : LetterClass) (n : Nat) : IsCased k (toString n).toList := by
  have hall : ∀ cs : List Char, (∀ c ∈ cs, c.isDigit = true) → ∀ k, IsCased k cs := by
    intro cs
    induction cs with
    | nil => exact fun _ _ => trivial
    | cons c cs ih =>
      intro h k
      have hc := (classOf_eq_digit_iff c).2 ((isDigit_iff c).1 (h c List.mem_cons_self))
      exact ⟨by simp [hc], by simp [hc], ih (fun d hd => h d (List.mem_cons_of_mem c hd)) _⟩
  exact hall _ (fun c hc => isDigit_of_mem_toString hc) k

theorem isCamel_scopePrefix (scope : List String) (count : Nat) :
    IsCamel (scopePrefix scope count).toList := by
  have hop : IsCamel "op".toList := ⟨'o', ['p'], by decide, by decide, by
    simp [IsCased, classOf, LetterClass.isLetter]⟩
  unfold scopePrefix normalizeName
  split
  · exact hop
  · next hblank =>
    split
    · rw [String.toList_append]
      exact hop.append fun k => isCased_toList_pascal k _
    · next hdigit =>
      rw [camel, String.toList_ofList] at hdigit ⊢
      refine isCamel_camelChars ?_ (by simpa using hdigit)
      intro hnil
      rw [camel, hnil] at hblank
      exact hblank rfl

theorem isCamel_of_mem_nameCandidates {e : Endpoint} {s : String} (hs : s ∈ e.nameCandidates) :
    IsCamel s.toList := by
  refine forall_mem_nameCandidates (P := fun s => IsCamel s.toList) ?_ ?_ ?_ s hs
  · intro count
    rw [String.toList_append]
    exact (isCamel_scopePrefix e.scope count).append fun k => isCased_toList_pascal k _
  · intro s t h
    rw [String.toList_append]
    exact h.append fun k => isCased_toList_pascal k t
  · intro s h
    rw [String.toList_append]
    refine h.append fun k => ?_
    simp [IsCased, classOf, LetterClass.isLetter]

/-- Export names are made of words and serial numbers. -/
theorem isCamel_chosen (e : Endpoint) (used : List String) :
    IsCamel (chooseName used e.nameCandidates).toList := by
  refine chooseName_of_forall (P := fun s => IsCamel s.toList) (by simp [nameCandidates])
    (fun _ => isCamel_of_mem_nameCandidates) ?_ used
  intro s hs used index
  obtain ⟨n, hn, -⟩ := exists_firstSerial used s index
  rw [hn, String.toList_append, String.toList_append]
  refine (hs.append fun k => ?_).append fun k => isCased_digits k n
  simp [IsCased, classOf, LetterClass.isLetter]

theorem isCamel_exportName {es : List Endpoint} {e : Endpoint} (he : e ∈ nameAll es) :
    IsCamel e.exportName.toList ∧ e.builderName = "build" ++ pascal e.exportName ++ "Spec" := by
  obtain ⟨d, -, used, rfl⟩ := exists_of_mem_nameFrom [] es he
  exact ⟨isCamel_chosen d used, rfl⟩

/-- Builders have names of their own if and only if hooks of one kind have, and if and only if the
export names differ in more than underscores and capitals in a row. -/
theorem builderNames_tfae_soften (es : List Endpoint) :
    [((nameAll es).map builderName).Nodup,
      ((nameAll es).map (Render.hookName .query)).Nodup,
      ((nameAll es).map (Render.hookName .mutation)).Nodup,
      ((nameAll es).map fun e => soften e.exportName).Nodup].TFAE := by
  have hes : (nameAll es).Nodup := List.Nodup.of_map _ (exportName_nameFrom_nodup [] es)
  -- a name made from the words of the export name tells as much as the softened export name
  have hwords : ∀ f : Endpoint → String,
      (∀ e ∈ nameAll es, ∀ d ∈ nameAll es,
        f e = f d ↔ pascal e.exportName = pascal d.exportName) →
      (((nameAll es).map f).Nodup ↔ ((nameAll es).map fun e => soften e.exportName).Nodup) := by
    intro f hf
    rw [List.nodup_map_iff_inj_on hes, List.nodup_map_iff_inj_on hes]
    refine forall₂_congr fun e he => forall₂_congr fun d hd => ?_
    rw [hf e he d hd,
      pascal_eq_iff_soften_eq (isCamel_exportName he).1 (isCamel_exportName hd).1]
  have hbuilder := hwords builderName fun e he d hd => by
    rw [(isCamel_exportName he).2, (isCamel_exportName hd).2, String.append_left_inj,
      String.append_right_inj]
  have hhook : ∀ kind, ((nameAll es).map (Render.hookName kind)).Nodup ↔
      ((nameAll es).map fun e => soften e.exportName).Nodup := fun kind =>
    hwords (Render.hookName kind) fun e _ d _ => by
      rw [Render.hookName, Render.hookName, String.append_left_inj, String.append_right_inj]
  tfae_have 1 ↔ 4 := hbuilder
  tfae_have 2 ↔ 4 := hhook .query
  tfae_have 3 ↔ 4 := hhook .mutation
  tfae_finish

/-- Two endpoints whose export names differ in one letter, a capital behind a capital. -/
def points : List Endpoint :=
  [{ scope := ["point-x"], operationName := "y", method := "GET", path := "/a" },
   { scope := ["point"], operationName := "xy", method := "GET", path := "/b" }]

theorem not_nodup_builderNames_points :
    (nameAll points).map exportName = ["pointXY", "pointXy"] ∧
      ¬ ((nameAll points).map builderName).Nodup ∧
      ¬ ((nameAll points).map (Render.hookName .query)).Nodup := by
  decide +kernel

end Endpoint
end ApiScribe

/-! Names that can be declared. The scope in front of a name starts with a small letter, and the
action behind it with a capital: so every name, with whatever is put behind these two, is an
identifier of letters, digits and underscores, and none is a word of the language. -/
namespace ApiScribe
namespace Endpoint

open Naming

/-- The words that no module declares: those that names are kept from, the other words of the
language, and the two names that strict code never binds. -/
def keywords : List String :=
  reservedWords ++
    ["arguments", "await", "break", "catch", "continue", "debugger", "do", "else", "enum", "eval",
     "export", "extends", "false", "finally", "for", "if", "implements", "in", "instanceof",
     "interface", "null", "package", "private", "protected", "public", "static", "super", "this",
     "throw", "true", "try", "typeof", "void", "while", "with", "yield"]

/-- A name that a module can declare, whatever characters beyond ASCII are in its language. -/
structure IsDeclarable (name : String) : Prop where
  identifier : ∀ a : Alphabet, a.isIdentifier name = true
  chars : ∀ c ∈ name.toList, c.isAlphanum = true ∨ c = '_'
  front : name.toList.head?.any Char.isLower = true
  free : name ∉ keywords

theorem isWordChar_of_isCased {k : LetterClass} {cs : List Char} (h : IsCased k cs) :
    ∀ c ∈ cs, isWordChar c = true ∨ c = '_' := by
  induction cs generalizing k with
  | nil => simp
  | cons d cs ih =>
    intro c hc
    rcases List.mem_cons.1 hc with rfl | hc
    · by_cases hother : classOf c = .other
      · exact .inr (h.2.1 hother)
      · exact .inl ((isWordChar_iff_classOf_ne c).2 hother)
    · exact ih h.2.2 c hc

/-- A word of the language holds no capital. -/
theorem not_mem_keywords {name : String} {c : Char} (hc : c ∈ name.toList)
    (hcapital : c.isUpper = true) : name ∉ keywords := by
  have hsmall : ∀ w ∈ keywords, w.toList.any Char.isUpper = false := by decide
  intro hmem
  have hnone := List.any_eq_false.1 (hsmall name hmem) c hc
  exact hnone hcapital

/-- A name made of words, with a capital in it, can be declared. -/
theorem isDeclarable_of_isCamel {name : String} (h : IsCamel name.toList)
    (hcapital : ∃ c ∈ name.toList, c.isUpper = true) : IsDeclarable name := by
  obtain ⟨d, ds, hname, hd, hds⟩ := h
  obtain ⟨c, hc, hupper⟩ := hcapital
  have hlower : d.isLower = true := (isLower_iff d).2 ((classOf_eq_lower_iff d).1 hd)
  have halpha : d.isAlpha = true := Bool.or_eq_true_iff.2 (.inr hlower)
  have hchars : ∀ e ∈ name.toList, e.isAlphanum = true ∨ e = '_' := by
    intro e he
    rw [hname] at he
    rcases List.mem_cons.1 he with rfl | he
    · simp [Char.isAlphanum, halpha]
    · simpa [isWordChar_eq_isAlphanum] using isWordChar_of_isCased hds e he
  refine ⟨fun a => ?_, hchars, by simp [hname, hlower], not_mem_keywords hc hupper⟩
  have hascii : ∀ e : Char, e.isAlphanum = true ∨ e = '_' → e.toNat < 128 := by
    rintro e (he | rfl)
    · rw [isAlphanum_iff] at he
      omega
    · decide
  have hstart : a.isStart d = true := by
    have hd := hascii d (hchars d (by simp [hname]))
    simp [Alphabet.isStart, hd, halpha]
  have hinner : ∀ e ∈ name.toList, a.isInner e = true := by
    intro e he
    have hword := hchars e he
    have hlt := hascii e hword
    rcases hword with hword | rfl
    · simp [Alphabet.isInner, hlt, hword]
    · simp [Alphabet.isInner]
  simp only [Alphabet.isIdentifier, Bool.and_eq_true, List.all_eq_true]
  exact ⟨by simp [hname, hstart], hinner⟩

/-- The name of a builder stands between two words, the second of them with a capital. -/
theorem isDeclarable_builder (name : String) :
    IsDeclarable ("build" ++ pascal name ++ "Spec") := by
  have hfront : IsCamel "build".toList := ⟨'b', "uild".toList, rfl, by decide, by
    simp [IsCased, classOf, LetterClass.isLetter]⟩
  have hback : ∀ k, IsCased k "Spec".toList := by
    intro k
    simp [IsCased, classOf, LetterClass.isLetter]
  refine isDeclarable_of_isCamel ?_ ⟨'S', by simp, by decide⟩
  simpa using (hfront.append fun k => isCased_toList_pascal k name).append hback

/-- **Names that can be declared.** However endpoints are scoped and called, and whatever their
methods and path fields, each gets an export name and a builder name that a module can declare:
identifiers of ASCII letters, digits and underscores that start with a small letter and are no words
of the language. -/
theorem isDeclarable_names_nameAll (es : List Endpoint) :
    (nameAll es).length = es.length ∧
      ∀ e ∈ nameAll es, IsDeclarable e.exportName ∧ IsDeclarable e.builderName := by
  constructor
  · have hmap := congrArg List.length (map_nameFrom Endpoint.path (fun _ _ => rfl) [] es)
    simpa [nameAll] using hmap
  · intro e he
    obtain ⟨d, -, used, rfl⟩ := exists_of_mem_nameFrom [] es he
    have hcapital := (isTitled_chosen d used).capital
    exact ⟨isDeclarable_of_isCamel (isCamel_chosen d used) hcapital, isDeclarable_builder _⟩

example : (nameAll [{ scope := ["order"], operationName := "2fa", method := "GET", path := "/" },
    { scope := ["1.5"], operationName := "", method := "GET", path := "/" }]).map exportName =
      ["orderOp2Fa", "op15Op"] := by
  decide +kernel

end Endpoint
end ApiScribe
