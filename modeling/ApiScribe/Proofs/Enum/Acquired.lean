import ApiScribe.Enum.Listing
import ApiScribe.Proofs.Enum.Patching
import ApiScribe.Proofs.Model.Closed
import ApiScribe.Proofs.TypeText.Names

/-! Names acquired from listings. The names made for listed values are identifiers, and no two of
them are the same. So a patch with these names has nothing left to make of them: every member of an
enum whose values are all listed gets the name made for the first listing of its value. -/
namespace ApiScribe

namespace TypeText

/-- A name is trimmed. -/
theorem trimmed_of_isName {s : String} (h : isName s.toList = true) : Text.trimmed s = s := by
  have hplain : ∀ c ∈ s.toList, Text.isBlank c = false :=
    fun c hc => isBlank_of_isWordChar (isWordChar_of_isNameChar (isNameChar_of_isName h c hc))
  rw [Text.trimmed, Text.trim_eq_self (Text.isTrimmed_of_no_blank hplain), String.ofList_toList]

end TypeText

namespace EnumListing

open TypeText

/-- What is made of a label or a value is a name if the enum has one. -/
theorem isName_baseName {enumName : String} (h : isName enumName.toList = true)
    (value label : String) : isName (baseName enumName value label).toList = true := by
  have hname : ∀ s, Naming.identifierOf s ≠ "" →
      isName (Naming.identifierOf s).toList = true := by
    intro s hs
    rw [Naming.identifierOf, String.toList_ofList]
    refine isName_identifierChars fun hnil => hs ?_
    rw [Naming.identifierOf, hnil]
  unfold baseName
  dsimp only
  split
  · next hlabel => exact hname _ hlabel
  · refine isName_append h ?_
    split
    · exact List.all_eq_true.1 (by decide)
    · next hvalue => exact isNameChar_of_isName (hname _ hvalue)

section

variable (enumName : String) (values : List (String × String))

/-- The names made for listed values. -/
def acquired : List String :=
  (Naming.uniqueNames [] (values.map fun p => baseName enumName p.1 p.2)).1

@[simp] theorem length_acquired : (acquired enumName values).length = values.length := by
  simp [acquired]

theorem nodup_acquired : (acquired enumName values).Nodup := (Naming.uniqueNames_nodup [] _).1

theorem isName_of_mem_acquired (h : isName enumName.toList = true) :
    ∀ s ∈ acquired enumName values, isName s.toList = true := by
  refine Naming.forall_mem_uniqueNames (p := fun s => isName s.toList = true)
    (fun s n hs => isName_append_number hs n) ?_ []
  intro s hs
  obtain ⟨p, -, rfl⟩ := List.mem_map.1 hs
  exact isName_baseName h p.1 p.2

/-- The entry made of the listing at an index. -/
theorem getElem_patchMembers {i : Nat} (hi : i < values.length)
    (h : i < (patchMembers enumName .auto values).length) :
    (patchMembers enumName .auto values)[i] =
      ⟨values[i].1, some ((acquired enumName values).get ⟨i, by simpa using hi⟩),
        commentOf values[i].2⟩ := by
  simp [patchMembers, names, acquired]

@[simp] theorem length_patchMembers :
    (patchMembers enumName .auto values).length = values.length := by
  simp [patchMembers, names]

theorem nodup_suggestedNames :
    ((patchMembers enumName .auto values).map PatchMember.suggestedName).Nodup := by
  have heq : (patchMembers enumName .auto values).map PatchMember.suggestedName =
      (acquired enumName values).map some :=
    List.ext_getElem (by simp) fun i h1 h2 => by
      simp only [List.length_map, length_patchMembers] at h1
      simp [getElem_patchMembers enumName values h1]
  rw [heq]
  exact (nodup_acquired enumName values).map fun _ _ h => Option.some.inj h

/-- The first entry for a listed value is the one made of its first listing. -/
theorem exists_entry_of_listed {value : String} (h : ∃ label, (value, label) ∈ values) :
    ∃ (i : Nat) (hi : i < values.length) (name : String),
      values[i].1 = value ∧ (∀ j (hj : j < i), values[j].1 ≠ value) ∧
        name ∈ acquired enumName values ∧
        (patchMembers enumName .auto values)[i]? =
          some ⟨value, some name, commentOf values[i].2⟩ ∧
        EnumPatch.entry? (patchMembers enumName .auto values) value =
          some ⟨value, some name, commentOf values[i].2⟩ := by
  obtain ⟨label, hlabel⟩ := h
  obtain ⟨k, hk, hkey⟩ := List.getElem_of_mem hlabel
  obtain ⟨p, hp⟩ : ∃ p, EnumPatch.entry? (patchMembers enumName .auto values) value = some p := by
    have hk' : k < (patchMembers enumName .auto values).length := by simpa using hk
    refine Option.isSome_iff_exists.1 (List.find?_isSome.2 ⟨_, List.getElem_mem hk', ?_⟩)
    simp [getElem_patchMembers enumName values hk, hkey]
  obtain ⟨hvalue, i, hi, hpi, hbefore⟩ := List.find?_eq_some_iff_getElem.1 hp
  have hi' : i < values.length := by simpa using hi
  have hlisted := getElem_patchMembers enumName values hi' hi
  rw [hpi] at hlisted
  have hfirst : values[i].1 = value := by simpa [hlisted] using hvalue
  rw [hfirst] at hlisted
  refine ⟨i, hi', _, hfirst, ?_, List.get_mem _ ⟨i, by simpa using hi'⟩, ?_, hlisted ▸ hp⟩
  · intro j hj
    have hother := hbefore j hj
    rw [getElem_patchMembers enumName values (by omega)] at hother
    simpa using hother
  · rw [List.getElem?_eq_getElem hi, hpi, hlisted]

end

theorem trimmed_eq_empty_iff {label : String} :
    Text.trimmed label = "" ↔ Text.blank label = true := by
  rw [Text.blank, ← Text.trim_eq_nil_iff, Text.trimmed, String.ofList_eq_empty_iff]

theorem commentOf_eq (label : String) :
    commentOf label = if Text.blank label then none else some (Text.trimmed label) := by
  simp only [commentOf, trimmed_eq_empty_iff]

theorem trimmed_commentOf (label : String) :
    Text.trimmed ((commentOf label).getD "") = Text.trimmed label := by
  unfold commentOf
  dsimp only
  split
  · next hempty =>
    rw [hempty]
    rfl
  · rw [Option.getD_some, Text.trimmed, Text.trimmed, String.toList_ofList,
      Text.trim_eq_self (Text.isTrimmed_trim _)]

end EnumListing

namespace EnumPatch

open TypeText EnumListing

/-- A suggested name that is one already is taken as it is. -/
theorem identifier_of_isName {name : String} (h : isName name.toList = true) :
    identifier (some name) = name := by
  have htrimmed := trimmed_of_isName h
  have hchomp : chomp name.toList = name.toList := by
    rw [← htrimmed, Text.trimmed, String.toList_ofList, chomp_trim]
  simp only [identifier, Option.getD_some, htrimmed, isIdentifier, hchomp, h, Bool.or_true,
    if_true]

/-- A member without a comment after an entry made of a listing: it has the name and the comment
of the entry. -/
theorem merge_patchFirst {name : String} (h : isName name.toList = true) (value label : String)
    {e : EnumMember} (he : e.comment = none) :
    merge .patchFirst ⟨value, some name, commentOf label⟩ e =
      { e with name := name, comment := commentOf label } := by
  have hne : name ≠ "" := by
    rintro rfl
    cases h
  simp only [merge, identifier_of_isName h, hne, if_false, trimmed_commentOf, he]
  rw [commentOf]

/-- Members whose values are all listed, and no value twice, are merged with entries of different
names, so that the names stay as they are. -/
theorem applyToMembers_patchMembers {enumName : String} (hname : isName enumName.toList = true)
    {values : List (String × String)} {ms : List EnumMember}
    (hcomments : ∀ e ∈ ms, e.comment = none) (hvalues : (ms.map (·.value.value)).Nodup)
    (hlisted : ∀ e ∈ ms, ∃ label, (e.value.value, label) ∈ values) :
    applyToMembers .patchFirst (patchMembers enumName .auto values) ms =
      ms.map (mergeInto .patchFirst (patchMembers enumName .auto values)) := by
  refine withUniqueNames_of_nodup ?_
  rw [List.map_map]
  have hentry : ∀ e ∈ ms, ∃ p ∈ patchMembers enumName .auto values, p.value = e.value.value ∧
      p.suggestedName =
        some (mergeInto .patchFirst (patchMembers enumName .auto values) e).name := by
    intro e he
    obtain ⟨i, hi, name, -, -, hmem, -, hentry⟩ :=
      exists_entry_of_listed enumName values (hlisted e he)
    refine ⟨_, List.mem_of_find?_eq_some hentry, rfl, ?_⟩
    have hisName := isName_of_mem_acquired enumName values hname name hmem
    rw [mergeInto_of_some hentry, merge_patchFirst hisName _ _ (hcomments e he)]
  refine (List.Nodup.of_map _ hvalues).map_on ?_
  intro e he d hd hsame
  obtain ⟨p, hp, hpvalue, hpname⟩ := hentry e he
  obtain ⟨q, hq, hqvalue, hqname⟩ := hentry d hd
  -- Different entries have different names, and members of one value are the same member.
  have hpq : p = q := by
    refine List.inj_on_of_nodup_map (nodup_suggestedNames enumName values) hp hq ?_
    rw [hpname, hqname]
    exact congrArg some hsame
  refine List.inj_on_of_nodup_map hvalues he hd ?_
  rw [← hpvalue, ← hqvalue, hpq]

/-- A patch changes the model of its name if that is an enum. -/
theorem get?_applyAll_singleton {policy : ConflictPolicy} {p : EnumPatch} {s : ModelSet} {m : Model}
    (hget : s.get? p.enumName = some m) {ms : List EnumMember} (hkind : m.kind = .enum ms) :
    (applyAll policy [p] s).1.get? p.enumName =
      some { m with kind := .enum (applyToMembers policy p.members ms) } := by
  have happly : (applyAll policy [p] s).1 =
      ⟨changeFirst p.enumName (patched policy p) s.models⟩ := by
    simp only [applyAll, apply, hget, hkind]
    rfl
  have hpatched : patched policy p m =
      { m with kind := .enum (applyToMembers policy p.members ms) } := by
    rw [patched, hkind]
  rw [happly, ← hpatched]
  exact get?_changeFirst hget fun d => (keeps_patched policy p d).name_eq

end EnumPatch

namespace EnumListing

/-- What becomes of a member whose value is listed: it has the name that the patch made of the
listing suggests for the first listing of the value, and the label for a comment unless that is
blank. -/
def IsAcquired (enumName : String) (values : List (String × String)) (e e' : EnumMember) : Prop :=
  e'.value = e.value ∧
    ∃ (i : Nat) (hi : i < values.length) (p : PatchMember),
      values[i].1 = e.value.value ∧ (∀ j (hj : j < i), values[j].1 ≠ e.value.value) ∧
      (patchMembers enumName .auto values)[i]? = some p ∧ p.suggestedName = some e'.name ∧
      e'.comment = if Text.blank values[i].2 then none else some (Text.trimmed values[i].2)

end EnumListing

namespace ModelSet

open EnumListing

/-- A patch made of a listing that lists every value of an enum gives each member what its first
listing says, and nothing of it is changed on the way. -/
theorem applyAll_listing {document : Value} {s : ModelSet}
    (hdistinct : Schema.HasDistinctNames document) (h : ofDocument document = .ok s) {m : Model}
    (hm : m ∈ s.models) {ms : List EnumMember} (hkind : m.kind = .enum ms)
    (hname : TypeText.isName m.name.toList = true) (hvalues : (ms.map EnumMember.value).Nodup)
    {values : List (String × String)}
    (hlisted : ∀ e ∈ ms, ∃ label, (e.value.value, label) ∈ values) :
    ∃ ms', (EnumPatch.applyAll .patchFirst [patch m.name .auto values] s).1.get? m.name =
        some { m with kind := .enum ms' } ∧
      List.Forall₂ (EnumListing.IsAcquired m.name values) ms ms' := by
  obtain ⟨kind, vs, hmembers⟩ := exists_members_of_mem h hm hkind
  have hnew := Model.kind_and_comment_of_members hmembers
  have htexts : (ms.map (·.value.value)).Nodup := by
    refine (List.Nodup.of_map _ hvalues).map_on fun e he d hd hsame => ?_
    refine List.inj_on_of_nodup_map hvalues he hd ?_
    rw [Literal.mk.injEq]
    exact ⟨(hnew e he).1.trans (hnew d hd).1.symm, hsame⟩
  refine ⟨ms.map (EnumPatch.mergeInto .patchFirst (patchMembers m.name .auto values)), ?_, ?_⟩
  · rw [← EnumPatch.applyToMembers_patchMembers hname (fun e he => (hnew e he).2) htexts hlisted]
    exact EnumPatch.get?_applyAll_singleton (p := patch m.name .auto values)
      (get?_of_mem hdistinct h hm) hkind
  · rw [List.forall₂_map_right_iff, List.forall₂_same]
    intro e he
    obtain ⟨i, hi, name, hfirst, hbefore, hmem, hat, hentry⟩ :=
      exists_entry_of_listed m.name values (hlisted e he)
    have hisName := isName_of_mem_acquired m.name values hname name hmem
    rw [EnumPatch.mergeInto_of_some hentry,
      EnumPatch.merge_patchFirst hisName _ _ (hnew e he).2]
    refine ⟨rfl, i, hi, _, hfirst, hbefore, hat, rfl, ?_⟩
    dsimp only
    exact commentOf_eq values[i].2

/-- A listing with values that come twice or are no values of the enum, and with labels that are
blank, of no letters, and the same name as what is made of another value. -/
def letterListing : List (String × String) :=
  [("b", " second letter "), ("z", "letter C"), ("a", "!"), ("b", "Other"), ("c", " "),
    ("a", "Second Letter")]

theorem applyAll_letterListing :
    (∃ ms', (EnumPatch.applyAll .patchFirst [patch "Letter" .auto letterListing]
          EnumPatch.letterModels).1.get? "Letter" = some ⟨"Letter", none, .enum ms'⟩ ∧
        List.Forall₂ (EnumListing.IsAcquired "Letter" letterListing)
          [⟨"Value1", ⟨.string, "a"⟩, none⟩, ⟨"Value2", ⟨.string, "b"⟩, none⟩,
            ⟨"Value3", ⟨.string, "c"⟩, none⟩] ms') ∧
      ((EnumPatch.applyAll .patchFirst [patch "Letter" .auto letterListing]
          EnumPatch.letterModels).1.get? "Letter").map EnumPatch.membersOf =
        some [⟨"LetterA", ⟨.string, "a"⟩, some "!"⟩,
          ⟨"SecondLetter", ⟨.string, "b"⟩, some "second letter"⟩,
          ⟨"LetterC2", ⟨.string, "c"⟩, none⟩] := by
  have hdistinct : Schema.HasDistinctNames EnumPatch.letterDocument := by
    rw [Schema.HasDistinctNames]
    decide
  refine ⟨applyAll_listing hdistinct EnumPatch.ofDocument_letterDocument
    (m := ⟨"Letter", none, .enum [⟨"Value1", ⟨.string, "a"⟩, none⟩,
      ⟨"Value2", ⟨.string, "b"⟩, none⟩, ⟨"Value3", ⟨.string, "c"⟩, none⟩]⟩)
    List.mem_cons_self rfl (by decide) (by decide) ?_, by decide⟩
  simp [letterListing]

end ModelSet
end ApiScribe
