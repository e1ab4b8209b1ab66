import ApiScribe.Enum.Plan
import ApiScribe.Proofs.Entries
import ApiScribe.Proofs.Enum.Patching
import ApiScribe.Proofs.Model.Closed

/-! Plans made again. A planned name is that of a position, or one that was chosen by hand; no name
is both, so in an enum no name comes twice. What a plan keeps it keeps again when it is itself what
exists, so planning from a plan changes nothing. -/
namespace ApiScribe

/-- A planned member as one that exists. -/
def PlannedMember.toSource (p : PlannedMember) : SourceMember := ⟨p.name, p.comment⟩

/-- A planned enum as an enum that exists: what there is of each value. -/
def PlannedEnum.toSource (p : PlannedEnum) : Entries String SourceMember :=
  .ofList (p.members.map fun m => (m.value, m.toSource))

/-- A plan as the enums that exist. -/
def EnumPlan.toSource (plan : EnumPlan) : SourceEnums :=
  .ofList (plan.enums.map fun p => (p.enumName, p.toSource))

namespace EnumPlan

/-- The names of positions are numbered names. -/
theorem isNumbered_numbered (n : Nat) : isNumbered ("Value" ++ toString n) = true := by
  have hne : (toString n).toList ≠ [] := by
    rw [Nat.toString_eq_repr, Nat.toList_repr]
    exact Nat.toDigits_ne_nil
  have hlast : ("Value" ++ toString n).toList.getLast? ≠ some '\n' := by
    rw [String.toList_append, List.getLast?_append_of_ne_nil _ hne]
    exact fun h => absurd (Naming.isDigit_of_mem_toString (List.mem_of_getLast? h)) (by decide)
  have hafter : Text.after? "Value".toList ("Value" ++ toString n).toList =
      some (toString n).toList := by
    rw [Text.after?_eq_some_iff, String.toList_append]
  have hdecimal : ∀ c ∈ (toString n).toList, Text.isDecimal c = true := fun c hc => by
    simp [Text.isDecimal, Text.decimalValue?, Naming.isDigit_of_mem_toString hc]
  rw [isNumbered, TypeText.chomp, if_neg hlast, hafter]
  simp only [List.isEmpty_eq_false_iff.2 hne, List.all_eq_true.2 hdecimal]
  rfl

section

variable (previous : Entries String SourceMember) (index : Nat) (m : EnumMember)

@[simp] theorem value_memberOf : (memberOf previous index m).value = m.value.value := by
  unfold memberOf
  split <;> rfl

@[simp] theorem map_value_mapIdx_memberOf (ms : List EnumMember) :
    (ms.mapIdx (memberOf previous)).map PlannedMember.value = ms.map (·.value.value) :=
  List.ext_getElem (by simp) fun i h1 h2 => by simp

/-- A planned name is the name of the member, or it exists and was chosen by hand. -/
theorem name_memberOf : (memberOf previous index m).name = m.name ∨
    ∃ old, previous.get? m.value.value = some old ∧ isNumbered old.name = false ∧
      (memberOf previous index m).name = old.name := by
  unfold memberOf
  split
  · exact .inl rfl
  · next old hold =>
    dsimp only
    split
    · exact .inl rfl
    · next hchosen =>
      refine .inr ⟨old, hold, ?_, rfl⟩
      simp only [isGenerated, Bool.or_eq_true, not_or] at hchosen
      simpa using hchosen.1.1

end

/-- What was planned for a member is planned for it again where it is what exists. -/
theorem memberOf_again {previous previous' : Entries String SourceMember} {index : Nat}
    {m : EnumMember}
    (h : previous'.get? m.value.value = some (memberOf previous index m).toSource) :
    memberOf previous' index m = memberOf previous index m := by
  rw [memberOf, h, PlannedMember.toSource]
  unfold memberOf
  cases previous.get? m.value.value with
  | none => simp
  | some old =>
    have hcomment : m.comment.or (m.comment.or old.comment) = m.comment.or old.comment := by
      rw [← Option.or_assoc, Option.or_self]
    by_cases hgenerated : isGenerated old.name m.value.value index = true
    · simp [hgenerated, hcomment]
    · simp [hgenerated, hcomment]

/-- Members that are called by their position get different names where existing ones have. -/
theorem nodup_names_memberOf {previous : Entries String SourceMember} {ms : List EnumMember}
    (hprevious : (previous.map (·.2.name)).Nodup) (hvalues : (ms.map (·.value.value)).Nodup)
    (hnames : ms.map EnumMember.name =
      (List.range ms.length).map fun i => "Value" ++ toString (i + 1)) :
    ((ms.mapIdx (memberOf previous)).map PlannedMember.name).Nodup := by
  have hname : ∀ i (hi : i < ms.length), ms[i].name = "Value" ++ toString (i + 1) := by
    intro i hi
    have hget := congrArg (·[i]?) hnames
    simpa [hi] using hget
  rw [List.Nodup, List.pairwise_iff_getElem]
  intro i j hi hj hlt heq
  simp only [List.length_map, List.length_mapIdx] at hi hj
  simp only [List.getElem_map, List.getElem_mapIdx] at heq
  rcases name_memberOf previous i ms[i] with hdefault | ⟨old, hold, hchosen, hkept⟩ <;>
    rcases name_memberOf previous j ms[j] with hdefault' | ⟨old', hold', hchosen', hkept'⟩
  · rw [hdefault, hdefault', hname i hi, hname j hj] at heq
    have hnumbers := Naming.numbered_injective "Value" heq
    omega
  · rw [hdefault, hkept', hname i hi] at heq
    rw [← heq, isNumbered_numbered] at hchosen'
    cases hchosen'
  · rw [hkept, hdefault', hname j hj] at heq
    rw [heq, isNumbered_numbered] at hchosen
    cases hchosen
  · -- names that exist are different, so they belong to one value, and the values are different
    rw [hkept, hkept'] at heq
    have hpair := List.inj_on_of_nodup_map hprevious (Entries.mem_of_get?_eq_some hold)
      (Entries.mem_of_get?_eq_some hold') heq
    have hvalue : ms[i].value.value = ms[j].value.value := congrArg Prod.fst hpair
    exact List.nodup_iff_getElem?_ne_getElem?.1 hvalues i j hlt (by simpa using hj)
      (by simp [hi, hj, hvalue])

theorem enumOf_eq_some {existing : SourceEnums} {m : Model} {p : PlannedEnum} :
    enumOf existing m = some p ↔ ∃ ms, m.kind = .enum ms ∧
      p = { enumName := m.name, description := m.description,
            members := ms.mapIdx (memberOf ((existing.get? m.name).getD [])) } := by
  unfold enumOf
  cases hkind : m.kind with
  | enum ms => simp [eq_comm]
  | _ => simp

/-- Every enum is planned under its name, in order. -/
theorem map_enumName_ofModels (existing : SourceEnums) (s : ModelSet) :
    (ofModels existing s).enums.map PlannedEnum.enumName =
      (s.models.filter Model.isEnum).map Model.name := by
  unfold ofModels
  dsimp only
  induction s.models with
  | nil => rfl
  | cons m ms ih =>
    cases hkind : m.kind with
    | enum es => simp [enumOf, Model.isEnum, hkind, ih]
    | _ => simp [enumOf, Model.isEnum, hkind, ih]

/-- What was planned for an enum is planned for it again where it is what exists. -/
theorem enumOf_again {existing existing' : SourceEnums} {m : Model} {p : PlannedEnum}
    (hp : enumOf existing m = some p) (hvalues : (p.members.map PlannedMember.value).Nodup)
    (h : existing'.get? m.name = some p.toSource) : enumOf existing' m = some p := by
  obtain ⟨ms, hkind, hplan⟩ := enumOf_eq_some.1 hp
  have hmembers : p.members = ms.mapIdx (memberOf ((existing.get? m.name).getD [])) := by
    rw [hplan]
  have hagain : ms.mapIdx (memberOf p.toSource) = p.members := by
    rw [hmembers]
    refine List.mapIdx_eq_mapIdx_iff.2 fun i hi => ?_
    have hmem : memberOf ((existing.get? m.name).getD []) i ms[i] ∈ p.members := by
      rw [hmembers]
      exact List.mem_mapIdx.2 ⟨i, hi, rfl⟩
    have hget := Entries.get?_ofList_map (f := PlannedMember.toSource) hvalues hmem
    rw [value_memberOf] at hget
    exact memberOf_again hget
  rw [enumOf_eq_some]
  refine ⟨ms, hkind, ?_⟩
  rw [h, Option.getD_some, hagain, hmembers]
  exact hplan

/-- A plan made with itself as what exists is the same plan. -/
theorem ofModels_toSource {s : ModelSet} (hnames : (s.models.map Model.name).Nodup)
    (hvalues : ∀ m ∈ s.models, ∀ ms, m.kind = .enum ms → (ms.map (·.value.value)).Nodup)
    (existing : SourceEnums) :
    ofModels (ofModels existing s).toSource s = ofModels existing s := by
  have hplanned : ((ofModels existing s).enums.map PlannedEnum.enumName).Nodup := by
    rw [map_enumName_ofModels]
    exact hnames.sublist (List.filter_sublist.map Model.name)
  refine congrArg (EnumPlan.mk "1") (List.filterMap_congr fun m hm => ?_)
  cases hp : enumOf existing m with
  | none =>
    cases hkind : m.kind with
    | enum ms => simp [enumOf, hkind] at hp
    | _ => simp [enumOf, hkind]
  | some p =>
    obtain ⟨ms, hkind, hplan⟩ := enumOf_eq_some.1 hp
    have hname : p.enumName = m.name := by rw [hplan]
    refine enumOf_again hp ?_ ?_
    · rw [hplan, map_value_mapIdx_memberOf]
      exact hvalues m hm ms hkind
    · rw [← hname]
      exact Entries.get?_ofList_map hplanned (List.mem_filterMap.2 ⟨m, hm, hp⟩)

/-- A named schema of a document lists literals of these texts, in this order. -/
def ListsTexts (document : Value) (name : String) (texts : List String) : Prop :=
  ∃ key fields, (key, .map fields) ∈ Schema.entries document ∧
    Check.string (.scalar key) = .ok name ∧
    (Model.listedValues fields).mapM Model.literalText = .ok texts

/-- The enums of a document have the values that its schemas list. -/
theorem listsTexts_of_mem {document : Value} {s : ModelSet}
    (h : ModelSet.ofDocument document = .ok s) {m : Model} (hm : m ∈ s.models)
    {ms : List EnumMember} (hkind : m.kind = .enum ms) :
    ListsTexts document m.name (ms.map (·.value.value)) := by
  obtain ⟨⟨key, schema⟩, hentry, hschema⟩ := (ModelSet.models_of_ofDocument h).1 m hm
  obtain ⟨hname, fields, rfl, hfields⟩ := Model.ofSchema_eq_ok hschema
  rw [hkind] at hfields
  obtain ⟨kind, hmembers⟩ := Model.kindOf_eq_enum hfields
  exact ⟨key, fields, hentry, hname, Model.texts_of_members hmembers⟩

/-- The plan of the enums of a document, whose values are different within an enum, with whatever
enums exist, whose names are different within an enum: it has the enums of the document in order,
each with different names and with the values of its schema, and with itself as what exists it is
made again. -/
theorem ofModels_nodup_and_lists_and_again {document : Value} {s : ModelSet}
    (hdistinct : Schema.HasDistinctNames document) (h : ModelSet.ofDocument document = .ok s)
    (hvalues : ∀ m ∈ s.models, ∀ ms, m.kind = .enum ms → (ms.map (·.value.value)).Nodup)
    {existing : SourceEnums} (hexisting : ∀ p ∈ existing, (p.2.map (·.2.name)).Nodup) :
    (ofModels existing s).enums.map PlannedEnum.enumName =
        (s.models.filter Model.isEnum).map Model.name ∧
      (∀ p ∈ (ofModels existing s).enums, (p.members.map PlannedMember.name).Nodup ∧
        ListsTexts document p.enumName (p.members.map PlannedMember.value)) ∧
      ofModels (ofModels existing s).toSource s = ofModels existing s := by
  refine ⟨map_enumName_ofModels existing s, fun p hp => ?_,
    ofModels_toSource (ModelSet.nodup_names hdistinct h) hvalues existing⟩
  obtain ⟨m, hm, hplan⟩ := List.mem_filterMap.1 hp
  obtain ⟨ms, hkind, rfl⟩ := enumOf_eq_some.1 hplan
  have hprevious : (((existing.get? m.name).getD []).map (·.2.name)).Nodup := by
    cases hget : existing.get? m.name with
    | none => exact List.nodup_nil
    | some previous => exact hexisting _ (Entries.mem_of_get?_eq_some hget)
  obtain ⟨kind, vs, hmembers⟩ := ModelSet.exists_members_of_mem h hm hkind
  refine ⟨nodup_names_memberOf hprevious (hvalues m hm ms hkind) (Model.members_eq_ok hmembers), ?_⟩
  rw [map_value_mapIdx_memberOf]
  exact listsTexts_of_mem h hm hkind

/-- An enum that exists with a name that was chosen, one that a position has and one that its value
has. -/
def letterEnums : SourceEnums :=
  [("Letter", [("a", ⟨"First", some "one"⟩), ("b", ⟨"Value1", none⟩), ("c", ⟨"C", some "three"⟩)])]

theorem ofModels_letterEnums :
    ofModels (ofModels letterEnums EnumPatch.letterModels).toSource EnumPatch.letterModels =
        ofModels letterEnums EnumPatch.letterModels ∧
      (ofModels letterEnums EnumPatch.letterModels).enums.map PlannedEnum.members =
        [[⟨"First", "a", some "one"⟩, ⟨"Value2", "b", none⟩, ⟨"Value3", "c", some "three"⟩]] := by
  have hdistinct : Schema.HasDistinctNames EnumPatch.letterDocument := by decide
  have hvalues : ∀ m ∈ EnumPatch.letterModels.models, ∀ ms, m.kind = .enum ms →
      (ms.map (·.value.value)).Nodup := by
    intro m hm ms hkind
    simp only [EnumPatch.letterModels, List.mem_cons, List.not_mem_nil, or_false] at hm
    rcases hm with rfl | rfl
    · cases hkind
      decide
    · cases hkind
  have hexisting : ∀ p ∈ letterEnums, (p.2.map (·.2.name)).Nodup := by decide
  exact ⟨(ofModels_nodup_and_lists_and_again hdistinct EnumPatch.ofDocument_letterDocument hvalues
    hexisting).2.2, by decide +kernel⟩

end EnumPlan
end ApiScribe
