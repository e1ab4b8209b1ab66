import ApiScribe.Proofs.Enum.Patching

/-! Patches applied again, and in another order. Making names unique depends on the names in front
only, so names that were made so are found again, whether the member still has the name or is given
the suggested one anew. Patches of different enums do not see each other, so their order is free. -/
namespace ApiScribe

namespace Naming

/-- A name that was made unique is unique among the same names. -/
theorem uniqueName_uniqueName (used : List String) (base : String) :
    uniqueName used (uniqueName used base) = uniqueName used base :=
  uniqueName_of_not_mem (uniqueName_fresh used base)

end Naming

namespace EnumPatch

open Naming

/-- Members with names that differ from those before and from the names used already. -/
def renamed (used : List String) (ms : List EnumMember) : List EnumMember :=
  ms.zipWith (fun m name => { m with name }) (uniqueNames used (ms.map EnumMember.name)).1

@[simp] theorem renamed_cons (used : List String) (m : EnumMember) (ms : List EnumMember) :
    renamed used (m :: ms) =
      { m with name := uniqueName used m.name } :: renamed (uniqueName used m.name :: used) ms :=
  rfl

/-- Renaming again changes nothing, where each member was left as it is after renaming or was given
its earlier name back. -/
theorem renamed_map_renamed {f : EnumMember → EnumMember} {ms : List EnumMember}
    (h : ∀ m ∈ ms, ∀ name, f { m with name } = { m with name } ∨ f { m with name } = m)
    (used : List String) : renamed used ((renamed used ms).map f) = renamed used ms := by
  induction ms generalizing used with
  | nil => rfl
  | cons m ms ih =>
    obtain ⟨hm, hms⟩ := List.forall_mem_cons.1 h
    have hhead : { f { m with name := uniqueName used m.name } with
        name := uniqueName used (f { m with name := uniqueName used m.name }).name } =
        { m with name := uniqueName used m.name } := by
      rcases hm (uniqueName used m.name) with hf | hf
      · rw [hf, uniqueName_uniqueName]
      · rw [hf]
    have hname := congrArg EnumMember.name hhead
    dsimp only at hname
    rw [renamed_cons, List.map_cons, renamed_cons, hhead, hname, ih hms]

/-- Merging an entry into a member again, under whatever name the member has by now, leaves the
member as it is or gives it the name back that the entry suggests. -/
theorem merge_merge (policy : ConflictPolicy) (p : PatchMember) (m : EnumMember) (name : String) :
    merge policy p { merge policy p m with name } = { merge policy p m with name } ∨
      merge policy p { merge policy p m with name } = merge policy p m := by
  cases policy with
  | patchFirst =>
    by_cases hname : identifier p.suggestedName = ""
    · left
      simp only [merge, hname, if_true]
      split <;> rfl
    · right
      simp only [merge, hname, if_false]
      split <;> rfl
  | schemaFirst =>
    left
    by_cases hcomment : Text.trimmed (p.comment.getD "") = ""
    · simp [merge, hcomment]
    · by_cases hempty : m.comment.getD "" = "" <;> simp [merge, hcomment, hempty]

theorem mergeInto_mergeInto (policy : ConflictPolicy) (entries : List PatchMember)
    (m : EnumMember) (name : String) :
    mergeInto policy entries { mergeInto policy entries m with name } =
        { mergeInto policy entries m with name } ∨
      mergeInto policy entries { mergeInto policy entries m with name } =
        mergeInto policy entries m := by
  cases hentry : entry? entries m.value.value with
  | none =>
    left
    simp [mergeInto, hentry]
  | some p =>
    have hagain : entry? entries (mergeInto policy entries m).value.value = some p := by
      rwa [value_mergeInto]
    rw [mergeInto_of_some (e := { mergeInto policy entries m with name }) hagain,
      mergeInto_of_some hentry]
    exact merge_merge policy p m name

/-- A second time the entries of a patch make the same members of an enum. -/
theorem applyToMembers_applyToMembers (policy : ConflictPolicy) (entries : List PatchMember)
    (ms : List EnumMember) :
    applyToMembers policy entries (applyToMembers policy entries ms) =
      applyToMembers policy entries ms := by
  refine renamed_map_renamed ?_ []
  intro m hm name
  obtain ⟨e, -, rfl⟩ := List.mem_map.1 hm
  exact mergeInto_mergeInto policy entries e name

theorem patched_patched (policy : ConflictPolicy) (p : EnumPatch) (m : Model) :
    patched policy p (patched policy p m) = patched policy p m := by
  obtain ⟨name, description, kind⟩ := m
  cases kind with
  | enum ms => simp only [patched, applyToMembers_applyToMembers]
  | interface ps => rfl
  | aliased t nullable => rfl

section

variable {f g : Model → Model} (hf : ∀ m, (f m).name = m.name) (hg : ∀ m, (g m).name = m.name)
include hf

theorem changeFirst_changeFirst (hself : ∀ m, f (f m) = f m) (name : String) (ms : List Model) :
    changeFirst name f (changeFirst name f ms) = changeFirst name f ms := by
  induction ms with
  | nil => rfl
  | cons m ms ih =>
    by_cases hm : m.name = name
    · simp only [changeFirst, hm, hf, hself, if_true]
    · simp only [changeFirst, hm, if_false, ih]

include hg

/-- The first models of two names are changed in either order. -/
theorem changeFirst_comm {name name' : String} (hne : name ≠ name') (ms : List Model) :
    changeFirst name f (changeFirst name' g ms) = changeFirst name' g (changeFirst name f ms) := by
  induction ms with
  | nil => rfl
  | cons m ms ih =>
    by_cases hm : m.name = name
    · simp only [changeFirst, hf, hm, hne, if_true, if_false]
    · by_cases hm' : m.name = name'
      · simp only [changeFirst, hg, hm', Ne.symm hne, if_true, if_false]
      · simp only [changeFirst, hm, hm', if_false, ih]

end

theorem after_after (policy : ConflictPolicy) (p : EnumPatch) (s : ModelSet) :
    after policy (after policy s p) p = after policy s p :=
  congrArg ModelSet.mk <| changeFirst_changeFirst (fun m => (keeps_patched policy p m).name_eq)
    (patched_patched policy p) p.enumName s.models

/-- Patches of different enums can be applied in either order. -/
theorem after_comm (policy : ConflictPolicy) {p q : EnumPatch} (h : p.enumName ≠ q.enumName)
    (s : ModelSet) : after policy (after policy s p) q = after policy (after policy s q) p :=
  congrArg ModelSet.mk <| changeFirst_comm (fun m => (keeps_patched policy q m).name_eq)
    (fun m => (keeps_patched policy p m).name_eq) (Ne.symm h) s.models

theorem after_foldl_comm (policy : ConflictPolicy) {p : EnumPatch} {ps : List EnumPatch}
    (h : ∀ q ∈ ps, p.enumName ≠ q.enumName) (s : ModelSet) :
    after policy (ps.foldl (after policy) s) p = ps.foldl (after policy) (after policy s p) := by
  induction ps generalizing s with
  | nil => rfl
  | cons q ps ih =>
    obtain ⟨hq, hps⟩ := List.forall_mem_cons.1 h
    rw [List.foldl_cons, List.foldl_cons, ih hps, after_comm policy hq]

/-- Patches of different enums, one after the other, change nothing the second time. -/
theorem foldl_after_foldl_after (policy : ConflictPolicy) {ps : List EnumPatch}
    (h : (ps.map EnumPatch.enumName).Nodup) (s : ModelSet) :
    ps.foldl (after policy) (ps.foldl (after policy) s) = ps.foldl (after policy) s := by
  induction ps generalizing s with
  | nil => rfl
  | cons p ps ih =>
    obtain ⟨hp, hps⟩ := List.nodup_cons.1 h
    have hne : ∀ q ∈ ps, p.enumName ≠ q.enumName :=
      fun q hq heq => hp (heq ▸ List.mem_map_of_mem hq)
    rw [List.foldl_cons, List.foldl_cons, after_foldl_comm policy hne, after_after, ih hps]

theorem keeps_foldl_after (policy : ConflictPolicy) (ps : List EnumPatch) (s : ModelSet) :
    s.Keeps (ps.foldl (after policy) s) := by
  induction ps generalizing s with
  | nil => exact .refl s
  | cons p ps ih => exact (keeps_after policy p s).trans (ih _)

/-- Patches of different enums leave everything as it is when they are applied again, and say the
same again. In another order they make the same models, and say the same in that order. -/
theorem applyAll_applyAll_and_perm (policy : ConflictPolicy) {ps : List EnumPatch}
    (h : (ps.map EnumPatch.enumName).Nodup) (s : ModelSet) :
    applyAll policy ps (applyAll policy ps s).1 = applyAll policy ps s ∧
      ∀ qs, qs.Perm ps → (applyAll policy qs s).1 = (applyAll policy ps s).1 ∧
        (applyAll policy qs s).2.Perm (applyAll policy ps s).2 := by
  simp only [applyAll_eq]
  refine ⟨?_, fun qs hperm => ⟨?_, hperm.flatMap_right (skipped s)⟩⟩
  · have hskipped := funext (skipped_of_keeps (keeps_foldl_after policy ps s))
    rw [foldl_after_foldl_after policy h, hskipped]
  · refine (hperm.symm.foldl_eq' ?_ s).symm
    intro p hp q hq t
    by_cases heq : p = q
    · rw [heq]
    · exact after_comm policy (fun hname => heq (List.inj_on_of_nodup_map h hp hq hname)) t

/-- Patches of two schemas, of which one is no enum, and of one that is not there. The first gives
two members of three one name, which is that of a member it does not mention. -/
def letterPatches : List EnumPatch :=
  [⟨"Letter", [⟨"a", "Value2", " in front "⟩, ⟨"c", "Value2", none⟩], none, none⟩,
    ⟨"Pet", [⟨"a", "Dog", none⟩], none, none⟩, ⟨"Word", [], none, none⟩]

theorem applyAll_letterPatches :
    applyAll .patchFirst letterPatches (applyAll .patchFirst letterPatches letterModels).1 =
        applyAll .patchFirst letterPatches letterModels ∧
      ((applyAll .patchFirst letterPatches.reverse letterModels).1 =
          (applyAll .patchFirst letterPatches letterModels).1 ∧
        (applyAll .patchFirst letterPatches.reverse letterModels).2.Perm
          (applyAll .patchFirst letterPatches letterModels).2) ∧
      (applyAll .patchFirst letterPatches letterModels).1.models.map membersOf =
        [[⟨"Value2", ⟨.string, "a"⟩, some "in front"⟩, ⟨"Value22", ⟨.string, "b"⟩, none⟩,
          ⟨"Value23", ⟨.string, "c"⟩, none⟩], []] := by
  have hnames : (letterPatches.map EnumPatch.enumName).Nodup := by decide
  obtain ⟨hagain, hperm⟩ := applyAll_applyAll_and_perm .patchFirst hnames letterModels
  exact ⟨hagain, hperm letterPatches.reverse (List.reverse_perm _), by decide⟩

end EnumPatch
end ApiScribe
