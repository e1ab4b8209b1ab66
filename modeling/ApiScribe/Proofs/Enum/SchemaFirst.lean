import ApiScribe.Proofs.Enum.Patching
import ApiScribe.Proofs.Model.Closed

/-! Patches with the schema first. They fill in comments that are missing and change nothing else:
names stay, since no two members of an enum have one name to begin with, and a comment is filled in
once, by the earliest patch of the enum that has one for the value. -/
namespace ApiScribe

namespace EnumPatch

/-- What a patch has to say about a value: the comment of its first entry for the value without the
blanks around it, if there is more to it than blanks. -/
def comment? (p : EnumPatch) (value : String) : Option String := do
  let e ← entry? p.members value
  let comment := Text.trimmed (e.comment.getD "")
  if comment = "" then none else some comment

/-- The comment of the earliest patch of an enum that has one for a value. -/
def earliestComment? (enumName value : String) (ps : List EnumPatch) : Option String :=
  ps.findSome? fun p => if p.enumName = enumName then p.comment? value else none

theorem earliestComment?_append (enumName value : String) (ps qs : List EnumPatch) :
    earliestComment? enumName value (ps ++ qs) =
      (earliestComment? enumName value ps).or (earliestComment? enumName value qs) :=
  List.findSome?_append

theorem earliestComment?_ne_empty {enumName value comment : String} {ps : List EnumPatch}
    (h : earliestComment? enumName value ps = some comment) : comment ≠ "" := by
  obtain ⟨p, -, hp⟩ := List.exists_of_findSome?_eq_some h
  split at hp
  · obtain ⟨e, -, he⟩ := Option.bind_eq_some_iff.1 hp
    dsimp only at he
    split at he
    · cases he
    · next hne =>
      cases he
      exact hne
  · cases hp

/-- A member with its comment filled in, if it has none. -/
def filled (enumName : String) (ps : List EnumPatch) (e : EnumMember) : EnumMember :=
  if e.comment.getD "" = "" then
    { e with comment := (earliestComment? enumName e.value.value ps).or e.comment }
  else e

@[simp] theorem filled_name (enumName : String) (ps : List EnumPatch) (e : EnumMember) :
    (filled enumName ps e).name = e.name := by
  unfold filled
  split <;> rfl

@[simp] theorem filled_value (enumName : String) (ps : List EnumPatch) (e : EnumMember) :
    (filled enumName ps e).value = e.value := by
  unfold filled
  split <;> rfl

/-- A comment that is filled in once is kept, so patches can be taken one after the other. -/
theorem filled_filled (enumName : String) (ps qs : List EnumPatch) (e : EnumMember) :
    filled enumName qs (filled enumName ps e) = filled enumName (ps ++ qs) e := by
  by_cases hempty : e.comment.getD "" = ""
  · cases hps : earliestComment? enumName e.value.value ps with
    | none => simp [filled, hempty, hps, earliestComment?_append]
    | some comment =>
      simp [filled, hempty, hps, earliestComment?_append, earliestComment?_ne_empty hps]
  · simp [filled, hempty]

theorem earliestComment?_singleton (enumName value : String) (p : EnumPatch) :
    earliestComment? enumName value [p] =
      if p.enumName = enumName then p.comment? value else none := by
  rw [earliestComment?, List.findSome?_singleton]

/-- Merging the entries of a patch fills in the comments that it has for its enum. -/
theorem mergeInto_schemaFirst {p : EnumPatch} {enumName : String} (h : p.enumName = enumName)
    (e : EnumMember) : mergeInto .schemaFirst p.members e = filled enumName [p] e := by
  rw [filled, earliestComment?_singleton, if_pos h, comment?]
  cases hentry : entry? p.members e.value.value with
  | none => simp [mergeInto, hentry]
  | some entry =>
    rw [mergeInto_of_some hentry, Option.bind_eq_bind, Option.bind_some]
    by_cases hempty : e.comment.getD "" = ""
    · by_cases hcomment : Text.trimmed (entry.comment.getD "") = ""
      · simp [merge, hempty, hcomment]
      · simp [merge, hempty, hcomment]
    · simp [merge, hempty]

theorem filled_eq_self {enumName : String} {ps : List EnumPatch} {e : EnumMember}
    (h : earliestComment? enumName e.value.value ps = none) : filled enumName ps e = e := by
  simp [filled, h]

/-- A model with the comments of its members filled in, if it is an enum. -/
def commented (ps : List EnumPatch) (m : Model) : Model :=
  match m.kind with
  | .enum ms => { m with kind := .enum (ms.map (filled m.name ps)) }
  | _ => m

theorem commented_commented (ps qs : List EnumPatch) (m : Model) :
    commented qs (commented ps m) = commented (ps ++ qs) m := by
  obtain ⟨name, description, kind⟩ := m
  cases kind with
  | enum ms => simp [commented, filled_filled]
  | interface ps => rfl
  | aliased t nullable => rfl

/-- A patch of an enum whose members have different names fills in comments. -/
theorem patched_schemaFirst {p : EnumPatch} {m : Model} (hname : m.name = p.enumName)
    (hdistinct : ∀ ms, m.kind = .enum ms → (ms.map EnumMember.name).Nodup) :
    patched .schemaFirst p m = commented [p] m := by
  obtain ⟨name, description, kind⟩ := m
  cases kind with
  | enum ms =>
    have hfilled : ms.map (mergeInto .schemaFirst p.members) = ms.map (filled name [p]) :=
      List.map_congr_left fun e _ => mergeInto_schemaFirst hname.symm e
    have hnames : ((ms.map (filled name [p])).map EnumMember.name).Nodup := by
      simpa [Function.comp_def] using hdistinct ms rfl
    simp only [patched, commented, applyToMembers, hfilled, withUniqueNames_of_nodup hnames]
  | interface ps => rfl
  | aliased t nullable => rfl

theorem commented_eq_self {ps : List EnumPatch} {m : Model}
    (h : ∀ value, earliestComment? m.name value ps = none) : commented ps m = m := by
  obtain ⟨name, description, kind⟩ := m
  cases kind with
  | enum ms =>
    have hself : ∀ e ∈ ms, filled name ps e = e := fun e _ => filled_eq_self (h e.value.value)
    simp only [commented, List.map_congr_left hself, List.map_id']
  | interface ps => rfl
  | aliased t nullable => rfl

/-- Where names are different, the first model of a name is the only one. -/
theorem changeFirst_eq_map {f : Model → Model} {ms : List Model}
    (h : (ms.map Model.name).Nodup) (name : String) :
    changeFirst name f ms = ms.map fun m => if m.name = name then f m else m := by
  induction ms with
  | nil => rfl
  | cons m ms ih =>
    obtain ⟨hm, hms⟩ := List.nodup_cons.1 h
    rw [changeFirst, List.map_cons]
    split
    · next hname =>
      have hother : ∀ d ∈ ms, (if d.name = name then f d else d) = d := fun d hd =>
        if_neg fun hd' => hm (by rw [hname, ← hd']; exact List.mem_map_of_mem hd)
      rw [List.map_congr_left hother, List.map_id']
    · rw [ih hms]

/-- One patch fills in comments, -/
theorem after_schemaFirst {s : ModelSet} (hnames : (s.models.map Model.name).Nodup)
    (hs : s.IsWellNamed) (p : EnumPatch) :
    after .schemaFirst s p = ⟨s.models.map (commented [p])⟩ := by
  rw [after, changeFirst_eq_map hnames]
  refine congrArg ModelSet.mk (List.map_congr_left fun m hm => ?_)
  split
  · next hname => exact patched_schemaFirst hname fun ms hkind => (hs m hm ms hkind).distinct
  · next hname =>
    refine (commented_eq_self fun value => ?_).symm
    rw [earliestComment?_singleton, if_neg (Ne.symm hname)]

/-- and so do all patches of a run. -/
theorem foldl_after_schemaFirst (ps : List EnumPatch) {s : ModelSet}
    (hnames : (s.models.map Model.name).Nodup) (hs : s.IsWellNamed) :
    ps.foldl (after .schemaFirst) s = ⟨s.models.map (commented ps)⟩ := by
  induction ps generalizing s with
  | nil =>
    have hself : ∀ m ∈ s.models, commented [] m = m := fun m _ => commented_eq_self fun _ => rfl
    rw [List.map_congr_left hself, List.map_id']
    rfl
  | cons p ps ih =>
    have hkept := (keeps_after .schemaFirst p s).map_name
    rw [List.foldl_cons, ih (hkept ▸ hnames) (isWellNamed_after .schemaFirst p hs),
      after_schemaFirst hnames hs]
    simp [commented_commented, Function.comp_def]

/-- What patches that come after others may do to a member while the schema comes first. The
comment may change only while it is missing or empty, and it is filled in by the earliest of all
patches `ps` so far that has one. -/
structure IsConserved (enumName : String) (ps : List EnumPatch) (e e' : EnumMember) : Prop where
  name : e'.name = e.name
  value : e'.value = e.value
  kept : e.comment.getD "" ≠ "" → e'.comment = e.comment
  filled : e.comment.getD "" = "" →
    e'.comment = earliestComment? enumName e.value.value ps

end EnumPatch

/-- What patches may do to a model while the schema comes first. -/
inductive Model.Conserves (ps : List EnumPatch) : Model → Model → Prop
  | other {m : Model} (h : m.isEnum = false) : Conserves ps m m
  | enum {name : String} {description : Option String} {ms ms' : List EnumMember}
      (h : List.Forall₂ (EnumPatch.IsConserved name ps) ms ms') :
      Conserves ps ⟨name, description, .enum ms⟩ ⟨name, description, .enum ms'⟩

namespace EnumPatch

/-- A member of a new enum, after some patches and after some more. -/
theorem isConserved_filled (enumName : String) (earlier later : List EnumPatch) {e : EnumMember}
    (h : e.comment = none) :
    IsConserved enumName (earlier ++ later) (filled enumName earlier e)
      (filled enumName (earlier ++ later) e) where
  name := by simp
  value := by simp
  kept := by
    intro hne
    rw [← filled_filled, filled, if_neg hne]
  filled := by
    intro _
    simp [filled, h]

theorem conserves_commented (earlier later : List EnumPatch) {m : Model}
    (h : ∀ ms, m.kind = .enum ms → ∀ e ∈ ms, e.comment = none) :
    Model.Conserves (earlier ++ later) (commented earlier m) (commented (earlier ++ later) m) := by
  obtain ⟨name, description, kind⟩ := m
  cases kind with
  | enum ms =>
    refine .enum (List.forall₂_map_left_iff.2 (List.forall₂_map_right_iff.2 ?_))
    exact List.forall₂_same.2 fun e he => isConserved_filled name earlier later (h ms rfl e he)
  | interface ps => exact .other rfl
  | aliased t nullable => exact .other rfl

/-- The models after calls one after the other, with the schema first in all of them. -/
def afterSchemaFirst (s : ModelSet) (calls : List (List EnumPatch)) : ModelSet :=
  afterCalls s (calls.map (Call.mk .schemaFirst))

/-- Calls are their patches one after the other. -/
theorem afterSchemaFirst_eq (s : ModelSet) (calls : List (List EnumPatch)) :
    afterSchemaFirst s calls = calls.flatten.foldl (after .schemaFirst) s := by
  simp only [afterSchemaFirst, afterCalls, List.foldl_map, applyAll_eq, List.foldl_flatten]

/-- Between any two moments of a run of calls with the schema first, on the models of a document, no
member of an enum changes its name. A comment changes only while it is missing or empty, and then it
is that of the earliest patch that targets the enum and has one for the value of the member. -/
theorem conserves_afterSchemaFirst {document : Value} {s : ModelSet}
    (hdistinct : Schema.HasDistinctNames document) (h : ModelSet.ofDocument document = .ok s)
    (earlier later : List (List EnumPatch)) :
    List.Forall₂ (Model.Conserves (earlier ++ later).flatten)
      (afterSchemaFirst s earlier).models (afterSchemaFirst s (earlier ++ later)).models := by
  have hnames := ModelSet.nodup_names hdistinct h
  have hs := ModelSet.isWellNamed_ofDocument h
  rw [afterSchemaFirst_eq, afterSchemaFirst_eq, foldl_after_schemaFirst _ hnames hs,
    foldl_after_schemaFirst _ hnames hs, List.flatten_append, List.forall₂_map_left_iff,
    List.forall₂_map_right_iff, List.forall₂_same]
  intro m hm
  refine conserves_commented earlier.flatten later.flatten fun ms hkind e he => ?_
  obtain ⟨kind, vs, hmembers⟩ := ModelSet.exists_members_of_mem h hm hkind
  exact (Model.kind_and_comment_of_members hmembers e he).2

/-- Calls with a blank comment in front of others, two comments in one patch and in two, names that
are suggested, and a patch of another schema. -/
def commentCalls : List (List EnumPatch) :=
  [[⟨"Letter", [⟨"a", "First", " "⟩, ⟨"a", none, "hidden"⟩, ⟨"b", "First", " second "⟩],
        none, none⟩,
      ⟨"Pet", [⟨"c", none, "dog"⟩], none, none⟩],
    [⟨"Letter", [⟨"a", none, "the first"⟩, ⟨"b", none, "late"⟩], none, none⟩]]

theorem conserves_commentCalls :
    List.Forall₂ (Model.Conserves commentCalls.flatten)
        (afterSchemaFirst letterModels (commentCalls.take 1)).models
        (afterSchemaFirst letterModels commentCalls).models ∧
      (afterSchemaFirst letterModels commentCalls).models.map membersOf =
        [[⟨"Value1", ⟨.string, "a"⟩, some "the first"⟩,
          ⟨"Value2", ⟨.string, "b"⟩, some "second"⟩, ⟨"Value3", ⟨.string, "c"⟩, none⟩], []] := by
  have hdistinct : Schema.HasDistinctNames letterDocument := by decide
  exact ⟨conserves_afterSchemaFirst hdistinct ofDocument_letterDocument (commentCalls.take 1)
    (commentCalls.drop 1), by decide⟩

end EnumPatch
end ApiScribe
