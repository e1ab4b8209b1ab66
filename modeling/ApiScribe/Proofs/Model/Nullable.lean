import Mathlib.Logic.Relation
import ApiScribe.Model.Nullable
import ApiScribe.Proofs.Reference

/-! Null through references and compositions. The search for a schema that is marked comes to
exactly the schemas that references and compositions lead to. It follows each reference once, and a
reference that it passes over hides nothing: what lies behind it is looked at where it was met
first. -/
namespace ApiScribe
namespace Nullable

/-- One step from a schema: along its reference, unless it is avoided, or else to a part. -/
inductive Leads (document : Value) (avoided : List String) : Value → Value → Prop
  | reference {m : List (Scalar × Value)} {ref : String} {target : Value}
      (href : (Value.field m "$ref").str? = some ref) (hnew : ref ∉ avoided)
      (htarget : Reference.resolve document ref = .ok target) :
      Leads document avoided (.map m) target
  | part {m : List (Scalar × Value)} {key : String} {parts : List Value} {part : Value}
      (hno : (Value.field m "$ref").str? = none) (hkey : key ∈ compositionKeys)
      (hparts : Value.field m key = .list parts) (hpart : part ∈ parts) :
      Leads document avoided (.map m) part

/-- Any number of steps. -/
def Reaches (document : Value) (avoided : List String) : Value → Value → Prop :=
  Relation.ReflTransGen (Leads document avoided)

/-- A schema without a reference that is marked. -/
def SaysNull (v : Value) : Prop :=
  ∃ m, v = .map m ∧ (Value.field m "$ref").str? = none ∧ isMarked m = true

/-- A schema that reaches one that is marked. -/
def MayBeNull (document : Value) (avoided : List String) (v : Value) : Prop :=
  ∃ w, Reaches document avoided v w ∧ SaysNull w

variable {document : Value} {avoided : List String}

theorem SaysNull.mayBeNull {v : Value} (h : SaysNull v) : MayBeNull document avoided v :=
  ⟨v, Relation.ReflTransGen.refl, h⟩

theorem MayBeNull.head {v u : Value} (h : MayBeNull document avoided u)
    (hstep : Leads document avoided v u) : MayBeNull document avoided v := by
  obtain ⟨w, hreach, hw⟩ := h
  exact ⟨w, hreach.head hstep, hw⟩

/-- A schema may be null if it says so, or if a step leads to one that may be null. -/
theorem mayBeNull_iff {v : Value} : MayBeNull document avoided v ↔
    SaysNull v ∨ ∃ u, Leads document avoided v u ∧ MayBeNull document avoided u := by
  constructor
  · rintro ⟨w, hreach, hw⟩
    rcases Relation.ReflTransGen.cases_head hreach with rfl | ⟨u, hstep, hrest⟩
    · exact .inl hw
    · exact .inr ⟨u, hstep, w, hrest, hw⟩
  · rintro (h | ⟨u, hstep, h⟩)
    · exact h.mayBeNull
    · exact h.head hstep

theorem not_mayBeNull_of_not_map {v : Value} (h : ∀ m, v ≠ .map m) :
    ¬ MayBeNull document avoided v := by
  rw [mayBeNull_iff]
  rintro (⟨m, rfl, -⟩ | ⟨u, hstep, -⟩)
  · exact h m rfl
  · cases hstep
    · exact h _ rfl
    · exact h _ rfl

/-- A schema with a reference may be null if the reference is followed to one that may be. -/
theorem mayBeNull_reference {m : List (Scalar × Value)} {ref : String}
    (href : (Value.field m "$ref").str? = some ref) :
    MayBeNull document avoided (.map m) ↔ ref ∉ avoided ∧
      ∃ target, Reference.resolve document ref = .ok target ∧
        MayBeNull document avoided target := by
  rw [mayBeNull_iff]
  constructor
  · rintro (⟨m', hm, hno, -⟩ | ⟨u, hstep, hu⟩)
    · cases hm
      rw [href] at hno
      cases hno
    · cases hstep with
      | reference href' hnew htarget =>
        rw [href] at href'
        cases href'
        exact ⟨hnew, u, htarget, hu⟩
      | part hno =>
        rw [href] at hno
        cases hno
  · rintro ⟨hnew, target, htarget, h⟩
    exact .inr ⟨target, .reference href hnew htarget, h⟩

/-- A schema without a reference may be null if it is marked or if one of its parts may be. -/
theorem mayBeNull_composition {m : List (Scalar × Value)}
    (hno : (Value.field m "$ref").str? = none) :
    MayBeNull document avoided (.map m) ↔ isMarked m = true ∨ ∃ key ∈ compositionKeys,
      ∃ parts, Value.field m key = .list parts ∧
        ∃ part ∈ parts, MayBeNull document avoided part := by
  rw [mayBeNull_iff]
  constructor
  · rintro (⟨m', hm, -, hmarked⟩ | ⟨u, hstep, hu⟩)
    · cases hm
      exact .inl hmarked
    · cases hstep with
      | reference href =>
        rw [hno] at href
        cases href
      | part _ hkey hparts hpart => exact .inr ⟨_, hkey, _, hparts, u, hpart, hu⟩
  · rintro (hmarked | ⟨key, hkey, parts, hparts, part, hpart, h⟩)
    · exact .inl ⟨m, rfl, hno, hmarked⟩
    · exact .inr ⟨part, .part hno hkey hparts hpart, h⟩

theorem Leads.of_avoids_more {ref : String} {v u : Value}
    (h : Leads document (ref :: avoided) v u) : Leads document avoided v u := by
  cases h with
  | reference href hnew htarget =>
    exact .reference href (fun hmem => hnew (List.mem_cons_of_mem ref hmem)) htarget
  | part hno hkey hparts hpart => exact .part hno hkey hparts hpart

theorem MayBeNull.of_avoids_more {ref : String} {v : Value}
    (h : MayBeNull document (ref :: avoided) v) : MayBeNull document avoided v := by
  obtain ⟨w, hreach, hw⟩ := h
  exact ⟨w, Relation.ReflTransGen.mono (fun _ _ => Leads.of_avoids_more) _ _ hreach, hw⟩

/-- Nothing is hidden by a reference once it has been followed: what is reached past it is reached
from its target without it. -/
theorem MayBeNull.avoid {v : Value} (ref : String) (h : MayBeNull document avoided v) :
    MayBeNull document (ref :: avoided) v ∨ ∃ target,
      Reference.resolve document ref = .ok target ∧
        MayBeNull document (ref :: avoided) target := by
  obtain ⟨w, hreach, hw⟩ := h
  induction hreach using Relation.ReflTransGen.head_induction_on with
  | refl => exact .inl hw.mayBeNull
  | head hstep _ ih =>
    rcases ih with ih | ih
    · cases hstep with
      | @reference m ref' target href hnew htarget =>
        by_cases heq : ref' = ref
        · rw [heq] at htarget
          exact .inr ⟨_, htarget, ih⟩
        · refine .inl (ih.head (.reference href ?_ htarget))
          rw [List.mem_cons, not_or]
          exact ⟨heq, hnew⟩
      | part hno hkey hparts hpart => exact .inl (ih.head (.part hno hkey hparts hpart))
    · exact .inr ih

/-- What a task leads to may be null. -/
def Task.MayBeNull (document : Value) (avoided : List String) : Task → Prop
  | .schema v => Nullable.MayBeNull document avoided v
  | .parts m key => ∃ parts, Value.field m key = .list parts ∧
      ∃ part ∈ parts, Nullable.MayBeNull document avoided part

/-- Something among tasks may be null. -/
def AnyNull (document : Value) (avoided : List String) (todo : List Task) : Prop :=
  ∃ t ∈ todo, t.MayBeNull document avoided

theorem anyNull_cons {t : Task} {todo : List Task} :
    AnyNull document avoided (t :: todo) ↔
      t.MayBeNull document avoided ∨ AnyNull document avoided todo := by
  simp [AnyNull]

theorem anyNull_append {ts todo : List Task} :
    AnyNull document avoided (ts ++ todo) ↔
      AnyNull document avoided ts ∨ AnyNull document avoided todo := by
  simp [AnyNull, or_and_right, exists_or]

theorem anyNull_parts {m : List (Scalar × Value)} {key : String} {parts : List Value}
    (h : partsUnder m key = .ok parts) :
    AnyNull document avoided (parts.map Task.schema) ↔
      (Task.parts m key).MayBeNull document avoided := by
  unfold partsUnder at h
  split at h
  · next hfield =>
    cases h
    simp [AnyNull, Task.MayBeNull, hfield]
  · next hfield =>
    split at h
    · cases h
    · cases h
      simp only [AnyNull, Task.MayBeNull, List.map_nil, List.not_mem_nil, false_and,
        exists_false, false_iff]
      rintro ⟨parts, hparts, -⟩
      exact hfield parts hparts

theorem anyNull_tasksOf {m : List (Scalar × Value)} (hno : (Value.field m "$ref").str? = none)
    (hm : ¬ isMarked m = true) :
    AnyNull document avoided (tasksOf m) ↔ MayBeNull document avoided (.map m) := by
  rw [mayBeNull_composition hno]
  simp [AnyNull, tasksOf, Task.MayBeNull, hm]

/-- With a reference avoided from now on, tasks and its target may be null as the tasks could. -/
theorem anyNull_avoid (ref : String) {todo : List Task}
    (h : AnyNull document avoided todo) : AnyNull document (ref :: avoided) todo ∨
      ∃ target, Reference.resolve document ref = .ok target ∧
        MayBeNull document (ref :: avoided) target := by
  obtain ⟨t, ht, hnull⟩ := h
  cases t with
  | schema v =>
    rcases hnull.avoid ref with hnull | hnull
    · exact .inl ⟨_, ht, hnull⟩
    · exact .inr hnull
  | parts m key =>
    obtain ⟨parts, hparts, part, hpart, hnull⟩ := hnull
    rcases hnull.avoid ref with hnull | hnull
    · exact .inl ⟨_, ht, parts, hparts, part, hpart, hnull⟩
    · exact .inr hnull

theorem AnyNull.of_avoids_more {ref : String} {todo : List Task}
    (h : AnyNull document (ref :: avoided) todo) : AnyNull document avoided todo := by
  obtain ⟨t, ht, hnull⟩ := h
  refine ⟨t, ht, ?_⟩
  cases t with
  | schema v => exact MayBeNull.of_avoids_more hnull
  | parts m key =>
    obtain ⟨parts, hparts, part, hpart, hnull⟩ := hnull
    exact ⟨parts, hparts, part, hpart, hnull.of_avoids_more⟩

section Followed
variable {m : List (Scalar × Value)} {ref : String} {todo : List Task}
  (href : (Value.field m "$ref").str? = some ref)
include href

theorem anyNull_avoided (hmem : ref ∈ avoided) :
    AnyNull document avoided (.schema (.map m) :: todo) ↔ AnyNull document avoided todo := by
  have hno : ¬ (Task.schema (.map m)).MayBeNull document avoided :=
    fun hnull => ((mayBeNull_reference href).1 hnull).1 hmem
  rw [anyNull_cons, or_iff_right hno]

/-- With its target among the tasks, a reference can be avoided from now on. -/
theorem anyNull_followed (hnew : ref ∉ avoided) {target : Value}
    (htarget : Reference.resolve document ref = .ok target) :
    AnyNull document avoided (.schema (.map m) :: todo) ↔
      AnyNull document (ref :: avoided) (.schema target :: todo) := by
  have hself : (Task.schema (.map m)).MayBeNull document avoided ↔
      MayBeNull document avoided target := by
    refine (mayBeNull_reference href).trans ⟨?_, fun hnull => ⟨hnew, target, htarget, hnull⟩⟩
    rintro ⟨-, target', htarget', hnull⟩
    cases htarget.symm.trans htarget'
    exact hnull
  have htasks : AnyNull document avoided (.schema (.map m) :: todo) ↔
      AnyNull document avoided (.schema target :: todo) := by
    rw [anyNull_cons, hself, anyNull_cons]
    rfl
  rw [htasks]
  refine ⟨fun hany => ?_, AnyNull.of_avoids_more⟩
  rcases anyNull_avoid ref hany with hnull | ⟨target', htarget', hnull⟩
  · exact hnull
  · cases htarget.symm.trans htarget'
    exact anyNull_cons.2 (.inl hnull)

/-- A reference that leads nowhere can be avoided from now on. -/
theorem anyNull_dangling {f : Failure}
    (hfault : Reference.resolve document ref = .error f) :
    AnyNull document avoided (.schema (.map m) :: todo) ↔
      AnyNull document (ref :: avoided) todo := by
  have hno : ¬ (Task.schema (.map m)).MayBeNull document avoided := by
    intro hnull
    obtain ⟨-, target, htarget, -⟩ := (mayBeNull_reference href).1 hnull
    cases hfault.symm.trans htarget
  rw [anyNull_cons, or_iff_right hno]
  refine ⟨fun hany => ?_, AnyNull.of_avoids_more⟩
  rcases anyNull_avoid ref hany with hnull | ⟨target, htarget, -⟩
  · exact hnull
  · cases hfault.symm.trans htarget

end Followed

/-- A search that ends finds null exactly when its tasks lead to it past no reference followed
before. -/
theorem search_eq_ok {schema : Value} {seen : List String} {todo : List Task}
    {h : ∀ t ∈ todo, ∀ r ∈ t.references, r ∈ known document schema} {b : Bool}
    (hb : search document schema seen todo h = .ok b) :
    b = true ↔ AnyNull document seen todo := by
  fun_induction search document schema seen todo h with
  | case1 =>
    cases hb
    simp [AnyNull]
  | case2 => cases hb
  | case3 seen m key todo _ parts hp _ _ ih =>
    rw [ih hb, anyNull_append, anyNull_cons, anyNull_parts hp]
  | case4 seen m todo _ _ ref hv hseen _ _ ih => rw [ih hb, anyNull_avoided hv hseen]
  | case5 seen m todo _ _ ref hv hnew _ target ht _ ih =>
    rw [ih hb, anyNull_followed hv hnew ht]
  | case6 seen m todo _ _ ref hv hnew _ f ht _ ih => rw [ih hb, anyNull_dangling hv ht]
  | case7 => cases hb
  | case8 seen m todo _ _ hv hm =>
    cases hb
    have hnull : (Task.schema (.map m)).MayBeNull document seen :=
      (mayBeNull_composition hv).2 (.inl hm)
    simp [anyNull_cons, hnull]
  | case9 seen m todo _ _ hv hm _ _ ih =>
    rw [ih hb, anyNull_append, anyNull_cons, anyNull_tasksOf hv hm]
    rfl
  | case10 => cases hb
  | case11 seen v todo _ hmap _ _ _ ih =>
    have hno : ¬ (Task.schema v).MayBeNull document seen := by
      refine not_mayBeNull_of_not_map ?_
      rintro m rfl
      exact hmap m _ rfl .rfl
    rw [ih hb, anyNull_cons, or_iff_right hno]

/-- Only schemas that are maps can be null. -/
theorem canBeNull_ne_true_of_not_map {v : Value} (h : ∀ m, v ≠ .map m) :
    canBeNull document v ≠ .ok true := by
  intro hnull
  obtain ⟨t, ht, hmay⟩ := (search_eq_ok hnull).1 rfl
  rw [List.mem_singleton.1 ht] at hmay
  exact not_mayBeNull_of_not_map h hmay

/-- A schema that the search can read: it does not contain itself, its reference can be followed
or leads nowhere, and without a reference it lists the parts of its compositions. -/
structure IsReadable (v : Value) : Prop where
  ends : v ≠ .endless
  reference : ∀ m ref, v = .map m → (Value.field m "$ref").str? = some ref →
    Reference.IsCountable ref
  lists : ∀ m, v = .map m → (Value.field m "$ref").str? = none → ∀ key ∈ compositionKeys,
    ∀ w, Entries.get? m (.str key) = some w → ∃ parts, w = .list parts

/-- Everything that a schema reaches can be read. -/
def ReachesReadable (document v : Value) : Prop := ∀ w, Reaches document [] v w → IsReadable w

theorem ReachesReadable.head {v u : Value} (h : ReachesReadable document v)
    (hstep : Leads document [] v u) : ReachesReadable document u :=
  fun w hreach => h w (hreach.head hstep)

/-- What a task leads to can be read. -/
def Task.IsReadable (document : Value) : Task → Prop
  | .schema v => ReachesReadable document v
  | .parts m key => (∀ w, Entries.get? m (.str key) = some w → ∃ parts, w = .list parts) ∧
      ∀ parts, Value.field m key = .list parts → ∀ part ∈ parts, ReachesReadable document part

theorem mem_known_of_schema {document schema : Value} :
    ∀ t ∈ [Task.schema schema], ∀ r ∈ t.references, r ∈ known document schema := by
  intro t ht r hr
  rw [List.mem_singleton.1 ht] at hr
  exact List.mem_append_right _ hr

/-! The ways in which a search goes on. What is left to do is known in each of them, so the rest of
the search is stated for every proof of that. -/
section Steps
variable {schema : Value} {m : List (Scalar × Value)} {key ref : String} {seen : List String}
  {todo : List Task} {b : Outcome Bool}

theorem search_parts {parts : List Value}
    {h : ∀ t ∈ Task.parts m key :: todo, ∀ r ∈ t.references, r ∈ known document schema}
    (hparts : partsUnder m key = .ok parts)
    (hrest : ∀ h', search document schema seen (parts.map Task.schema ++ todo) h' = b) :
    search document schema seen (.parts m key :: todo) h = b := by
  rw [search]
  split
  · next e hp => cases hparts.symm.trans hp
  · next parts' hp =>
    cases hparts.symm.trans hp
    exact hrest _

theorem search_parts_error {e : Failure}
    {h : ∀ t ∈ Task.parts m key :: todo, ∀ r ∈ t.references, r ∈ known document schema}
    (hparts : partsUnder m key = .error e) :
    search document schema seen (.parts m key :: todo) h = .error e := by
  rw [search]
  split
  · next e' hp =>
    cases hparts.symm.trans hp
    rfl
  · next parts hp => cases hparts.symm.trans hp

theorem search_other {v : Value}
    {h : ∀ t ∈ Task.schema v :: todo, ∀ r ∈ t.references, r ∈ known document schema}
    (hmap : ∀ m, v ≠ .map m) (hendless : v ≠ .endless)
    (hrest : ∀ h', search document schema seen todo h' = b) :
    search document schema seen (.schema v :: todo) h = b := by
  rw [search]
  · exact hrest _
  · exact fun m _ hv _ => hmap m hv
  · exact fun _ hv _ => hendless hv

variable {h : ∀ t ∈ Task.schema (.map m) :: todo, ∀ r ∈ t.references, r ∈ known document schema}

theorem search_seen (href : (Value.field m "$ref").str? = some ref) (hseen : ref ∈ seen)
    (hrest : ∀ h', search document schema seen todo h' = b) :
    search document schema seen (.schema (.map m) :: todo) h = b := by
  rw [search]
  split
  · next ref' href' =>
    cases href.symm.trans href'
    rw [dif_pos hseen]
    exact hrest _
  · next hnone => cases href.symm.trans hnone

/-- A search that comes to a reference goes on from where it leads, past it, or nowhere. -/
theorem search_reference (href : (Value.field m "$ref").str? = some ref) (hnew : ref ∉ seen)
    (hok : ∀ target, Reference.resolve document ref = .ok target →
      ∀ h', search document schema (ref :: seen) (.schema target :: todo) h' = b)
    (hfault : ∀ f, Reference.resolve document ref = .error (.fault f) →
      ∀ h', search document schema (ref :: seen) todo h' = b)
    (herror : ∀ e, Reference.resolve document ref = .error e → (∀ f, e ≠ .fault f) →
      .error e = b) :
    search document schema seen (.schema (.map m) :: todo) h = b := by
  rw [search]
  split
  · next ref' href' =>
    cases href.symm.trans href'
    rw [dif_neg hnew]
    split
    · next target hr => exact hok target hr _
    · next f hr => exact hfault f hr _
    · next e hother hr => exact herror e hr hother
  · next hnone => cases href.symm.trans hnone

theorem search_target {target : Value} (href : (Value.field m "$ref").str? = some ref)
    (hnew : ref ∉ seen) (hr : Reference.resolve document ref = .ok target)
    (hrest : ∀ h', search document schema (ref :: seen) (.schema target :: todo) h' = b) :
    search document schema seen (.schema (.map m) :: todo) h = b := by
  refine search_reference href hnew (fun target' hr' => ?_) (fun f hr' => ?_) fun e hr' => ?_
  · cases hr.symm.trans hr'
    exact hrest
  · cases hr.symm.trans hr'
  · cases hr.symm.trans hr'

theorem search_fault {f : Fault} (href : (Value.field m "$ref").str? = some ref)
    (hnew : ref ∉ seen) (hr : Reference.resolve document ref = .error (.fault f))
    (hrest : ∀ h', search document schema (ref :: seen) todo h' = b) :
    search document schema seen (.schema (.map m) :: todo) h = b := by
  refine search_reference href hnew (fun target hr' => ?_) (fun _ _ => hrest) fun e hr' hother => ?_
  · cases hr.symm.trans hr'
  · cases hr.symm.trans hr'
    exact absurd rfl (hother f)

theorem search_error {e : Failure} (href : (Value.field m "$ref").str? = some ref)
    (hnew : ref ∉ seen) (hr : Reference.resolve document ref = .error e)
    (hother : ∀ f, e ≠ .fault f) :
    search document schema seen (.schema (.map m) :: todo) h = .error e := by
  refine search_reference href hnew (fun target hr' => ?_) (fun f hr' => ?_) fun e' hr' _ => ?_
  · cases hr.symm.trans hr'
  · cases hr.symm.trans hr'
    exact absurd rfl (hother f)
  · cases hr.symm.trans hr'
    rfl

theorem search_marked (href : (Value.field m "$ref").str? = none) (hmarked : isMarked m = true) :
    search document schema seen (.schema (.map m) :: todo) h = .ok true := by
  rw [search]
  split
  · next ref href' => cases href.symm.trans href'
  · rw [if_pos hmarked]

theorem search_unmarked (href : (Value.field m "$ref").str? = none) (hmarked : ¬ isMarked m = true)
    (hrest : ∀ h', search document schema seen (tasksOf m ++ todo) h' = b) :
    search document schema seen (.schema (.map m) :: todo) h = b := by
  rw [search]
  split
  · next ref href' => cases href.symm.trans href'
  · rw [if_neg hmarked]
    exact hrest _

end Steps

theorem search_parts_of_none {m : List (Scalar × Value)} {schema : Value} {seen keys : List String}
    (hnone : ∀ key ∈ keys, Entries.get? m (.str key) = none)
    (h : ∀ t ∈ keys.map (Task.parts m), ∀ r ∈ t.references, r ∈ known document schema) :
    search document schema seen (keys.map (Task.parts m)) h = .ok false := by
  induction keys with
  | nil =>
    show search document schema seen [] h = _
    rw [search]
  | cons key keys ih =>
    obtain ⟨hkey, hkeys⟩ := List.forall_mem_cons.1 hnone
    have hparts : partsUnder m key = .ok [] := by
      rw [partsUnder, Value.field, hkey]
      rfl
    exact search_parts hparts fun _ => ih hkeys _

/-- What is no reference and no composition may be null if it is marked itself. -/
theorem canBeNull_of_plain (document : Value) {m : List (Scalar × Value)}
    (href : Entries.get? m (.str "$ref") = none)
    (hparts : ∀ key ∈ compositionKeys, Entries.get? m (.str key) = none) :
    canBeNull document (.map m) = .ok (isMarked m) := by
  have hno : (Value.field m "$ref").str? = none := by
    rw [Value.field, href]
    rfl
  show search document (.map m) [] [.schema (.map m)] mem_known_of_schema = _
  cases hmarked : isMarked m with
  | true => exact search_marked hno hmarked
  | false => exact search_unmarked hno (by simp [hmarked]) fun _ => search_parts_of_none hparts _

/-- A document with a list of nothing. -/
def listDocument : Value := .record [("A", .list [])]

end Nullable
end ApiScribe
