import Mathlib.Data.List.Sort
import Mathlib.Data.String.Basic
import ApiScribe.Proofs.Endpoint.Alike
import ApiScribe.Proofs.Entries
import ApiScribe.Proofs.Location
import ApiScribe.Proofs.Schema.Alike
import ApiScribe.Proofs.Value.Sorting

/-! Maps whose entries stand in another order. Maps of texts are rearranged if they hold related
values under the same keys; looking a key up does not tell them apart, and neither does sorting their
entries by key. -/
namespace ApiScribe
namespace Value

/-- A value itself, or a map of different texts that holds related values under the same keys. -/
inductive Rearranged (R : String → Value → Value → Prop) : Value → Value → Prop
  | same (v : Value) : Rearranged R v v
  | record {m n : Entries String Value} (hm : m.keys.Nodup) (hn : n.keys.Nodup)
      (h : ∀ key, Option.Rel (R key) (m.get? key) (n.get? key)) :
      Rearranged R (.record m) (.record n)

variable {R : String → Value → Value → Prop} {v w : Value}

/-- What is true of a value and itself, and of rearranged maps, is true of rearranged values. -/
theorem Rearranged.elim {P : Value → Value → Prop} (h : Rearranged R v w) (hsame : ∀ v, P v v)
    (hmap : ∀ m n, Rearranged R (.map m) (.map n) → P (.map m) (.map n)) : P v w := by
  cases h with
  | same => exact hsame v
  | record hm hn h => exact hmap _ _ (.record hm hn h)

theorem Rearranged.mono {S : String → Value → Value → Prop} (h : Rearranged R v w)
    (himp : ∀ key v w, R key v w → S key v w) : Rearranged S v w := by
  cases h with
  | same => exact .same v
  | record hm hn h => exact .record hm hn fun key => Outcome.rel_imp (h key) (himp key)

theorem Rearranged.symm (h : Rearranged R v w) (hsymm : ∀ key v w, R key v w → R key w v) :
    Rearranged R w v := by
  cases h with
  | same => exact .same v
  | record hm hn h => exact .record hn hm fun key => Outcome.rel_flip (h key) (hsymm key)

/-- Entries that stand in another order, with related values. -/
theorem rearranged_of_perm {m n o : Entries String Value} (hm : m.keys.Nodup) (hperm : m.Perm n)
    (h : List.Forall₂ (fun p q => p.1 = q.1 ∧ R p.1 p.2 q.2) n o) :
    Rearranged R (.record m) (.record o) := by
  have hkeys : n.keys = o.keys := by
    rw [← List.forall₂_eq_eq_eq, Entries.keys, Entries.keys, List.forall₂_map_left_iff,
      List.forall₂_map_right_iff]
    exact h.imp fun _ _ => And.left
  refine .record hm (hkeys ▸ (hperm.map Prod.fst).nodup_iff.1 hm) fun key => ?_
  rw [Entries.get?_eq_of_perm hm hperm]
  clear hkeys hperm hm
  induction h with
  | nil => exact .none
  | @cons p q n o hpq _ ih =>
    rw [Entries.get?, Entries.get?, List.find?_cons, List.find?_cons, ← hpq.1]
    cases hkey : p.1 == key with
    | true =>
      obtain rfl := beq_iff_eq.1 hkey
      exact .some hpq.2
    | false => exact ih

theorem get?_record (m : Entries String Value) (key : String) :
    Entries.get? (m.map fun p => (Scalar.str p.1, p.2)) (.str key) = m.get? key := by
  induction m with
  | nil => rfl
  | cons p m ih =>
    rw [List.map_cons, Entries.get?, Entries.get?, List.find?_cons, List.find?_cons]
    cases hp : p.1 == key with
    | true => rw [show (Scalar.str p.1 == .str key) = true from hp]; rfl
    | false =>
      rw [show (Scalar.str p.1 == .str key) = false from hp]
      exact ih

/-- Rearranged maps hold related values under each key. -/
theorem Rearranged.get? {m n : List (Scalar × Value)} (h : Rearranged R (.map m) (.map n))
    (hrefl : ∀ key v, R key v v) (key : String) :
    Option.Rel (R key) (Entries.get? m (.str key)) (Entries.get? n (.str key)) := by
  generalize hv : Value.map m = v, hw : Value.map n = w at h
  cases h with
  | same =>
    cases hv
    cases hw
    exact Outcome.rel_refl (hrefl key) _
  | record _ _ h =>
    cases hv
    cases hw
    rw [get?_record, get?_record]
    exact h key

theorem Rearranged.field? (h : Rearranged R v w) (hrefl : ∀ key v, R key v v) (key : String) :
    Option.Rel (R key) (v.field? key) (w.field? key) := by
  cases h with
  | same =>
    exact Outcome.rel_refl (hrefl key) _
  | record hm hn h => exact Rearranged.get? (.record hm hn h) hrefl key

theorem Rearranged.field {m n : List (Scalar × Value)} (h : Rearranged R (.map m) (.map n))
    (hrefl : ∀ key v, R key v v) (key : String) : R key (field m key) (field n key) :=
  alike_getD (hrefl key .null) (h.get? hrefl key)

/-- Maps with the same keys have their keys in common, in some order. -/
theorem keys_perm {m n : Entries String Value} (hm : m.keys.Nodup) (hn : n.keys.Nodup)
    (h : ∀ key, Option.Rel (R key) (m.get? key) (n.get? key)) : m.keys.Perm n.keys := by
  refine (List.perm_ext_iff_of_nodup hm hn).2 fun key => ?_
  rw [← Entries.isSome_get?, ← Entries.isSome_get?, Outcome.isSome_eq_of_rel (h key)]

/-- Rearranged values look alike, whatever their items are related by. -/
theorem Rearranged.alike {S : Value → Value → Prop} (h : Rearranged R v w) (hrefl : ∀ v, S v v) :
    Alike S v w := by
  cases h with
  | same => exact .refl hrefl v
  | record hm hn h =>
    refine .map ?_
    have hlength := (keys_perm hm hn h).length_eq
    simpa [Entries.keys] using hlength

/-- Whether a key stands before another. -/
def keyLe {α : Type} (p q : String × α) : Bool := decide (p.1 ≤ q.1)

/-- Things with texts for keys are sorted by those texts. -/
theorem sortOn_str {α : Type} (m : List (String × α)) :
    Scalar.sortOn (fun p => .str p.1) m = .ok (m.mergeSort keyLe) := by
  have hranked : (m.mapM fun p => (Scalar.rank? (.str p.1)).map fun r => (r, p)) =
      some (m.map fun p => (Rank.text p.1, p)) := by
    induction m with
    | nil => rfl
    | cons p m ih =>
      rw [List.mapM_cons, ih]
      rfl
  have hsort : ((m.map fun p => (Rank.text p.1, p)).mergeSort fun q r => q.1.le r.1).map (·.2) =
      m.mergeSort keyLe := by
    rw [← List.map_mergeSort (f := fun p : String × α => (Rank.text p.1, p)) (r := keyLe),
      List.map_map]
    · exact List.map_id _
    · intro p _ q _
      show decide (p.1 ≤ q.1) = !decide (q.1 < p.1)
      rw [Bool.eq_iff_iff, decide_eq_true_eq, Bool.not_eq_true', decide_eq_false_iff_not, not_lt]
  have hcomparable : ∀ r : String, Scalar.areComparable (.text r)
      ((m.map fun p => (Rank.text p.1, p)).map (·.1)) = true := by
    intro r
    simp [Scalar.areComparable, Rank.lt?]
  unfold Scalar.sortOn
  split
  · next hlength =>
    cases m with
    | nil => rw [List.mergeSort_nil]
    | cons p m =>
      obtain rfl : m = [] := List.eq_nil_of_length_eq_zero (by simpa using hlength)
      rw [List.mergeSort_singleton]
  · next hlength =>
    rw [hranked, ← hsort]
    cases m with
    | nil => exact absurd (Nat.zero_le 1) hlength
    | cons p m =>
      show (if Scalar.areComparable (.text p.1) _ = true then _ else _) = _
      rw [if_pos (hcomparable p.1)]
      rfl

theorem pairwise_keys_mergeSort {α : Type} (m : List (String × α)) :
    ((m.mergeSort keyLe).map (·.1)).Pairwise (· ≤ ·) := by
  rw [List.pairwise_map]
  exact pairwise_mergeSort_key Prod.fst (fun _ _ => decide_eq_true_iff) m

/-- Sorted by key, rearranged entries stand side by side. -/
theorem mergeSort_alike {m n : Entries String Value} (hm : m.keys.Nodup) (hn : n.keys.Nodup)
    (h : ∀ key, Option.Rel (R key) (m.get? key) (n.get? key)) :
    List.Forall₂ (fun p q => p.1 = q.1 ∧ R p.1 p.2 q.2) (m.mergeSort keyLe) (n.mergeSort keyLe) := by
  have hkeys : (m.mergeSort keyLe).map (·.1) = (n.mergeSort keyLe).map (·.1) := by
    refine List.Perm.eq_of_pairwise' (pairwise_keys_mergeSort m) (pairwise_keys_mergeSort n) ?_
    exact (((List.mergeSort_perm m keyLe).map _).trans (keys_perm hm hn h)).trans
      ((List.mergeSort_perm n keyLe).map _).symm
  have hlength : (m.mergeSort keyLe).length = (n.mergeSort keyLe).length := by
    simpa using congrArg List.length hkeys
  refine List.forall₂_iff_get.2 ⟨hlength, fun i hi hj => ?_⟩
  have hkey : ((m.mergeSort keyLe).get ⟨i, hi⟩).1 = ((n.mergeSort keyLe).get ⟨i, hj⟩).1 := by
    have hget : ((m.mergeSort keyLe).map (·.1))[i]? = ((n.mergeSort keyLe).map (·.1))[i]? :=
      congrArg (·[i]?) hkeys
    rw [List.getElem?_map, List.getElem?_map, List.getElem?_eq_getElem hi,
      List.getElem?_eq_getElem hj] at hget
    exact Option.some.inj hget
  refine ⟨hkey, ?_⟩
  have hp := Entries.get?_eq_some_of_mem hm
    ((List.mergeSort_perm m keyLe).mem_iff.1 (List.get_mem (m.mergeSort keyLe) ⟨i, hi⟩))
  have hq := Entries.get?_eq_some_of_mem hn
    ((List.mergeSort_perm n keyLe).mem_iff.1 (List.get_mem (n.mergeSort keyLe) ⟨i, hj⟩))
  have hrel := h ((m.mergeSort keyLe).get ⟨i, hi⟩).1
  rw [hp, hkey, hq] at hrel
  rw [hkey]
  exact Option.rel_some_some.1 hrel

/-- Sorted by key, the entries of rearranged maps stand side by side. -/
theorem Rearranged.sortOn {S : Value → Value → Prop} {m n : List (Scalar × Value)}
    (h : Rearranged R (.map m) (.map n)) (hrefl : ∀ v, S v v)
    (himp : ∀ key v w, R key v w → S v w) : Outcome.Parallel (Schema.EntriesAlike S)
      (Scalar.sortOn (·.1) m) (Scalar.sortOn (·.1) n) := by
  generalize hv : Value.map m = v, hw : Value.map n = w at h
  cases h with
  | same =>
    cases hv
    cases hw
    exact .refl (fun es => List.forall₂_same.2 fun p _ => ⟨rfl, hrefl p.2⟩) _
  | @record m n hm hn h =>
    cases hv
    cases hw
    rw [Scalar.sortOn_map, Scalar.sortOn_map, sortOn_str, sortOn_str]
    refine List.forall₂_map_left_iff.2 (List.forall₂_map_right_iff.2 ?_)
    exact (mergeSort_alike hm hn h).imp fun p q hpq =>
      ⟨congrArg Scalar.str hpq.1, himp _ _ _ hpq.2⟩

theorem sortedMembers_map (m : List (Scalar × Value)) :
    (Value.map m).sortedMembers = List.map (·.1) <$> Scalar.sortOn (·.1) m := by
  have hscalars : (m.map fun p => Value.scalar p.1).mapM scalar? = some (m.map (·.1)) := by
    induction m with
    | nil => rfl
    | cons p m ih =>
      rw [List.map_cons, List.mapM_cons, ih]
      rfl
  show (Outcome.expect ((m.map fun p => Value.scalar p.1).mapM scalar?) >>= Scalar.sort) = _
  rw [hscalars]
  exact Scalar.sortOn_map (·.1) id m

/-- The members of rearranged maps are the same, in sorted order. -/
theorem Rearranged.sortedMembers_eq (h : Rearranged R v w) : v.sortedMembers = w.sortedMembers := by
  refine h.elim (P := fun v w => v.sortedMembers = w.sortedMembers) (fun _ => rfl) fun m n h => ?_
  have hsorted := h.sortOn (S := fun _ _ => True) (fun _ => trivial) fun _ _ _ _ => trivial
  rw [sortedMembers_map, sortedMembers_map]
  refine (hsorted.map fun es fs hes => ?_).eq
  rw [← List.forall₂_eq_eq_eq, List.forall₂_map_left_iff, List.forall₂_map_right_iff]
  exact hes.imp fun _ _ => And.left

end Value

/-! Documents in another order. The paths of a document, the entries of their items and the named
schemas may stand in any order; what references reach then is the same up to the order of entries,
and so the endpoints are the same. One order counts: under a path that is named like the content of a
response, the first entry is what a reference to the paths takes for a media type. -/

namespace Value

/-- The same entries in any order. -/
def SameEntries : Value → Value → Prop := Rearranged fun _ => Eq

/-- The same first entry, or a preferred media type among both. -/
def SameFirst (v w : Value) : Prop :=
  (∃ t ∈ Schema.preferredTypes, (v.field? t).isSome ∧ (w.field? t).isSome) ∨
    v.entries?.bind List.head? = w.entries?.bind List.head?

/-- What may be reached by references in documents that differ in order: the same keys in any order,
and under each key the same entries in any order; where first entries count, those of contents are
the same. -/
def SameReach (counts : Prop) : Value → Value → Prop :=
  Rearranged fun key v w => SameEntries v w ∧ (counts → key = "content" → SameFirst v w)

variable {counts : Prop} {v w : Value}

theorem SameEntries.refl (v : Value) : SameEntries v v := .same v

theorem SameFirst.refl (v : Value) : SameFirst v v := .inr rfl

theorem SameFirst.symm (h : SameFirst v w) : SameFirst w v :=
  h.imp (fun ⟨t, ht, hv, hw⟩ => ⟨t, ht, hw, hv⟩) Eq.symm

theorem SameEntries.symm (h : SameEntries v w) : SameEntries w v :=
  Rearranged.symm h fun _ _ _ => Eq.symm

theorem SameEntries.sameReach (h : SameEntries v w) : SameReach counts v w :=
  Rearranged.mono h fun _ _ _ heq => heq ▸ ⟨.refl _, fun _ _ => .refl _⟩

theorem SameEntries.get?_eq {m n : List (Scalar × Value)} (h : SameEntries (.map m) (.map n))
    (key : String) : Entries.get? m (.str key) = Entries.get? n (.str key) := by
  have hrel := Rearranged.get? h (fun _ _ => rfl) key
  revert hrel
  generalize Entries.get? m (.str key) = o, Entries.get? n (.str key) = p
  rintro (rfl | _)
  · rfl
  · rfl

theorem SameEntries.field_eq {m n : List (Scalar × Value)} (h : SameEntries (.map m) (.map n))
    (key : String) : field m key = field n key := by
  rw [field, field, h.get?_eq]

theorem SameEntries.alike (h : SameEntries v w) : Alike SameEntries v w :=
  Rearranged.alike h .refl

theorem sameReach_values (key : String) (v : Value) :
    SameEntries v v ∧ (counts → key = "content" → SameFirst v v) := ⟨.refl v, fun _ _ => .refl v⟩

theorem SameReach.alike (h : SameReach counts v w) : Alike (SameReach counts) v w :=
  Rearranged.alike h fun v => (SameEntries.refl v).sameReach

theorem SameReach.get? {m n : List (Scalar × Value)} (h : SameReach counts (.map m) (.map n))
    (key : String) :
    Option.Rel SameEntries (Entries.get? m (.str key)) (Entries.get? n (.str key)) :=
  Outcome.rel_imp (Rearranged.get? h sameReach_values key) fun _ _ => And.left

theorem SameReach.field {m n : List (Scalar × Value)} (h : SameReach counts (.map m) (.map n))
    (key : String) : SameEntries (field m key) (field n key) :=
  (Rearranged.field h sameReach_values key).1

/-- Maps with the same entries match as schemas. -/
theorem SameEntries.matches {m n : List (Scalar × Value)} (h : SameEntries (.map m) (.map n)) :
    Schema.Matches SameEntries m n where
  length := by
    cases h.alike with
    | map hlength => exact hlength
  top key _ := h.get?_eq key ▸ Outcome.rel_refl .refl _
  properties ps qs hps hqs := by
    rw [h.get?_eq, hqs] at hps
    cases hps
    exact List.forall₂_same.2 fun p _ => ⟨rfl, .refl p.2⟩
  required := .of_eq (by rw [h.field_eq])

theorem pickMedia_cons (p : Scalar × Value) (m : List (Scalar × Value)) :
    Schema.pickMedia (.map (p :: m)) = Schema.mediaSchema
      ((Schema.preferredTypes.findSome? fun t => Entries.get? (p :: m) (.str t)).getD p.2) := by
  unfold Schema.pickMedia
  dsimp only
  cases Schema.preferredTypes.findSome? fun t => Entries.get? (p :: m) (.str t) <;> rfl

/-- A preferred media type is found in any order; without one, the first entry is the same. -/
theorem SameEntries.pickMedia_eq (h : SameEntries v w) (hfirst : SameFirst v w) :
    Schema.pickMedia v = Schema.pickMedia w := by
  revert hfirst
  refine Rearranged.elim (P := fun v w => SameFirst v w → Schema.pickMedia v = Schema.pickMedia w)
    h (fun _ _ => rfl) fun m n (h : SameEntries _ _) hfirst => ?_
  have hlength : m.length = n.length := h.matches.length
  match m, n, hlength with
  | [], [], _ => rfl
  | p :: m, q :: n, _ =>
    have hpreferred : (fun t => Entries.get? (p :: m) (.str t)) =
        fun t => Entries.get? (q :: n) (.str t) := funext h.get?_eq
    rw [pickMedia_cons, pickMedia_cons, hpreferred]
    rcases hfirst with ⟨t, ht, -, hfound⟩ | hhead
    · cases hfind : Schema.preferredTypes.findSome? fun t => Entries.get? (q :: n) (.str t) with
      | some media => rfl
      | none =>
        have hnone := List.findSome?_eq_none_iff.1 hfind t ht
        rw [Value.field?, hnone] at hfound
        cases hfound
    · obtain rfl : p = q := Option.some.inj hhead
      rfl

theorem get?_int_record (m : Entries String Value) (n : Int) :
    Entries.get? (m.map fun p => (Scalar.str p.1, p.2)) (.int n) = none := by
  rw [Entries.get?, Option.map_eq_none_iff, List.find?_eq_none]
  intro p hp
  obtain ⟨q, -, rfl⟩ := List.mem_map.1 hp
  exact Bool.false_ne_true

/-- Entries of texts are no tags, unless there are none. -/
theorem SameEntries.scopeOfTags_eq (h : SameEntries v w) :
    Endpoint.scopeOfTags v = Endpoint.scopeOfTags w := by
  have hset := h.alike.isSet_eq
  cases h with
  | same => rfl
  | @record m n hm hn h =>
    unfold Endpoint.scopeOfTags
    rw [hset]
    split
    · rfl
    · simp only [record, get?_int_record]

theorem step_parallel {m n : List (Scalar × Value)}
    (h : ∀ key,
      Option.Rel (SameReach counts) (Entries.get? m (.str key)) (Entries.get? n (.str key)))
    (ref : String) (segment : List Char) :
    Outcome.Parallel (SameReach counts) (Reference.step ref (.map m) segment)
      (Reference.step ref (.map n) segment) := by
  have hrel := h (String.ofList segment)
  unfold Reference.step
  dsimp only
  revert hrel
  generalize Entries.get? m (.str (String.ofList segment)) = o
  generalize Entries.get? n (.str (String.ofList segment)) = p
  rintro (hxy | _)
  · exact hxy
  · rfl

theorem sameReach_refl (v : Value) : SameReach counts v v := .same v

/-- One step along a reference. -/
theorem SameReach.step (h : SameReach counts v w) (ref : String) (segment : List Char) :
    Outcome.Parallel (SameReach counts) (Reference.step ref v segment)
      (Reference.step ref w segment) := by
  cases h with
  | same => exact .refl sameReach_refl _
  | record hm hn h =>
    refine step_parallel (fun key => ?_) ref segment
    exact Outcome.rel_imp (SameReach.get? (.record hm hn h) key) fun _ _ => SameEntries.sameReach

end Value

namespace Document

open Value

/-- What stands under a key of the components: the named schemas may stand in any order. -/
def SameComponent (key : String) : Value → Value → Prop :=
  if key = "schemas" then SameEntries else Eq

/-- What stands under a key of a document: paths may stand in any order, the entries of their items
may, and so may the named schemas. -/
def SamePart (key : String) : Value → Value → Prop :=
  if key = "paths" then Rearranged fun _ => SameEntries
  else if key = "components" then Rearranged SameComponent
  else Eq

/-- Documents of texts that differ at most in the order of entries, of paths, of the entries of path
items and of named schemas. -/
def Reordered : Value → Value → Prop := Rearranged SamePart

/-- The item of the path that is named like the content of a response. -/
def contentItem? (document : Value) : Option Value :=
  (document.field? "paths").bind (·.field? "content")

/-- That item keeps its first entry, unless a preferred media type is among its entries. -/
def KeepsContent (document other : Value) : Prop :=
  ∀ v w, contentItem? document = some v → contentItem? other = some w → SameFirst v w

variable {counts : Prop} {document other : Value}

theorem samePart_refl (key : String) (v : Value) : SamePart key v v := by
  unfold SamePart
  split
  · exact .same v
  · split
    · exact .same v
    · rfl

theorem samePart_symm (key : String) (v w : Value) (h : SamePart key v w) : SamePart key w v := by
  unfold SamePart at h ⊢
  by_cases hpaths : key = "paths"
  · rw [if_pos hpaths] at h ⊢
    exact h.symm fun _ _ _ => SameEntries.symm
  rw [if_neg hpaths] at h ⊢
  by_cases hcomponents : key = "components"
  · rw [if_pos hcomponents] at h ⊢
    refine h.symm fun key v w hvw => ?_
    unfold SameComponent at hvw ⊢
    by_cases hschemas : key = "schemas"
    · rw [if_pos hschemas] at hvw ⊢
      exact hvw.symm
    · rw [if_neg hschemas] at hvw ⊢
      exact hvw.symm
  · rw [if_neg hcomponents] at h ⊢
    exact h.symm

theorem Reordered.symm (h : Reordered document other) : Reordered other document :=
  Rearranged.symm h samePart_symm

theorem KeepsContent.symm (h : KeepsContent document other) : KeepsContent other document :=
  fun v w hv hw => (h w v hw hv).symm

/-- What stands in a document is what may be reached, in another order. -/
theorem Reordered.sameReach (h : Reordered document other)
    (hcontent : counts → KeepsContent document other) (key : String) :
    Option.Rel (SameReach counts) (document.field? key) (other.field? key) := by
  refine Outcome.rel_imp_of_mem (Rearranged.field? h samePart_refl key) fun v hv w hw hvw => ?_
  unfold SamePart at hvw
  by_cases hpaths : key = "paths"
  · subst hpaths
    rw [if_pos rfl] at hvw
    cases hvw with
    | same => exact .same v
    | @record m n hm hn hmn =>
      refine .record hm hn fun key => Outcome.rel_imp_of_mem (hmn key) ?_
      refine fun x hx y hy hxy => ⟨hxy, ?_⟩
      rintro hcounts rfl
      refine hcontent hcounts x y ?_ ?_
      · rw [contentItem?, Option.mem_def.1 hv, Option.bind_some]
        exact (get?_record m "content").trans hx
      · rw [contentItem?, Option.mem_def.1 hw, Option.bind_some]
        exact (get?_record n "content").trans hy
  rw [if_neg hpaths] at hvw
  by_cases hcomponents : key = "components"
  · rw [if_pos hcomponents] at hvw
    refine hvw.mono fun key x y hxy => ?_
    unfold SameComponent at hxy
    by_cases hschemas : key = "schemas"
    · rw [if_pos hschemas] at hxy
      exact ⟨hxy, fun _ hkey => absurd (hschemas.symm.trans hkey) (by decide)⟩
    · rw [if_neg hschemas] at hxy
      exact hxy ▸ sameReach_values key x
  · rw [if_neg hcomponents] at hvw
    exact hvw ▸ .same v

theorem segments?_ne_nil {ref : List Char} {segments : List (List Char)}
    (h : Reference.segments? ref = some segments) : segments ≠ [] := by
  obtain ⟨rest, -, rfl⟩ := Option.map_eq_some_iff.1 h
  rw [Text.splitAt_eq_splitOn]
  exact fun hnil => List.splitOnP_ne_nil _ _ (List.map_eq_nil_iff.1 hnil)

/-- A reference leads to the same in both documents, up to order, or nowhere in either. -/
theorem Reordered.resolve (h : Reordered document other)
    (hcontent : counts → KeepsContent document other) (ref : String) :
    Outcome.Parallel (SameReach counts) (Reference.resolve document ref)
      (Reference.resolve other ref) := by
  have hkeys := h.sameReach hcontent
  have hfirst : ∀ segment, Outcome.Parallel (SameReach counts) (Reference.step ref document segment)
      (Reference.step ref other segment) := by
    intro segment
    cases h with
    | same => exact .refl sameReach_refl _
    | record _ _ _ => exact step_parallel hkeys ref segment
  unfold Reference.resolve
  cases hsegments : Reference.segments? ref.toList with
  | none => rfl
  | some segments =>
    cases segments with
    | nil => exact absurd rfl (segments?_ne_nil hsegments)
    | cons segment segments =>
      dsimp only
      rw [List.foldlM_cons, List.foldlM_cons]
      exact (hfirst segment).bind fun v w hvw =>
        .foldlM segments (fun x y segment hxy => hxy.step ref segment) hvw

theorem Reordered.readsAlike (h : Reordered document other)
    (hcontent : KeepsContent document other) :
    ReadsAlike (SameReach True) SameEntries document other where
  null := .refl .null
  finer _ _ := SameEntries.sameReach
  alike _ _ := SameReach.alike
  alike_below _ _ := SameEntries.alike
  schema _ _ := SameEntries.matches
  below key _ _ _ hmn := hmn.get? key
  resolve ref := (h.resolve (fun _ => hcontent) ref).refines
  media m n hmn := by
    have hboth := Rearranged.field hmn sameReach_values "content"
    rw [hboth.1.pickMedia_eq (hboth.2 trivial rfl)]
    exact .refl .refl _
  tags m n hmn := .of_eq (hmn.field "tags").scopeOfTags_eq

variable {root root' : List (Scalar × Value)}

/-- The paths stand side by side once they are sorted. -/
theorem Reordered.pathsAlike (h : Reordered (.map root) (.map root'))
    (hcontent : KeepsContent (.map root) (.map root')) :
    Endpoint.PathsAlike (SameReach True) root root' := by
  intro m hm
  have hreach : SameReach True (Value.field root "paths") (Value.field root' "paths") :=
    alike_getD (sameReach_refl .null) (h.sameReach (fun _ => hcontent) "paths")
  rw [hm] at hreach
  obtain ⟨n, hn, -⟩ := hreach.alike.exists_map
  rw [hn] at hreach
  exact ⟨n, hn, (hreach.sortOn sameReach_refl fun _ _ _ hvw => hvw.1.sameReach).refines⟩

/-- All but paths and components stays the same. -/
theorem Reordered.field_eq (h : Reordered (.map root) (.map root')) (key : String)
    (hpaths : key ≠ "paths") (hcomponents : key ≠ "components") :
    Value.field root key = Value.field root' key := by
  have hpart : SamePart key _ _ := Rearranged.field h samePart_refl key
  rwa [SamePart, if_neg hpaths, if_neg hcomponents] at hpart

/-- A document in another order gives the same endpoints, under the same names. -/
theorem Reordered.endpoints_eq_ok (h : Reordered document other)
    (hcontent : KeepsContent document other) {a : Api} (ha : Endpoint.ofDocument document = .ok a) :
    Endpoint.ofDocument other = .ok a := by
  obtain ⟨root, -, -, hroot, -⟩ := Endpoint.ofDocument_eq_ok_iff.1 ha
  obtain ⟨root', hroot'⟩ : ∃ root', other.entries? = some root' := by
    cases h with
    | same => exact ⟨root, hroot⟩
    | record _ _ _ => exact ⟨_, rfl⟩
  obtain rfl : document = .map root := by
    cases document <;> simp_all [Value.entries?]
  obtain rfl : other = .map root' := by
    cases other <;> simp_all [Value.entries?]
  have hreads := h.readsAlike hcontent
  have hpaths := h.pathsAlike hcontent
  have htitle : Outcome.Refines SameEntries (Endpoint.title root) (Endpoint.title root') := by
    rw [Endpoint.title, Endpoint.title, h.field_eq "info" (by decide) (by decide)]
    exact .refl .refl _
  refine (Endpoint.ofDocument_eq_ok_iff_withOutputTypes hreads hroot hroot' hpaths htitle ha a).2
    ⟨a.outputTypes, ?_, a.withOutputTypes_self.symm⟩
  refine (Endpoint.outputTypes_refines hreads hroot hroot' hpaths ?_).eq_ok
    (Endpoint.outputTypes_of_ofDocument ha)
  intro _ _ o _ p hop
  have hresponses := hop.operation.field "responses"
  refine Endpoint.responseType_refines hreads hresponses fun m n hm hn status _ => ?_
  have hmn : SameEntries (.map m) (.map n) := hm ▸ hn ▸ hresponses
  rw [hmn.field_eq]
  exact sameReach_refl _

end Document
end ApiScribe
