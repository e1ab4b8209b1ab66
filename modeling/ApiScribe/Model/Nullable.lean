import ApiScribe.Reference

/-! Whether a value may be null. A schema can be marked so itself, or lead to one that is: a
reference leads to what it refers to, and a composition to each of its parts. The search follows each
reference once, so it ends although references may lead in circles. -/
namespace ApiScribe

namespace Nullable

/-- Whether a schema is that of null alone. -/
def isNullSchema (schema : Value) : Bool :=
  ((schema.field? "type").getD .null).isString "null"

/-- Whether a schema itself says that its value may be null. -/
def isMarked (m : List (Scalar × Value)) : Bool :=
  (match Value.field m "nullable" with
    | .bool b => b
    | _ => false)
    || match Value.field m "type" with
      | .list types => types.any (·.isString "null")
      | t => t.isString "null"

/-- The keys of compositions. -/
def compositionKeys : List String := ["allOf", "oneOf", "anyOf"]

/-- Whether a schema is a composition. -/
def isComposition (m : List (Scalar × Value)) : Bool := compositionKeys.any (Value.hasField m)

/-- The parts listed under one key. Other values that list anything list no schema. -/
def partsUnder (m : List (Scalar × Value)) (key : String) : Outcome (List Value) :=
  match Value.field m key with
  | .list parts => .ok parts
  | v => if v.isSet && v.members?.isNone then .unexpected else .ok []

/-- What there is to visit from a schema without a reference: its parts, key by key. -/
inductive Task
  | schema (v : Value)
  | parts (m : List (Scalar × Value)) (key : String)

namespace Task

/-- The references that a task can come to. -/
def references : Task → List String
  | schema v => v.references
  | parts m _ => (Value.map m).references

mutual

/-- The steps that a schema is worth as long as no reference is followed. -/
def weight : Value → Nat
  | .list xs => weightOfItems xs + 1
  | .map m => 3 * weightOfEntries m + 4
  | _ => 1

/-- The weights of items together. -/
def weightOfItems : List Value → Nat
  | [] => 0
  | x :: xs => weight x + weightOfItems xs

/-- The weights of entries together. -/
def weightOfEntries : List (Scalar × Value) → Nat
  | [] => 0
  | (_, v) :: m => weight v + weightOfEntries m

end

theorem weight_pos (v : Value) : 0 < weight v := by
  cases v <;> simp [weight]

theorem weight_le_of_mem {p : Scalar × Value} {m : List (Scalar × Value)} (h : p ∈ m) :
    weight p.2 ≤ weightOfEntries m := by
  induction m with
  | nil => cases h
  | cons q m ih =>
    simp only [weightOfEntries]
    rcases List.mem_cons.1 h with rfl | h
    · omega
    · have := ih h
      omega

/-- The steps that a task is worth. -/
def steps : Task → Nat
  | schema v => weight v
  | parts m _ => weightOfEntries m + 1

/-- The steps that tasks are worth together. -/
def totalSteps : List Task → Nat
  | [] => 0
  | t :: todo => t.steps + totalSteps todo

theorem steps_pos (t : Task) : 0 < t.steps := by
  cases t with
  | schema v => exact weight_pos v
  | parts m key => simp [steps]

theorem totalSteps_cons (t : Task) (todo : List Task) :
    totalSteps (t :: todo) = t.steps + totalSteps todo := rfl

theorem totalSteps_lt_cons (t : Task) (todo : List Task) :
    totalSteps todo < totalSteps (t :: todo) := by
  have := steps_pos t
  rw [totalSteps_cons]
  omega

theorem totalSteps_append (ts todo : List Task) :
    totalSteps (ts ++ todo) = totalSteps ts + totalSteps todo := by
  induction ts with
  | nil => simp [totalSteps]
  | cons t ts ih => rw [List.cons_append, totalSteps_cons, totalSteps_cons, ih, Nat.add_assoc]

theorem totalSteps_map_schema (xs : List Value) :
    totalSteps (xs.map schema) = weightOfItems xs := by
  induction xs with
  | nil => rfl
  | cons x xs ih => simp only [List.map_cons, totalSteps_cons, ih, steps, weightOfItems]

end Task

/-- The tasks of a schema that is not marked. -/
def tasksOf (m : List (Scalar × Value)) : List Task := compositionKeys.map (Task.parts m)

theorem references_of_mem_tasksOf {t : Task} {m : List (Scalar × Value)} (h : t ∈ tasksOf m) :
    t.references = (Value.map m).references := by
  obtain ⟨key, _, rfl⟩ := List.mem_map.1 h
  rfl

theorem totalSteps_tasksOf (m : List (Scalar × Value)) :
    Task.totalSteps (tasksOf m) < Task.weight (.map m) := by
  simp [tasksOf, compositionKeys, Task.totalSteps, Task.steps, Task.weight]
  omega

theorem references_of_partsUnder {m : List (Scalar × Value)} {key r : String}
    {parts : List Value} {x : Value} (h : partsUnder m key = .ok parts) (hx : x ∈ parts)
    (hr : r ∈ x.references) : r ∈ (Value.map m).references := by
  unfold partsUnder at h
  split at h
  · next hv =>
    cases h
    exact Value.mem_references_of_field (hv ▸ Value.mem_references_of_mem hx hr)
  · split at h
    · cases h
    · cases h
      cases hx

theorem totalSteps_parts {m : List (Scalar × Value)} {key : String} {parts : List Value}
    (h : partsUnder m key = .ok parts) :
    Task.totalSteps (parts.map Task.schema) < (Task.parts m key).steps := by
  rw [Task.totalSteps_map_schema, Task.steps]
  unfold partsUnder at h
  split at h
  · next hv =>
    cases h
    unfold Value.field at hv
    cases hg : Entries.get? m (.str key) with
    | none => simp [hg] at hv
    | some v =>
      simp only [hg, Option.getD_some] at hv
      subst hv
      simp only [Entries.get?, Option.map_eq_some_iff] at hg
      obtain ⟨p, hp, he⟩ := hg
      have := Task.weight_le_of_mem (List.mem_of_find?_eq_some hp)
      rw [he, Task.weight] at this
      omega
  · split at h
    · cases h
    · cases h
      simp [Task.weightOfItems]

/-- The references of a document and a schema of it. -/
def known (document schema : Value) : List String := document.references ++ schema.references

/-- The number of references that were not followed yet. -/
def unseen (refs seen : List String) : Nat := (refs.filter fun r => r ∉ seen).length

theorem unseen_cons_le (refs seen : List String) (ref : String) :
    unseen refs (ref :: seen) ≤ unseen refs seen := by
  unfold unseen
  rw [← List.countP_eq_length_filter, ← List.countP_eq_length_filter]
  refine List.countP_mono_left fun r _ h => ?_
  simp only [List.mem_cons, not_or, decide_eq_true_eq] at h ⊢
  exact h.2

theorem unseen_cons_lt {refs seen : List String} {ref : String} (hr : ref ∈ refs)
    (hs : ref ∉ seen) : unseen refs (ref :: seen) < unseen refs seen := by
  induction refs with
  | nil => cases hr
  | cons r refs ih =>
    have hle := unseen_cons_le refs seen ref
    unfold unseen at ih hle ⊢
    by_cases h : r = ref
    · subst h
      simp [hs]
      simp at hle
      omega
    · have hr : ref ∈ refs := (List.mem_cons.1 hr).resolve_left (Ne.symm h)
      have := ih hr
      by_cases hrs : r ∈ seen
      · simpa [h, hrs] using this
      · simpa [h, hrs] using this

/-- Visits schemas one after the other, those that a schema leads to first, until one is marked.
A reference is followed once. -/
def search (document schema : Value) (seen : List String) (todo : List Task)
    (h : ∀ t ∈ todo, ∀ r ∈ t.references, r ∈ known document schema) : Outcome Bool :=
  match todo with
  | [] => .ok false
  | .parts m key :: todo =>
    match hp : partsUnder m key with
    | .error e => .error e
    | .ok parts =>
      have : Task.totalSteps (parts.map Task.schema ++ todo)
          < Task.totalSteps (.parts m key :: todo) := by
        have := totalSteps_parts hp
        rw [Task.totalSteps_append, Task.totalSteps_cons]
        omega
      search document schema seen (parts.map Task.schema ++ todo) (by
        intro t ht r hr
        rcases List.mem_append.1 ht with ht | ht
        · obtain ⟨x, hx, rfl⟩ := List.mem_map.1 ht
          exact h (.parts m key) List.mem_cons_self r (references_of_partsUnder hp hx hr)
        · exact h t (List.mem_cons_of_mem _ ht) r hr)
  | .schema (.map m) :: todo =>
    have hrest : ∀ t ∈ todo, ∀ r ∈ t.references, r ∈ known document schema :=
      fun t ht => h t (List.mem_cons_of_mem _ ht)
    match hv : (Value.field m "$ref").str? with
    | some ref =>
      if hs : ref ∈ seen then
        have := Task.totalSteps_lt_cons (.schema (.map m)) todo
        search document schema seen todo hrest
      else
        have : unseen (known document schema) (ref :: seen)
            < unseen (known document schema) seen :=
          unseen_cons_lt
            (h (.schema (.map m)) List.mem_cons_self ref (Value.ref_mem_references hv)) hs
        match ht : Reference.resolve document ref with
        | .ok target =>
          search document schema (ref :: seen) (.schema target :: todo) (by
            intro t hmem r hr
            rcases List.mem_cons.1 hmem with rfl | hmem
            · exact List.mem_append_left _ (Reference.references_of_resolve ht hr)
            · exact hrest t hmem r hr)
        | .error (.fault _) => search document schema (ref :: seen) todo hrest
        | .error e => .error e
    | none =>
      if isMarked m then .ok true
      else
        have : Task.totalSteps (tasksOf m ++ todo)
            < Task.totalSteps (.schema (.map m) :: todo) := by
          have := totalSteps_tasksOf m
          rw [Task.totalSteps_append, Task.totalSteps_cons, Task.steps]
          omega
        search document schema seen (tasksOf m ++ todo) (by
          intro t ht r hr
          rcases List.mem_append.1 ht with ht | ht
          · rw [references_of_mem_tasksOf ht] at hr
            exact h (.schema (.map m)) List.mem_cons_self r hr
          · exact hrest t ht r hr)
  | .schema .endless :: _ => .unexpected
  | .schema v :: todo =>
    have := Task.totalSteps_lt_cons (.schema v) todo
    search document schema seen todo fun t ht => h t (List.mem_cons_of_mem _ ht)
termination_by (unseen (known document schema) seen, Task.totalSteps todo)
decreasing_by
  all_goals first
    | exact Prod.Lex.left _ _ this
    | exact Prod.Lex.right _ this

/-- Whether a value described by a schema may be null. -/
def canBeNull (document schema : Value) : Outcome Bool :=
  search document schema [] [.schema schema] (by
    intro t ht r hr
    rw [List.mem_singleton.1 ht] at hr
    exact List.mem_append_right _ hr)

end Nullable
end ApiScribe
