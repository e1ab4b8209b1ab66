import ApiScribe.Fault
import ApiScribe.Text.Character
import ApiScribe.Text.Search

/-! References inside a document. A reference is `#/` and the segments of a path, separated by
slashes; inside a segment `~1` stands for a slash and `~0` for a tilde. -/
namespace ApiScribe
namespace Reference

/-- The key or index that a segment stands for. -/
def unescape (segment : List Char) : List Char :=
  Text.replaceAll ['~', '0'] ['~'] (Text.replaceAll ['~', '1'] ['/'] segment)

/-- The segments of a reference into the document itself. -/
def segments? (ref : List Char) : Option (List (List Char)) :=
  (Text.after? ['#', '/'] ref).map fun rest => (Text.splitAt '/' rest).map unescape

/-- The most digits that count out an item. -/
def mostDigits : Nat := 4300

/-- The item of a list that a segment of digits counts out. Digits without a decimal value count
nothing, and neither do more digits than the items of any list need. -/
def item (ref : String) (items : List Value) (segment : List Char) : Outcome Value :=
  if segment.isEmpty || !segment.all Text.isDigitForm then
    .fail (.danglingReference ref (String.ofList segment))
  else if mostDigits < segment.length && items.length < Nat.pow 10 mostDigits then .unexpected
  else do
    let i ← Outcome.expect (Text.decimalNumber? segment)
    match items[i]? with
    | some v => return v
    | none => .fail (.danglingReference ref (String.ofList segment))

/-- One step along a reference. -/
def step (ref : String) (current : Value) (segment : List Char) : Outcome Value :=
  match current with
  | .map m => match Entries.get? m (.str (String.ofList segment)) with
    | some v => .ok v
    | none => .fail (.danglingReference ref (String.ofList segment))
  | .list items => item ref items segment
  | _ => .fail (.danglingReference ref (String.ofList segment))

/-- The value that a reference leads to. -/
def resolve (document : Value) (ref : String) : Outcome Value :=
  match segments? ref.toList with
  | none => .fail (.externalReference ref)
  | some segments => segments.foldlM (step ref) document

/-- The last segment of a reference: the name of what it refers to. -/
def targetName (ref : String) : String := String.ofList (Text.afterLast '/' ref.toList)

/-- Follows references, at most `hops` of them. -/
def follow (document : Value) : Nat → Value → Outcome Value
  | 0, v => .ok v
  | hops + 1, v =>
    match v.field? "$ref" with
    | none => .ok v
    | some (.str ref) => do follow document hops (← resolve document ref)
    | some _ => .unexpected

/-- The value at the end of a chain of references; a chain longer than 32 is cut. -/
def deref (document node : Value) : Outcome Value := follow document 32 node

end Reference
end ApiScribe

/-! The references that a value holds in any of its parts. Following a reference into a document
leads to no references that the document lacks. -/
namespace ApiScribe

mutual

/-- The references anywhere in a value. -/
def Value.references : Value → List String
  | .list xs => Value.referencesOfItems xs
  | .pair a b => a.references ++ b.references
  | .map m => (Value.str? (Value.field m "$ref")).toList ++ Value.referencesOfEntries m
  | _ => []

/-- The references in items. -/
def Value.referencesOfItems : List Value → List String
  | [] => []
  | x :: xs => x.references ++ Value.referencesOfItems xs

/-- The references in the values of entries. -/
def Value.referencesOfEntries : List (Scalar × Value) → List String
  | [] => []
  | (_, v) :: m => v.references ++ Value.referencesOfEntries m

end

namespace Value

theorem mem_referencesOfItems {r : String} {xs : List Value} :
    r ∈ referencesOfItems xs ↔ ∃ x ∈ xs, r ∈ x.references := by
  induction xs with
  | nil => simp [referencesOfItems]
  | cons x xs ih => simp [referencesOfItems, ih]

theorem mem_referencesOfEntries {r : String} {m : List (Scalar × Value)} :
    r ∈ referencesOfEntries m ↔ ∃ p ∈ m, r ∈ p.2.references := by
  induction m with
  | nil => simp [referencesOfEntries]
  | cons p m ih => simp [referencesOfEntries, ih]

theorem mem_references_of_mem {r : String} {x : Value} {xs : List Value} (hx : x ∈ xs)
    (h : r ∈ x.references) : r ∈ (Value.list xs).references := by
  rw [references, mem_referencesOfItems]
  exact ⟨x, hx, h⟩

theorem mem_references_of_get? {r : String} {key : Scalar} {v : Value}
    {m : List (Scalar × Value)} (hv : Entries.get? m key = some v) (h : r ∈ v.references) :
    r ∈ (Value.map m).references := by
  simp only [Entries.get?, Option.map_eq_some_iff] at hv
  obtain ⟨p, hp, rfl⟩ := hv
  rw [references, List.mem_append, mem_referencesOfEntries]
  exact .inr ⟨p, List.mem_of_find?_eq_some hp, h⟩

theorem mem_references_of_field {r key : String} {m : List (Scalar × Value)}
    (h : r ∈ (Value.field m key).references) : r ∈ (Value.map m).references := by
  unfold Value.field at h
  cases hv : Entries.get? m (.str key) with
  | none => simp [hv, references] at h
  | some v => exact mem_references_of_get? hv (by simpa [hv] using h)

theorem ref_mem_references {ref : String} {m : List (Scalar × Value)}
    (h : (Value.field m "$ref").str? = some ref) : ref ∈ (Value.map m).references := by
  simp [references, h]

end Value

namespace Reference

theorem references_of_step {ref r : String} {v w : Value} {segment : List Char}
    (h : step ref v segment = .ok w) (hr : r ∈ w.references) : r ∈ v.references := by
  unfold step at h
  split at h
  · split at h
    · next hv =>
      cases h
      exact Value.mem_references_of_get? hv hr
    · cases h
  · next items =>
    unfold item at h
    split at h
    · cases h
    · split at h
      · cases h
      · cases hn : Text.decimalNumber? segment with
        | none => simp [hn, Outcome.expect, bind, Except.bind] at h
        | some i =>
          simp only [hn, Outcome.expect, bind, Except.bind] at h
          split at h
          · next hx =>
            cases h
            exact Value.mem_references_of_mem (List.mem_of_getElem? hx) hr
          · cases h
  · cases h

theorem references_of_foldlM {ref r : String} {segments : List (List Char)} {v w : Value}
    (h : segments.foldlM (step ref) v = .ok w) (hr : r ∈ w.references) : r ∈ v.references := by
  induction segments generalizing v with
  | nil =>
    cases h
    exact hr
  | cons s ss ih =>
    rw [List.foldlM_cons] at h
    cases hs : step ref v s with
    | error e => simp [hs, bind, Except.bind] at h
    | ok u =>
      simp only [hs, bind, Except.bind] at h
      exact references_of_step hs (ih h)

/-- What a reference leads to has no references that the document lacks. -/
theorem references_of_resolve {document w : Value} {ref r : String}
    (h : resolve document ref = .ok w) (hr : r ∈ w.references) : r ∈ document.references := by
  unfold resolve at h
  split at h
  · cases h
  · exact references_of_foldlM h hr

end Reference

end ApiScribe
