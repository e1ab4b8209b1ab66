import ApiScribe.Proofs.Outcome
import ApiScribe.Value

/-! Texts among values, and the values inside a value, as far as something reads it: what it reads
of each value is given, and is smaller. -/
namespace ApiScribe

theorem Scalar.str?_eq_of_same {k k' : Scalar} (h : (k == k') = true) : k.str? = k'.str? := by
  have hsame : k.same k' = true := h
  cases k <;> cases k' <;> simp_all [Scalar.same, Scalar.str?, Scalar.int?]

theorem Scalar.str?_eq_some {k : Scalar} {s : String} : k.str? = some s ↔ k = .str s := by
  cases k <;> simp [Scalar.str?]

theorem Value.isString_iff {v : Value} {s : String} : v.isString s = true ↔ v = .str s := by
  unfold isString
  split
  · rw [beq_iff_eq, Value.scalar.injEq, Scalar.str.injEq]
  · next hother => exact ⟨nofun, fun h => absurd h (hother s)⟩

theorem Value.str?_eq_some {v : Value} {s : String} : v.str? = some s ↔ v = .str s := by
  unfold str?
  split
  · simp
  · next hother => exact ⟨nofun, fun h => absurd h (hother s)⟩

namespace Value

theorem hasField_eq (m : List (Scalar × Value)) (key : String) :
    hasField m key = (Entries.get? m (.str key)).isSome := by
  rw [hasField, Entries.has, Entries.get?, Option.isSome_map, List.isSome_find?]

/-- The reference that a value holds. -/
def ref? (v : Value) : Option String := (v.field? "$ref").bind str?

variable {below : Value → List Value} {h : ∀ v, ∀ x ∈ below v, sizeOf x < sizeOf v} {v x : Value}

/-- A value and the values inside it, from what is right below each. -/
def within (below : Value → List Value) (h : ∀ v, ∀ x ∈ below v, sizeOf x < sizeOf v)
    (v : Value) : List Value :=
  v :: (below v).attach.flatMap fun ⟨x, hx⟩ =>
    have := h v x hx
    within below h x
termination_by sizeOf v

theorem within_eq : within below h v = v :: (below v).flatMap (within below h) := by
  rw [within, List.flatMap_subtype (g := within below h) fun _ _ => rfl, List.unattach_attach]

theorem mem_within_self : v ∈ within below h v := by
  rw [within_eq]
  exact List.mem_cons_self

theorem within_subset (hx : x ∈ below v) : within below h x ⊆ within below h v := by
  intro y hy
  rw [within_eq]
  exact List.mem_cons_of_mem v (List.mem_flatMap.2 ⟨x, hx, hy⟩)

/-- The references inside a value are its own and those inside what is right below it. -/
theorem mem_filterMap_within {ref : String} : ref ∈ (within below h v).filterMap ref? ↔
    v.ref? = some ref ∨ ∃ x ∈ below v, ref ∈ (within below h x).filterMap ref? := by
  have hcons : ∀ ys : List Value, ref ∈ (v :: ys).filterMap ref? ↔
      v.ref? = some ref ∨ ref ∈ ys.filterMap ref? := by
    intro ys
    simp [List.mem_filterMap]
  rw [within_eq, hcons, List.filterMap_flatMap, List.mem_flatMap]

end Value
end ApiScribe

/-! Values that look alike from outside: scalars and sets are the same, lists have related items in
order, and maps have as many entries. Whatever looks at a value without looking at the entries of a
map finds the same in both. -/
namespace ApiScribe
namespace Value

/-- Values of the same kind, whose items are related and whose entries are as many. -/
inductive Alike (R : Value → Value → Prop) : Value → Value → Prop
  | scalar (s : Scalar) : Alike R (.scalar s) (.scalar s)
  | list {xs ys : List Value} (h : List.Forall₂ R xs ys) : Alike R (.list xs) (.list ys)
  | pair {a b c d : Value} (hfirst : R a c) (hsecond : R b d) : Alike R (.pair a b) (.pair c d)
  | set (members : List Scalar) : Alike R (.set members) (.set members)
  | map {m n : List (Scalar × Value)} (h : m.length = n.length) : Alike R (.map m) (.map n)
  | endless : Alike R .endless .endless

variable {R : Value → Value → Prop} {v w : Value}

theorem Alike.refl (h : ∀ v, R v v) (v : Value) : Alike R v v := by
  cases v with
  | scalar s => exact .scalar s
  | list xs => exact .list (List.forall₂_same.2 fun x _ => h x)
  | pair a b => exact .pair (h a) (h b)
  | set members => exact .set members
  | map m => exact .map rfl
  | endless => exact .endless

theorem Alike.scalar?_eq (h : Alike R v w) : v.scalar? = w.scalar? := by
  cases h <;> rfl

theorem Alike.str?_eq (h : Alike R v w) : v.str? = w.str? := by
  cases h <;> rfl

theorem Alike.isNull_eq (h : Alike R v w) : v.isNull = w.isNull := by
  cases h <;> rfl

theorem Alike.isString_eq (h : Alike R v w) (s : String) : v.isString s = w.isString s := by
  cases h <;> rfl

theorem isEmpty_eq_of_length_eq {α β : Type} {xs : List α} {ys : List β}
    (h : xs.length = ys.length) : xs.isEmpty = ys.isEmpty := by
  cases xs <;> cases ys <;> simp_all

theorem Alike.isSet_eq (h : Alike R v w) : v.isSet = w.isSet := by
  cases h with
  | list h => exact congrArg not (isEmpty_eq_of_length_eq h.length_eq)
  | map h => exact congrArg not (isEmpty_eq_of_length_eq h)
  | _ => rfl

theorem Alike.string_eq (h : Alike R v w) : Check.string v = Check.string w := by
  cases h <;> rfl

theorem Alike.optional_string_eq (h : Alike R v w) :
    Check.optional Check.string v = Check.optional Check.string w := by
  cases h <;> rfl

/-- What looks like a map is a map. -/
theorem Alike.exists_map {m : List (Scalar × Value)} (h : Alike R (.map m) w) :
    ∃ n, w = .map n ∧ m.length = n.length := by
  cases h with
  | map h => exact ⟨_, rfl, h⟩

theorem Alike.not_map (h : Alike R v w) (hv : ∀ m, v ≠ .map m) (n : List (Scalar × Value)) :
    w ≠ .map n := by
  cases h with
  | map _ => exact absurd rfl (hv _)
  | _ => nofun

/-- Members of alike values: related ones, or scalars, which have no members of their own. -/
theorem Alike.members? (h : Alike R v w) : Option.Rel
    (List.Forall₂ fun x y => R x y ∨ ∃ s t, x = .scalar s ∧ y = .scalar t) v.members? w.members? := by
  have hscalars : ∀ {α β : Type} {xs : List α} {ys : List β} {f : α → Scalar} {g : β → Scalar},
      xs.length = ys.length →
      List.Forall₂ (fun x y => R x y ∨ ∃ s t, x = Value.scalar s ∧ y = .scalar t)
        (xs.map fun x => .scalar (f x)) (ys.map fun y => .scalar (g y)) := by
    intro α β xs ys f g hlength
    rw [List.forall₂_map_left_iff, List.forall₂_map_right_iff]
    refine List.forall₂_iff_get.2 ⟨hlength, fun _ _ _ => .inr ⟨_, _, rfl, rfl⟩⟩
  cases h with
  | list h => exact .some (h.imp fun _ _ => .inl)
  | pair hfirst hsecond => exact .some (.cons (.inl hfirst) (.cons (.inl hsecond) .nil))
  | set members => exact .some (hscalars rfl)
  | map h => exact .some (hscalars h)
  | endless => exact .none
  | scalar s =>
    cases s with
    | str s => exact .some (hscalars rfl)
    | bytes bs => exact .some (hscalars rfl)
    | _ => exact .none

theorem entries?_eq_some {v : Value} {m : List (Scalar × Value)} :
    v.entries? = some m ↔ v = .map m := by
  cases v <;> simp [Value.entries?]

/-- Optional values that are related, or both absent. -/
theorem alike_getD {o p : Option Value} (hnull : R .null .null) (h : Option.Rel R o p) :
    R (o.getD .null) (p.getD .null) := by
  cases h with
  | none => exact hnull
  | some h => exact h

end Value
end ApiScribe
