import ApiScribe.Proofs.TypeExpr.Syntax
import ApiScribe.Proofs.TypeExpr.Printing

/-! What types mean. However names and object types are understood, a union holds what one of its
alternatives holds and an intersection what all of its members hold. Flattening and taking each type
once do not change that. -/
namespace ApiScribe
namespace TypeExpr

/-- How names with their arguments and object types are understood, as sets of values. -/
structure Interpretation (α : Type) where
  apply : String → List (α → Prop) → α → Prop
  object : List (TypeKey × (α → Prop)) → α → Prop

variable {α : Type} (I : Interpretation α)

mutual

/-- The values of a type. -/
def denote : TypeExpr → α → Prop
  | .apply head args => I.apply head (denoteAll args)
  | .object fields => I.object (denoteFields fields)
  | .union ts => fun x => ∃ p ∈ denoteAll ts, p x
  | .inter ts => fun x => ∀ p ∈ denoteAll ts, p x

def denoteAll : List TypeExpr → List (α → Prop)
  | [] => []
  | t :: ts => denote t :: denoteAll ts

def denoteFields : List (TypeKey × TypeExpr) → List (TypeKey × (α → Prop))
  | [] => []
  | (k, t) :: fields => (k, denote t) :: denoteFields fields

end

theorem denoteAll_eq_map (ts : List TypeExpr) : denoteAll I ts = ts.map (denote I) := by
  induction ts with
  | nil => rfl
  | cons t ts ih => rw [denoteAll, ih, List.map_cons]

theorem denote_union (ts : List TypeExpr) (x : α) :
    denote I (.union ts) x ↔ ∃ t ∈ ts, denote I t x := by
  rw [denote, denoteAll_eq_map]
  constructor
  · rintro ⟨p, hp, hx⟩
    obtain ⟨t, ht, rfl⟩ := List.mem_map.1 hp
    exact ⟨t, ht, hx⟩
  · rintro ⟨t, ht, hx⟩
    exact ⟨_, List.mem_map_of_mem ht, hx⟩

theorem denote_inter (ts : List TypeExpr) (x : α) :
    denote I (.inter ts) x ↔ ∀ t ∈ ts, denote I t x := by
  simp [denote, denoteAll_eq_map]

theorem denote_alternatives (t : TypeExpr) (x : α) :
    (∃ u ∈ t.alternatives, denote I u x) ↔ denote I t x := by
  cases t with
  | union ts => exact (denote_union I ts x).symm
  | _ => simp [alternatives]

theorem denote_members (t : TypeExpr) (x : α) :
    (∀ u ∈ t.members, denote I u x) ↔ denote I t x := by
  cases t with
  | inter ts => exact (denote_inter I ts x).symm
  | _ => simp [members]

/-- A union, flattened or not, holds what one of the types holds. -/
theorem denote_unionOf (ts : List TypeExpr) (x : α) :
    denote I (unionOf ts) x ↔ ∃ t ∈ ts, denote I t x := by
  have hflat : denote I (unionOf ts) x ↔ ∃ u ∈ ts.flatMap alternatives, denote I u x := by
    unfold unionOf
    split
    · rename_i heq
      simp [heq]
    · exact denote_union I _ x
  rw [hflat]
  constructor
  · rintro ⟨u, hu, hx⟩
    obtain ⟨t, ht, hut⟩ := List.mem_flatMap.1 hu
    exact ⟨t, ht, (denote_alternatives I t x).1 ⟨u, hut, hx⟩⟩
  · rintro ⟨t, ht, hx⟩
    obtain ⟨u, hut, hx⟩ := (denote_alternatives I t x).2 hx
    exact ⟨u, List.mem_flatMap.2 ⟨t, ht, hut⟩, hx⟩

/-- An intersection, flattened or not, holds what all of the types hold. -/
theorem denote_interOf (ts : List TypeExpr) (x : α) :
    denote I (interOf ts) x ↔ ∀ t ∈ ts, denote I t x := by
  have hflat : denote I (interOf ts) x ↔ ∀ u ∈ ts.flatMap members, denote I u x := by
    unfold interOf
    split
    · rename_i heq
      simp [heq]
    · exact denote_inter I _ x
  rw [hflat]
  constructor
  · intro h t ht
    exact (denote_members I t x).1 fun u hu => h u (List.mem_flatMap.2 ⟨t, ht, hu⟩)
  · intro h u hu
    obtain ⟨t, ht, hut⟩ := List.mem_flatMap.1 hu
    exact (denote_members I t x).2 (h t ht) u hut

end TypeExpr
end ApiScribe

/-! Combinations of types. Parts of the same kind are flattened, which is not seen in the text: the
text of a combination is that of its parts, one after the other. -/
namespace ApiScribe
namespace TypeExpr

theorem IsWellFormed.alternatives_ne_nil {t : TypeExpr} (h : IsWellFormed t) :
    t.alternatives ≠ [] := by
  cases h with
  | union hlen => exact ne_nil_of_two_le hlen
  | _ => exact List.cons_ne_nil _ _

theorem IsWellFormed.members_ne_nil {t : TypeExpr} (h : IsWellFormed t) : t.members ≠ [] := by
  cases h with
  | inter hlen => exact ne_nil_of_two_le hlen
  | _ => exact List.cons_ne_nil _ _

theorem IsWellFormed.of_mem_alternatives {t u : TypeExpr} (h : IsWellFormed t)
    (hu : u ∈ t.alternatives) : IsWellFormed u ∧ u.isUnion = false := by
  cases t with
  | union ts =>
    cases h with
    | union _ hts hnot => exact ⟨hts u hu, hnot u hu⟩
  | _ =>
    obtain rfl := List.mem_singleton.1 hu
    exact ⟨h, rfl⟩

theorem IsWellFormed.of_mem_members {t u : TypeExpr} (h : IsWellFormed t)
    (hu : u ∈ t.members) : IsWellFormed u ∧ u.isInter = false := by
  cases t with
  | inter ts =>
    cases h with
    | inter _ hts hnot => exact ⟨hts u hu, hnot u hu⟩
  | _ =>
    obtain rfl := List.mem_singleton.1 hu
    exact ⟨h, rfl⟩

theorem flatMap_ne_nil {α β : Type} {f : α → List β} {xs : List α} (hne : xs ≠ [])
    (h : ∀ x ∈ xs, f x ≠ []) : xs.flatMap f ≠ [] := by
  cases xs with
  | nil => exact absurd rfl hne
  | cons x xs => simp [h x List.mem_cons_self]

/-- A union of well-formed types is well formed. -/
theorem isWellFormed_unionOf {ts : List TypeExpr} (hne : ts ≠ [])
    (h : ∀ t ∈ ts, IsWellFormed t) : IsWellFormed (unionOf ts) := by
  have hall : ∀ u ∈ ts.flatMap alternatives, IsWellFormed u ∧ u.isUnion = false := by
    intro u hu
    obtain ⟨t, ht, hut⟩ := List.mem_flatMap.1 hu
    exact (h t ht).of_mem_alternatives hut
  have hne' := flatMap_ne_nil hne fun t ht => (h t ht).alternatives_ne_nil
  unfold unionOf
  generalize ts.flatMap alternatives = us at *
  match us with
  | [] => exact absurd rfl hne'
  | [u] => exact (hall u List.mem_cons_self).1
  | u :: u' :: us => exact .union (by simp) (fun t ht => (hall t ht).1) fun t ht => (hall t ht).2

/-- An intersection of well-formed types is well formed. -/
theorem isWellFormed_interOf {ts : List TypeExpr} (hne : ts ≠ [])
    (h : ∀ t ∈ ts, IsWellFormed t) : IsWellFormed (interOf ts) := by
  have hall : ∀ u ∈ ts.flatMap members, IsWellFormed u ∧ u.isInter = false := by
    intro u hu
    obtain ⟨t, ht, hut⟩ := List.mem_flatMap.1 hu
    exact (h t ht).of_mem_members hut
  have hne' := flatMap_ne_nil hne fun t ht => (h t ht).members_ne_nil
  unfold interOf
  generalize ts.flatMap members = us at *
  match us with
  | [] => exact absurd rfl hne'
  | [u] => exact (hall u List.mem_cons_self).1
  | u :: u' :: us => exact .inter (by simp) (fun t ht => (hall t ht).1) fun t ht => (hall t ht).2

theorem joined_append (sep : Token) {tss uss : List (List Token)} (ht : tss ≠ [])
    (hu : uss ≠ []) : joined sep (tss ++ uss) = joined sep tss ++ sep :: joined sep uss := by
  induction tss with
  | nil => exact absurd rfl ht
  | cons ts tss ih =>
    cases tss with
    | nil =>
      obtain ⟨us, uss, rfl⟩ := List.exists_cons_of_ne_nil hu
      rw [List.singleton_append, joined_cons_cons, joined_singleton]
    | cons ts' tss =>
      rw [List.cons_append, List.cons_append, joined_cons_cons, ← List.cons_append,
        ih (List.cons_ne_nil _ _), joined_cons_cons]
      simp

/-- What stands between parts can as well stand between the parts of parts. -/
theorem joined_flatMap {sep : Token} {f : TypeExpr → List TypeExpr} {ts : List TypeExpr}
    (hne : ∀ t ∈ ts, f t ≠ []) (h : ∀ t ∈ ts, joined sep ((f t).map tokens) = tokens t) :
    joined sep ((ts.flatMap f).map tokens) = joined sep (ts.map tokens) := by
  induction ts with
  | nil => rfl
  | cons t ts ih =>
    have ht := h t List.mem_cons_self
    have hnet := hne t List.mem_cons_self
    have ih := ih (fun u hu => hne u (List.mem_cons_of_mem t hu))
      fun u hu => h u (List.mem_cons_of_mem t hu)
    cases ts with
    | nil => simpa using ht
    | cons u us =>
      have hrest := flatMap_ne_nil (List.cons_ne_nil u us)
        fun v hv => hne v (List.mem_cons_of_mem t hv)
      rw [List.flatMap_cons, List.map_append, joined_append sep (by simpa using hnet)
        (by simpa using hrest), ht, ih]
      simp only [List.map_cons, joined_cons_cons]

theorem joined_alternatives (t : TypeExpr) :
    joined .bar (t.alternatives.map tokens) = tokens t := by
  cases t with
  | union ts => rw [tokens, tokensOfAll_eq_map]; rfl
  | _ => simp [alternatives]

theorem joined_members (t : TypeExpr) : joined .amp (t.members.map tokens) = tokens t := by
  cases t with
  | inter ts => rw [tokens, tokensOfAll_eq_map]; rfl
  | _ => simp [members]

/-- The tokens of a union are those of its parts with bars between them. -/
theorem tokens_unionOf {ts : List TypeExpr} (h : ∀ t ∈ ts, IsWellFormed t) :
    tokens (unionOf ts) = joined .bar (ts.map tokens) := by
  rw [← joined_flatMap (fun t ht => (h t ht).alternatives_ne_nil)
    fun t _ => joined_alternatives t]
  unfold unionOf
  split
  · rename_i heq
    rw [heq, List.map_singleton, joined_singleton]
  · rw [tokens, tokensOfAll_eq_map]

/-- The tokens of an intersection are those of its parts with ampersands between them. -/
theorem tokens_interOf {ts : List TypeExpr} (h : ∀ t ∈ ts, IsWellFormed t) :
    tokens (interOf ts) = joined .amp (ts.map tokens) := by
  rw [← joined_flatMap (fun t ht => (h t ht).members_ne_nil) fun t _ => joined_members t]
  unfold interOf
  split
  · rename_i heq
    rw [heq, List.map_singleton, joined_singleton]
  · rw [tokens, tokensOfAll_eq_map]

theorem charsOf_joined (sep : Token) (tss : List (List Token)) :
    charsOf (joined sep tss) = List.intercalate sep.chars (tss.map charsOf) := by
  induction tss with
  | nil => rfl
  | cons ts tss ih =>
    cases tss with
    | nil => simp
    | cons us tss =>
      rw [joined_cons_cons, charsOf_append, charsOf_cons, ih]
      simp [List.intercalate_cons_cons]

/-- The text of tokens that are joined. -/
theorem ofList_charsOf_joined (sep : Token) (s : String) (hs : s.toList = sep.chars)
    (tss : List (List Token)) : String.ofList (charsOf (joined sep tss)) =
      s.intercalate (tss.map fun ts => String.ofList (charsOf ts)) := by
  rw [charsOf_joined, ← String.toList_inj, String.toList_ofList, String.toList_intercalate, hs,
    List.map_map]
  simp [Function.comp_def]

theorem text_unionOf {ts : List TypeExpr} (h : ∀ t ∈ ts, IsWellFormed t) :
    text (unionOf ts) = " | ".intercalate (ts.map text) := by
  rw [text, tokens_unionOf h, ofList_charsOf_joined .bar " | " (by decide), List.map_map]
  rfl

theorem text_interOf {ts : List TypeExpr} (h : ∀ t ∈ ts, IsWellFormed t) :
    text (interOf ts) = " & ".intercalate (ts.map text) := by
  rw [text, tokens_interOf h, ofList_charsOf_joined .amp " & " (by decide), List.map_map]
  rfl

theorem isFlat_of_alternatives {t : TypeExpr} (h : ∀ u ∈ t.alternatives, IsFlat u) :
    IsFlat t := by
  cases t with
  | union ts => exact .union h
  | _ => exact h _ List.mem_cons_self

/-- The parts of a flat union are flat. -/
theorem isFlat_of_unionOf {ts : List TypeExpr} (h : IsFlat (unionOf ts)) :
    ∀ t ∈ ts, IsFlat t := by
  have hall : ∀ u ∈ ts.flatMap alternatives, IsFlat u := by
    unfold unionOf at h
    split at h
    · rename_i heq
      rw [heq]
      simpa using h
    · cases h with
      | union h => exact h
  intro t ht
  exact isFlat_of_alternatives fun u hu => hall u (List.mem_flatMap.2 ⟨t, ht, hu⟩)

theorem length_le_flatMap {α β : Type} (f : α → List β) {xs : List α} {x : α} (hx : x ∈ xs) :
    (f x).length ≤ (xs.flatMap f).length := by
  obtain ⟨ys, zs, rfl⟩ := List.append_of_mem hx
  simp only [List.flatMap_append, List.flatMap_cons, List.length_append]
  omega

/-- The parts of a flat intersection are flat. -/
theorem isFlat_of_interOf {ts : List TypeExpr} (hts : ∀ t ∈ ts, IsWellFormed t)
    (h : IsFlat (interOf ts)) : ∀ t ∈ ts, IsFlat t := by
  intro t ht
  have hlen := length_le_flatMap members ht
  have hmem : ∀ u ∈ t.members, u ∈ ts.flatMap members :=
    fun u hu => List.mem_flatMap.2 ⟨t, ht, hu⟩
  unfold interOf at h
  split at h
  · rename_i u heq
    rw [heq] at hlen hmem
    cases hts t ht with
    | inter htwo =>
      have htwo' := Nat.le_trans htwo hlen
      simp at htwo'
    | _ =>
      have hmember := hmem _ List.mem_cons_self
      rwa [List.mem_singleton.1 hmember]
  · cases h with
    | inter hall hnot =>
      cases t with
      | inter vs => exact .inter (fun u hu => hall u (hmem u hu)) fun u hu => hnot u (hmem u hu)
      | _ => exact hall _ (hmem _ List.mem_cons_self)

end TypeExpr
end ApiScribe
