import Mathlib.Data.List.Nodup
import Mathlib.Order.Lattice
import ApiScribe.Entries

/-! Maps in order. A list of pairs with different keys is its own map, and reading a key finds the
pair that holds it. -/
namespace ApiScribe
namespace Entries
variable {κ α : Type} [BEq κ] [LawfulBEq κ]

theorem get?_eq_some_of_mem {m : Entries κ α} (h : m.keys.Nodup) {p : κ × α} (hp : p ∈ m) :
    m.get? p.1 = some p.2 := by
  induction m with
  | nil => simp at hp
  | cons q m ih =>
    obtain ⟨hq, hm⟩ := List.nodup_cons.1 h
    rcases List.mem_cons.1 hp with rfl | hp
    · simp [get?]
    · have hne : (q.1 == p.1) = false := by
        refine beq_eq_false_iff_ne.2 ?_
        intro he
        exact hq (List.mem_map.2 ⟨p, hp, he.symm⟩)
      have hrest := ih hm hp
      simp only [get?, List.find?_cons, hne] at hrest ⊢
      exact hrest

theorem mem_of_get?_eq_some {m : Entries κ α} {key : κ} {value : α} (h : m.get? key = some value) :
    (key, value) ∈ m := by
  obtain ⟨p, hp, rfl⟩ := Option.map_eq_some_iff.1 h
  have hkey : p.1 = key := by simpa using List.find?_some hp
  rw [← hkey]
  exact List.mem_of_find?_eq_some hp

theorem isSome_get? {m : Entries κ α} {key : κ} : (m.get? key).isSome = true ↔ key ∈ m.keys := by
  simp [get?, keys, List.find?_isSome]

omit [LawfulBEq κ] in
theorem get?_append {m n : Entries κ α} {key : κ} :
    (m ++ n).get? key = (m.get? key).or (n.get? key) := by
  simp only [get?, List.find?_append]
  cases m.find? (·.1 == key) <;> rfl

theorem put_of_not_mem {m : Entries κ α} {key : κ} (h : key ∉ m.keys) (value : α) :
    put key value m = m ++ [(key, value)] := by
  induction m with
  | nil => rfl
  | cons p m ih =>
    obtain ⟨hp, hm⟩ := not_or.1 (fun hk => h (List.mem_cons.2 hk))
    have hne : (p.1 == key) = false := beq_eq_false_iff_ne.2 (Ne.symm hp)
    rw [put, hne, ih hm]
    rfl

theorem mem_put {m : Entries κ α} {key : κ} {value : α} {p : κ × α} (h : p ∈ put key value m) :
    p = (key, value) ∨ p ∈ m := by
  induction m with
  | nil => exact .inl (List.mem_singleton.1 h)
  | cons q m ih =>
    unfold put at h
    split at h
    · rename_i heq
      rcases List.mem_cons.1 h with rfl | h
      · exact .inl (by rw [eq_of_beq heq])
      · exact .inr (List.mem_cons_of_mem q h)
    · rcases List.mem_cons.1 h with rfl | h
      · exact .inr List.mem_cons_self
      · exact (ih h).imp_right (List.mem_cons_of_mem q)

theorem mem_ofList {pairs : List (κ × α)} {p : κ × α} (h : p ∈ ofList pairs) : p ∈ pairs := by
  have hall : ∀ {m : Entries κ α}, p ∈ pairs.foldl (fun m p => put p.1 p.2 m) m →
      p ∈ m ∨ p ∈ pairs := by
    clear h
    induction pairs with
    | nil => exact .inl
    | cons q pairs ih =>
      intro m h
      rcases ih h with h | h
      · rcases mem_put h with rfl | h
        · exact .inr List.mem_cons_self
        · exact .inl h
      · exact .inr (List.mem_cons_of_mem q h)
  exact (hall h).resolve_left List.not_mem_nil

theorem nodup_keys_put {m : Entries κ α} (h : m.keys.Nodup) (key : κ) (value : α) :
    (put key value m).keys.Nodup := by
  rw [keys_put]
  split
  · exact h
  · next hkey =>
    refine List.nodup_append.2 ⟨h, List.nodup_singleton _, ?_⟩
    rintro k hk _ hk' rfl
    exact hkey (List.mem_singleton.1 hk' ▸ hk)

theorem get?_eq_of_perm {m n : Entries κ α} (hm : m.keys.Nodup) (h : m.Perm n) (key : κ) :
    m.get? key = n.get? key := by
  have hn : n.keys.Nodup := (h.map Prod.fst).nodup_iff.1 hm
  refine Option.ext fun value => ⟨fun hget => ?_, fun hget => ?_⟩
  · exact get?_eq_some_of_mem hn (h.mem_iff.1 (mem_of_get?_eq_some hget))
  · exact get?_eq_some_of_mem hm (h.mem_iff.2 (mem_of_get?_eq_some hget))

/-- Maps with the same values hold the same pairs. -/
theorem perm_of_get?_eq {m n : Entries κ α} (hm : m.keys.Nodup) (hn : n.keys.Nodup)
    (h : ∀ key, m.get? key = n.get? key) : m.Perm n := by
  have hmem : ∀ {m n : Entries κ α}, m.keys.Nodup → (∀ key, m.get? key = n.get? key) →
      ∀ p ∈ m, p ∈ n := by
    intro m n hm h p hp
    have hget := get?_eq_some_of_mem hm hp
    rw [h] at hget
    exact mem_of_get?_eq_some hget
  refine (List.perm_ext_iff_of_nodup (List.Nodup.of_map _ hm) (List.Nodup.of_map _ hn)).2 ?_
  exact fun p => ⟨hmem hm h p, hmem hn (fun key => (h key).symm) p⟩

theorem foldl_put_of_nodup {m pairs : Entries κ α} (h : (m ++ pairs).keys.Nodup) :
    pairs.foldl (fun m p => put p.1 p.2 m) m = m ++ pairs := by
  induction pairs generalizing m with
  | nil => simp
  | cons p pairs ih =>
    have hp : p.1 ∉ m.keys := by
      intro hmem
      simp only [keys, List.map_append, List.map_cons, List.nodup_append] at h
      exact h.2.2 _ hmem _ List.mem_cons_self rfl
    rw [List.foldl_cons, put_of_not_mem hp, ih (by simpa using h)]
    simp

theorem head?_keys_foldl_put {m : Entries κ α} (hne : m ≠ []) (pairs : Entries κ α) :
    (pairs.foldl (fun m p => put p.1 p.2 m) m).keys.head? = m.keys.head? := by
  induction pairs generalizing m with
  | nil => rfl
  | cons p pairs ih =>
    obtain ⟨q, m, rfl⟩ := List.exists_cons_of_ne_nil hne
    have hput : put p.1 p.2 (q :: m) ≠ [] := by
      unfold put
      split <;> simp
    rw [List.foldl_cons, ih hput, keys_put]
    split <;> rfl

/-- Putting pairs on top of one pair gives the pairs exactly if the first of them replaces it. -/
theorem foldl_put_singleton_eq_iff {pairs : Entries κ α} (h : pairs.keys.Nodup) (p : κ × α) :
    pairs.foldl (fun m q => put q.1 q.2 m) [p] = pairs ↔ pairs.keys.head? = some p.1 := by
  constructor
  · intro heq
    have hhead := head?_keys_foldl_put (m := [p]) (by simp) pairs
    rwa [heq] at hhead
  · intro hhead
    cases pairs with
    | nil => cases hhead
    | cons q pairs =>
      have hkey : q.1 = p.1 := Option.some.inj hhead
      have hput : put q.1 q.2 [p] = [q] := by
        obtain ⟨k, v⟩ := q
        simp [put, show p.1 = k from hkey.symm]
      have hrest : pairs.foldl (fun m q => put q.1 q.2 m) [q] = [q] ++ pairs :=
        foldl_put_of_nodup h
      rw [List.foldl_cons, hput, hrest]
      rfl

theorem ofList_of_nodup {pairs : List (κ × α)} (h : (keys pairs).Nodup) : ofList pairs = pairs :=
  foldl_put_of_nodup (m := []) h

/-- The map of things with different keys gives each key what is made of its thing. -/
theorem get?_ofList_map {β : Type} {key : β → κ} {f : β → α} {xs : List β}
    (h : (xs.map key).Nodup) {x : β} (hx : x ∈ xs) :
    (ofList (xs.map fun x => (key x, f x))).get? (key x) = some (f x) := by
  have hkeys : (keys (xs.map fun x => (key x, f x))).Nodup := by
    simpa [keys, Function.comp_def] using h
  rw [ofList_of_nodup hkeys]
  exact get?_eq_some_of_mem hkeys (List.mem_map_of_mem hx)

theorem keys_push (key : κ) (value : α) (m : Entries κ (List α)) :
    (push key value m).keys = if key ∈ m.keys then m.keys else m.keys ++ [key] := by
  induction m with
  | nil => simp [push, keys]
  | cons p m ih =>
    obtain ⟨k, vs⟩ := p
    by_cases h : k = key
    · simp [push, keys, h]
    · simp only [push, keys, beq_iff_eq, h, if_false, List.map_cons] at ih ⊢
      rw [ih]
      by_cases hm : key ∈ List.map (fun p => p.1) m <;> simp [hm, Ne.symm h]

/-- A value joins the group of its key or opens one, and leaves the other groups alone. -/
theorem mem_push {m : Entries κ (List α)} (h : m.keys.Nodup) {key : κ} {value : α}
    {p : κ × List α} (hp : p ∈ push key value m) :
    (p ∈ m ∧ p.1 ≠ key) ∨ (∃ vs, (key, vs) ∈ m ∧ p = (key, vs ++ [value])) ∨
      (key ∉ m.keys ∧ p = (key, [value])) := by
  induction m with
  | nil => exact .inr (.inr ⟨by simp [keys], List.mem_singleton.1 hp⟩)
  | cons q m ih =>
    obtain ⟨k, vs⟩ := q
    obtain ⟨hk, hm⟩ := List.nodup_cons.1 h
    unfold push at hp
    split at hp
    · next heq =>
      obtain rfl : k = key := eq_of_beq heq
      rcases List.mem_cons.1 hp with rfl | hp
      · exact .inr (.inl ⟨vs, List.mem_cons_self, rfl⟩)
      · refine .inl ⟨List.mem_cons_of_mem _ hp, fun he => hk ?_⟩
        exact List.mem_map.2 ⟨p, hp, he⟩
    · next hne =>
      have hne : k ≠ key := by simpa using hne
      rcases List.mem_cons.1 hp with rfl | hp
      · exact .inl ⟨List.mem_cons_self, hne⟩
      · rcases ih hm hp with ⟨hp, hkey⟩ | ⟨ws, hws, rfl⟩ | ⟨hkey, rfl⟩
        · exact .inl ⟨List.mem_cons_of_mem _ hp, hkey⟩
        · exact .inr (.inl ⟨ws, List.mem_cons_of_mem _ hws, rfl⟩)
        · exact .inr (.inr ⟨by simpa [keys, Ne.symm hne] using hkey, rfl⟩)

omit [BEq κ] [LawfulBEq κ] in
@[simp] theorem keys_mapValues {β : Type} (f : α → β) (m : Entries κ α) :
    (mapValues f m).keys = m.keys := by
  simp [mapValues, keys]

omit [LawfulBEq κ] in
theorem get?_mapValues {β : Type} (f : α → β) (m : Entries κ α) (key : κ) :
    (mapValues f m).get? key = (m.get? key).map f := by
  simp only [mapValues, get?, List.find?_map, Option.map_map]
  rfl

omit [LawfulBEq κ] in
theorem mapValues_push {β : Type} (f : α → β) (key : κ) (value : α) (m : Entries κ (List α)) :
    mapValues (List.map f) (push key value m) = push key (f value) (mapValues (List.map f) m) := by
  induction m with
  | nil => rfl
  | cons p m ih =>
    obtain ⟨k, vs⟩ := p
    rw [push]
    by_cases h : (k == key) = true
    · simp [mapValues, push, h]
    · simp only [mapValues, push, h, List.map_cons] at ih ⊢
      simp [ih]

/-- The values that pairs give a key, in order. -/
def valuesOf (pairs : List (κ × α)) (key : κ) : List α :=
  (pairs.filter (·.1 == key)).map (·.2)

theorem mem_valuesOf {pairs : List (κ × α)} {key : κ} {value : α} :
    value ∈ valuesOf pairs key ↔ (key, value) ∈ pairs := by
  simp only [valuesOf, List.mem_map, List.mem_filter, beq_iff_eq]
  constructor
  · rintro ⟨⟨k, v⟩, ⟨hmem, rfl⟩, rfl⟩
    exact hmem
  · exact fun hmem => ⟨(key, value), ⟨hmem, rfl⟩, rfl⟩

/-- The groups of pairs: each key once, with all its values. -/
structure AreGroups (pairs : List (κ × α)) (m : Entries κ (List α)) : Prop where
  nodup : m.keys.Nodup
  values : ∀ p ∈ m, p.2 = valuesOf pairs p.1
  mem_keys : ∀ k, k ∈ m.keys ↔ ∃ v, (k, v) ∈ pairs

theorem AreGroups.push {pairs : List (κ × α)} {m : Entries κ (List α)} (h : AreGroups pairs m)
    (p : κ × α) : AreGroups (pairs ++ [p]) (push p.1 p.2 m) where
  nodup := by
    rw [keys_push]
    split
    · exact h.nodup
    · next hkey =>
      refine List.nodup_append.2 ⟨h.nodup, List.nodup_singleton _, ?_⟩
      rintro k hk _ hp rfl
      exact hkey (List.mem_singleton.1 hp ▸ hk)
  values := by
    intro q hq
    have hvalues : ∀ key, valuesOf (pairs ++ [p]) key =
        valuesOf pairs key ++ if p.1 == key then [p.2] else [] := by
      intro key
      simp only [valuesOf, List.filter_append, List.map_append, List.filter_singleton]
      cases p.1 == key <;> rfl
    rw [hvalues]
    rcases mem_push h.nodup hq with ⟨hq, hkey⟩ | ⟨vs, hvs, rfl⟩ | ⟨hkey, rfl⟩
    · rw [if_neg (by simpa using Ne.symm hkey), List.append_nil]
      exact h.values q hq
    · rw [if_pos (by simp), ← h.values _ hvs]
    · have hnone : valuesOf pairs p.1 = [] := by
        rw [List.eq_nil_iff_forall_not_mem]
        exact fun v hv => hkey ((h.mem_keys p.1).2 ⟨v, mem_valuesOf.1 hv⟩)
      rw [if_pos (by simp), hnone, List.nil_append]
  mem_keys := by
    intro k
    have hsplit : (∃ v, (k, v) ∈ pairs ++ [p]) ↔ (∃ v, (k, v) ∈ pairs) ∨ k = p.1 := by
      simp only [List.mem_append, List.mem_singleton, exists_or]
      refine or_congr_right ⟨fun ⟨v, hv⟩ => by rw [← hv], fun hk => ⟨p.2, by rw [hk]⟩⟩
    rw [hsplit, keys_push, ← h.mem_keys k]
    split
    · next hkey => exact ⟨.inl, fun hk => hk.elim id fun hk => hk ▸ hkey⟩
    · rw [List.mem_append, List.mem_singleton]

theorem AreGroups.foldl {pairs : List (κ × α)} {m : Entries κ (List α)} (h : AreGroups pairs m)
    (more : List (κ × α)) :
    AreGroups (pairs ++ more) (more.foldl (fun m p => Entries.push p.1 p.2 m) m) := by
  induction more generalizing pairs m with
  | nil => simpa using h
  | cons p more ih =>
    have hrest := ih (h.push p)
    rwa [List.append_assoc] at hrest

/-- Pushing pairs one after the other groups them. -/
theorem areGroups_foldl_push (pairs : List (κ × α)) :
    AreGroups pairs (pairs.foldl (fun m p => Entries.push p.1 p.2 m) []) := by
  have hempty : AreGroups ([] : List (κ × α)) [] := ⟨List.nodup_nil, by simp, by simp [keys]⟩
  simpa using hempty.foldl pairs

/-- What remains of pairs when the last one of each key wins: each key once, in the order in which
the keys first come, with the last pair that has it. -/
structure IsLastOf (pairs : List (κ × α)) (m : Entries κ α) : Prop where
  nodup : m.keys.Nodup
  mem_keys : ∀ k, k ∈ m.keys ↔ k ∈ keys pairs
  last : ∀ p ∈ m, ∃ before after, pairs = before ++ p :: after ∧ p.1 ∉ keys after
  order : m.keys.Pairwise fun a b => (keys pairs).idxOf a < (keys pairs).idxOf b

theorem IsLastOf.put {pairs : List (κ × α)} {m : Entries κ α} (h : IsLastOf pairs m)
    (p : κ × α) : IsLastOf (pairs ++ [p]) (put p.1 p.2 m) where
  nodup := nodup_keys_put h.nodup p.1 p.2
  mem_keys := by
    intro k
    have hkeys : k ∈ keys (pairs ++ [p]) ↔ k ∈ m.keys ∨ k = p.1 := by
      rw [h.mem_keys, keys, List.map_append, List.mem_append, List.map_singleton,
        List.mem_singleton]
      rfl
    rw [hkeys, keys_put]
    split
    · next hp => exact ⟨.inl, fun hk => hk.elim id fun hk => hk ▸ hp⟩
    · rw [List.mem_append, List.mem_singleton]
  last := by
    intro q hq
    by_cases hkey : p.1 = q.1
    · have hget := get?_eq_some_of_mem (nodup_keys_put h.nodup p.1 p.2) hq
      rw [get?_put, if_pos (beq_iff_eq.2 hkey)] at hget
      have hpair : q = p := Prod.ext hkey.symm (Option.some.inj hget).symm
      exact ⟨pairs, [], by rw [hpair], List.not_mem_nil⟩
    · have hold : q ∈ m := (mem_put hq).resolve_left fun he => hkey (congrArg Prod.fst he).symm
      obtain ⟨before, after, rfl, hafter⟩ := h.last q hold
      refine ⟨before, after ++ [p], by simp, ?_⟩
      rw [keys, List.map_append, List.mem_append, List.map_singleton, List.mem_singleton]
      exact not_or.2 ⟨hafter, Ne.symm hkey⟩
  order := by
    have hall : keys (pairs ++ [p]) = keys pairs ++ [p.1] := List.map_append
    have hsame : ∀ k ∈ m.keys, (keys pairs ++ [p.1]).idxOf k = (keys pairs).idxOf k :=
      fun k hk => List.idxOf_append_of_mem ((h.mem_keys k).1 hk)
    have hold : m.keys.Pairwise fun a b =>
        (keys pairs ++ [p.1]).idxOf a < (keys pairs ++ [p.1]).idxOf b := by
      refine h.order.imp_of_mem fun {a b} ha hb hlt => ?_
      rwa [hsame a ha, hsame b hb]
    rw [hall, keys_put]
    split
    · exact hold
    · next hp =>
      -- a key that is new comes behind all keys so far
      refine List.pairwise_append.2 ⟨hold, List.pairwise_singleton _ _, fun a ha b hb => ?_⟩
      rw [List.mem_singleton.1 hb, hsame a ha,
        List.idxOf_append_of_notMem fun hmem => hp ((h.mem_keys _).2 hmem)]
      exact Nat.lt_of_lt_of_le (List.idxOf_lt_length_of_mem ((h.mem_keys a).1 ha))
        (Nat.le_add_right _ _)

theorem IsLastOf.foldl {pairs : List (κ × α)} {m : Entries κ α} (h : IsLastOf pairs m)
    (more : List (κ × α)) :
    IsLastOf (pairs ++ more) (more.foldl (fun m p => Entries.put p.1 p.2 m) m) := by
  induction more generalizing pairs m with
  | nil => simpa using h
  | cons p more ih =>
    have hrest := ih (h.put p)
    rwa [List.append_assoc] at hrest

/-- Putting pairs one after the other keeps the last one of each key. -/
theorem isLastOf_ofList (pairs : List (κ × α)) : IsLastOf pairs (ofList pairs) := by
  have hempty : IsLastOf ([] : List (κ × α)) [] :=
    ⟨List.nodup_nil, fun _ => Iff.rfl, by simp, List.Pairwise.nil⟩
  exact hempty.foldl pairs

omit [LawfulBEq κ] in
/-- Of two lists of pairs, the later one wins each key that it has. -/
theorem IsLastOf.last_of_append {before after : List (κ × α)} {m : Entries κ α}
    (h : IsLastOf (before ++ after) m) {p : κ × α} (hp : p ∈ m) (hkey : p.1 ∈ keys after) :
    ∃ start rest, after = start ++ p :: rest ∧ p.1 ∉ keys rest := by
  obtain ⟨start, rest, heq, hrest⟩ := h.last p hp
  rcases List.append_eq_append_iff.1 heq with ⟨mid, hstart, hafter⟩ | ⟨mid, hbefore, hmid⟩
  · exact ⟨mid, rest, hafter, hrest⟩
  · cases mid with
    | nil => exact ⟨[], rest, by simpa using hmid.symm, hrest⟩
    | cons q mid =>
      -- the pair would be of the earlier list, and the later one in what is behind it
      obtain ⟨-, htail⟩ : p = q ∧ rest = mid ++ after := List.cons.inj hmid
      rw [htail, keys, List.map_append] at hrest
      exact absurd (List.mem_append_right _ hkey) hrest

end Entries

/-! Sorting by a key that tells which of two things comes first. -/

section Sorting
variable {α β : Type} [LinearOrder β] {le : α → α → Bool}

theorem pairwise_mergeSort_key (key : α → β) (h : ∀ a b, le a b = true ↔ key a ≤ key b)
    (l : List α) : (l.mergeSort le).Pairwise fun a b => key a ≤ key b := by
  refine (List.pairwise_mergeSort ?_ ?_ l).imp fun hab => (h _ _).1 hab
  · intro a b c hab hbc
    exact (h a c).2 (le_trans ((h a b).1 hab) ((h b c).1 hbc))
  · intro a b
    rw [Bool.or_eq_true, h, h]
    exact le_total _ _

/-- Things with different keys are sorted into strictly increasing order. -/
theorem pairwise_lt_mergeSort_key (key : α → β) (h : ∀ a b, le a b = true ↔ key a ≤ key b)
    {l : List α} (hkeys : (l.map key).Nodup) :
    (l.mergeSort le).Pairwise fun a b => key a < key b := by
  have hne : (l.mergeSort le).Pairwise fun a b => key a ≠ key b :=
    List.pairwise_map.1 (((List.mergeSort_perm l le).map key).nodup_iff.2 hkeys)
  exact (pairwise_mergeSort_key key h l).imp₂ (fun _ _ => lt_of_le_of_ne) hne

end Sorting
end ApiScribe
