import Mathlib.Data.List.Pairwise
import Mathlib.Data.List.Perm.Basic
import ApiScribe.Value.Order
import ApiScribe.Proofs.Outcome

/-! Sorting by scalars. Sorted things are the things that were given, in another order, and two
things are only sorted when their scalars can be compared with one of them. So texts, which can be
spelled in bytes as well, come once among sorted keys. -/
namespace ApiScribe
namespace Scalar

/-- Pairing things with their ranks loses none of them. -/
theorem mapM_rank_eq_some {α : Type} {key : α → Scalar} {xs : List α} {ranked : List (Rank × α)}
    (h : (xs.mapM fun x => (rank? (key x)).map fun r => (r, x)) = some ranked) :
    ranked.map (·.2) = xs ∧ ∀ x ∈ xs, ∃ r, rank? (key x) = some r ∧ (r, x) ∈ ranked := by
  induction xs generalizing ranked with
  | nil =>
    rw [List.mapM_nil] at h
    cases h
    simp
  | cons x xs ih =>
    simp only [List.mapM_cons, Option.bind_eq_bind, Option.bind_eq_some_iff,
      Option.map_eq_some_iff] at h
    obtain ⟨_, ⟨r, hr, rfl⟩, rest, hrest, h⟩ := h
    cases h
    obtain ⟨hmap, hall⟩ := ih hrest
    refine ⟨by simp [hmap], ?_⟩
    intro y hy
    rcases List.mem_cons.1 hy with rfl | hy
    · exact ⟨r, hr, List.mem_cons_self⟩
    · obtain ⟨s, hs, hm⟩ := hall y hy
      exact ⟨s, hs, List.mem_cons_of_mem _ hm⟩

theorem sortOn_eq_ok {α : Type} {key : α → Scalar} {xs ys : List α}
    (h : sortOn key xs = .ok ys) :
    ys.Perm xs ∧ (xs.length ≤ 1 ∨
      ∃ r, ∀ x ∈ xs, ∃ s, rank? (key x) = some s ∧ (Rank.lt? r s).isSome = true) := by
  unfold sortOn at h
  split at h
  · next hlen =>
    cases h
    exact ⟨.refl _, .inl hlen⟩
  · obtain ⟨ranked, hranked, h⟩ := Outcome.bind_eq_ok.1 h
    obtain ⟨hmap, hall⟩ := mapM_rank_eq_some (Outcome.expect_eq_ok.1 hranked)
    split at h
    · cases h
      rw [← hmap]
      exact ⟨.refl _, .inl (by simp)⟩
    · next r _ rest =>
      split at h
      · next hc =>
        cases h
        refine ⟨?_, .inr ⟨r, ?_⟩⟩
        · rw [← hmap]
          exact (List.mergeSort_perm _ _).map _
        · intro x hx
          obtain ⟨s, hs, hm⟩ := hall x hx
          exact ⟨s, hs, List.all_eq_true.1 hc s (List.mem_map_of_mem hm)⟩
      · exact absurd h Outcome.unexpected_ne_ok

/-- What is in order stays as it is. -/
theorem sortOn_of_pairwise {α : Type} {key : α → Scalar} {xs : List α} {ranked : List (Rank × α)}
    (hranked : (xs.mapM fun x => (rank? (key x)).map fun r => (r, x)) = some ranked)
    (hcomparable : ∀ p ∈ ranked.head?, areComparable p.1 (ranked.map (·.1)) = true)
    (hle : ranked.Pairwise fun p q => p.1.le q.1 = true) : sortOn key xs = .ok xs := by
  obtain ⟨hmap, -⟩ := mapM_rank_eq_some hranked
  unfold sortOn
  split
  · rfl
  · refine Outcome.bind_eq_ok.2 ⟨ranked, Outcome.expect_eq_ok.2 hranked, ?_⟩
    cases ranked with
    | nil => exact congrArg Except.ok hmap
    | cons p ranked =>
      dsimp only
      rw [if_pos (hcomparable p rfl), List.mergeSort_of_pairwise hle, hmap]
      rfl

/-- Things are sorted in the same way as what is made of them. -/
theorem sortOn_map {α β : Type} (f : α → β) (key : β → Scalar) (xs : List α) :
    sortOn key (xs.map f) = List.map f <$> sortOn (fun x => key (f x)) xs := by
  have hranked : (xs.map f).mapM (fun y => (rank? (key y)).map fun r => (r, y)) =
      (xs.mapM fun x => (rank? (key (f x))).map fun r => (r, x)).map
        (List.map fun p => (p.1, f p.2)) := by
    induction xs with
    | nil => rfl
    | cons x xs ih =>
      simp only [List.map_cons, List.mapM_cons, ih]
      cases rank? (key (f x)) <;>
        cases xs.mapM (fun x => (rank? (key (f x))).map fun r => (r, x)) <;> rfl
  unfold sortOn
  rw [List.length_map, hranked]
  split
  · rfl
  cases xs.mapM (fun x => (rank? (key (f x))).map fun r => (r, x)) with
  | none => rfl
  | some ranked =>
    cases ranked with
    | nil => rfl
    | cons p ranked =>
      have hranks : ((p :: ranked).map fun q => (q.1, f q.2)).map (·.1) =
          (p :: ranked).map (·.1) := by
        rw [List.map_map]
        rfl
      have hsort : ((p :: ranked).map fun q => (q.1, f q.2)).mergeSort (fun q r => q.1.le r.1) =
          ((p :: ranked).mergeSort fun q r => q.1.le r.1).map fun q => (q.1, f q.2) :=
        (List.map_mergeSort (f := fun q : Rank × α => (q.1, f q.2)) fun _ _ _ _ => rfl).symm
      simp only [Option.map_some, Outcome.expect, bind, Except.bind, hranks, hsort]
      rw [List.map_cons]
      dsimp only
      split
      · rw [map_pure, List.map_map, List.map_map]
        rfl
      · rfl

theorem ofUtf8?_injective {bs bs' : Bytes} {s : String} (h : Text.ofUtf8? bs = some s)
    (h' : Text.ofUtf8? bs' = some s) : bs = bs' := by
  have hbytes : ∀ {b : Bytes}, Text.ofUtf8? b = some s → s.toByteArray = ⟨b.toArray⟩ := by
    intro b hb
    simp only [Text.ofUtf8?, String.fromUTF8?, Option.dite_none_right_eq_some] at hb
    obtain ⟨_, hb⟩ := hb
    cases hb
    rfl
  have heq := (hbytes h).symm.trans (hbytes h')
  simpa using congrArg ByteArray.data heq

theorem string_eq_ok {k : Scalar} {s : String} (h : Check.string (.scalar k) = .ok s) :
    k = .str s ∨ ∃ bs, k = .bytes bs ∧ Text.ofUtf8? bs = some s := by
  cases k with
  | str t =>
    cases h
    exact .inl rfl
  | bytes bs =>
    refine .inr ⟨bs, rfl, ?_⟩
    simp only [Check.string] at h
    split at h
    · next t ht =>
      cases h
      exact ht
    · simp [Checked.reject] at h
  | _ => simp [Check.string, Checked.reject] at h

/-- Keys that can be compared with one another and are the same text are the same key. -/
theorem same_of_string {k k' : Scalar} {r q q' : Rank} {s : String} (hq : k.rank? = some q)
    (hq' : k'.rank? = some q') (hr : (r.lt? q).isSome = true) (hr' : (r.lt? q').isSome = true)
    (h : Check.string (.scalar k) = .ok s) (h' : Check.string (.scalar k') = .ok s) :
    (k == k') = true := by
  rcases string_eq_ok h with rfl | ⟨bs, rfl, hb⟩ <;>
    rcases string_eq_ok h' with rfl | ⟨bs', rfl, hb'⟩
  · simp [BEq.beq, Scalar.same]
  · cases hq
    cases hq'
    cases r <;> simp [Rank.lt?] at hr hr'
  · cases hq
    cases hq'
    cases r <;> simp [Rank.lt?] at hr hr'
  · rw [ofUtf8?_injective hb hb']
    show (bs' == bs') = true
    exact beq_self_eq_true bs'

/-- Of entries sorted by different keys no two keys are the same text. -/
theorem pairwise_sortOn_string {es sorted : List (Scalar × Value)}
    (hdistinct : es.Pairwise fun p q => (p.1 == q.1) = false)
    (h : sortOn (·.1) es = .ok sorted) :
    sorted.Pairwise fun p q => ∀ s, Check.string (.scalar p.1) = .ok s →
      Check.string (.scalar q.1) ≠ .ok s := by
  obtain ⟨hperm, hcases⟩ := sortOn_eq_ok h
  have hsymm : ∀ {p q : Scalar × Value}, (∀ s, Check.string (.scalar p.1) = .ok s →
      Check.string (.scalar q.1) ≠ .ok s) → ∀ s, Check.string (.scalar q.1) = .ok s →
      Check.string (.scalar p.1) ≠ .ok s := fun h s hq hp => h s hp hq
  refine (hperm.pairwise_iff hsymm).2 ?_
  rcases hcases with hlen | ⟨r, hr⟩
  · match es, hlen with
    | [], _ => exact List.Pairwise.nil
    | [p], _ => exact List.pairwise_singleton _ _
  · refine List.Pairwise.imp_of_mem ?_ hdistinct
    intro p q hp hq hpq s hs hs'
    obtain ⟨_, hpr, hpc⟩ := hr p hp
    obtain ⟨_, hqr, hqc⟩ := hr q hq
    rw [same_of_string hpr hqr hpc hqc hs hs'] at hpq
    cases hpq

end Scalar
end ApiScribe
