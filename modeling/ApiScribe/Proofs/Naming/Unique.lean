import Mathlib.Data.List.Dedup
import Mathlib.Data.List.Nodup
import Mathlib.Data.List.Perm.Subperm
import ApiScribe.Naming

/-! Unique names. A search through numbered names ends with the least number that is free, so a name
that is made unique is new, and a list of such names holds none twice. -/
namespace ApiScribe
namespace Naming

/-- The numbered names of a base are all different. -/
theorem numbered_injective (base : String) :
    Function.Injective fun n : Nat => base ++ toString n := by
  intro m n h
  have hl : (toString m).toList = (toString n).toList := by
    simpa using congrArg String.toList h
  have hd : Nat.toDigits 10 m = Nat.toDigits 10 n := by
    simpa only [Nat.toString_eq_repr, Nat.toList_repr] using hl
  simpa using congrArg (Nat.ofDigitChars 10 · 0) hd

/-- A number is written in digits. -/
theorem isDigit_of_mem_toString {n : Nat} {c : Char} (h : c ∈ (toString n).toList) :
    c.isDigit = true := by
  rw [Nat.toString_eq_repr, Nat.toList_repr] at h
  exact Nat.isDigit_of_mem_toDigits (by decide) (by decide) h

/-- The least number from `index` on with which a base is not used. -/
structure IsFirstFree (used : List String) (base : String) (index n : Nat) : Prop where
  reached : index ≤ n
  free : base ++ toString n ∉ used
  passed : ∀ k, index ≤ k → k < n → base ++ toString k ∈ used

theorem IsFirstFree.eq {used : List String} {base : String} {index m n : Nat}
    (hm : IsFirstFree used base index m) (hn : IsFirstFree used base index n) : m = n := by
  by_contra hne
  rcases Nat.lt_or_gt_of_ne hne with h | h
  · exact hm.free (hn.passed m hm.reached h)
  · exact hn.free (hm.passed n hn.reached h)

theorem IsFirstFree.congr {used used' : List String} (h : ∀ s, s ∈ used ↔ s ∈ used')
    {base : String} {index n : Nat} (hn : IsFirstFree used base index n) :
    IsFirstFree used' base index n :=
  ⟨hn.reached, fun hmem => hn.free ((h _).2 hmem), fun k h1 h2 => (h _).1 (hn.passed k h1 h2)⟩

/-- Different names for numbers in a row are used only as often as there are used names. -/
theorem length_le_of_forall_mem {α : Type} {name : Nat → α} (hname : Function.Injective name)
    {used : List α} {index count : Nat}
    (h : ∀ k, index ≤ k → k < index + count → name k ∈ used) : count ≤ used.length := by
  have hsub : (List.range' index count).map name ⊆ used := by
    intro s hs
    obtain ⟨k, hk, rfl⟩ := List.mem_map.1 hs
    have hrange := List.mem_range'_1.1 hk
    exact h k hrange.1 hrange.2
  have hnodup := List.Nodup.map hname (List.nodup_range' (s := index) (n := count))
  simpa using (List.Nodup.subperm hnodup hsub).length_le

/-- The number where a search from `index` on for a name that is not used stops. -/
def search {α : Type} [DecidableEq α] (used : List α) (name : Nat → α) : Nat → Nat → Nat
  | 0, index => index
  | fuel + 1, index => if name index ∈ used then search used name fuel (index + 1) else index

section Search
variable {α : Type} [DecidableEq α]

/-- A search passes used names only, and it stops at a used one only if its fuel runs out. -/
theorem search_cases (used : List α) (name : Nat → α) (fuel index : Nat) :
    index ≤ search used name fuel index ∧
      (∀ k, index ≤ k → k < search used name fuel index → name k ∈ used) ∧
      (name (search used name fuel index) ∈ used → search used name fuel index = index + fuel) := by
  induction fuel generalizing index with
  | zero => exact ⟨Nat.le_refl _, fun k h1 h2 => absurd h2 (Nat.not_lt.2 h1), fun _ => rfl⟩
  | succ fuel ih =>
    simp only [search]
    split
    · next hmem =>
      obtain ⟨hle, hpassed, hstop⟩ := ih (index + 1)
      refine ⟨by omega, ?_, fun h => by rw [hstop h]; omega⟩
      intro k h1 h2
      by_cases hk : k = index
      · rw [hk]
        exact hmem
      · exact hpassed k (by omega) h2
    · next hmem =>
      exact ⟨Nat.le_refl _, fun k h1 h2 => absurd h2 (Nat.not_lt.2 h1), fun h => absurd h hmem⟩

/-- With as much fuel as there are used names the search ends at one that is not used. -/
theorem search_not_mem {name : Nat → α} (hname : Function.Injective name) (used : List α)
    (index : Nat) : name (search used name used.length index) ∉ used := by
  obtain ⟨hle, hpassed, hstop⟩ := search_cases used name used.length index
  intro hmem
  have hend := hstop hmem
  have hall : ∀ k, index ≤ k → k < index + (used.length + 1) → name k ∈ used := by
    intro k hk hlt
    by_cases hlast : k = search used name used.length index
    · rw [hlast]
      exact hmem
    · exact hpassed k hk (by omega)
  have hlength := length_le_of_forall_mem hname hall
  omega

end Search

theorem firstFree_eq_search (used : List String) (base : String) (fuel index : Nat) :
    firstFree used base fuel index =
      base ++ toString (search used (fun n => base ++ toString n) fuel index) := by
  induction fuel generalizing index with
  | zero => rfl
  | succ fuel ih =>
    simp only [firstFree, search]
    split
    · exact ih (index + 1)
    · rfl

/-- With as much fuel as there are used names the search finds the first free number. -/
theorem exists_firstFree (used : List String) (base : String) (index : Nat) :
    ∃ n, firstFree used base used.length index = base ++ toString n ∧
      IsFirstFree used base index n := by
  obtain ⟨hle, hpassed, -⟩ :=
    search_cases used (fun n => base ++ toString n) used.length index
  exact ⟨_, firstFree_eq_search used base used.length index, hle,
    search_not_mem (numbered_injective base) used index, hpassed⟩

theorem uniqueName_of_not_mem {used : List String} {base : String} (h : base ∉ used) :
    uniqueName used base = base := if_neg h

theorem uniqueName_of_mem {used : List String} {base : String} (h : base ∈ used) :
    ∃ n, uniqueName used base = base ++ toString n ∧ IsFirstFree used base 2 n := by
  rw [uniqueName, if_pos h]
  exact exists_firstFree used base 2

theorem uniqueName_fresh (used : List String) (base : String) : uniqueName used base ∉ used := by
  by_cases h : base ∈ used
  · obtain ⟨n, hn, hfree⟩ := uniqueName_of_mem h
    rw [hn]
    exact hfree.free
  · rwa [uniqueName_of_not_mem h]

@[simp] theorem length_uniqueNames (used bases : List String) :
    (uniqueNames used bases).1.length = bases.length := by
  induction bases generalizing used with
  | nil => rfl
  | cons base bases ih => simp [uniqueNames, ih]

/-- Unique names are none of those used before, and no two of them are the same. -/
theorem uniqueNames_nodup (used bases : List String) :
    (uniqueNames used bases).1.Nodup ∧ ∀ s ∈ (uniqueNames used bases).1, s ∉ used := by
  induction bases generalizing used with
  | nil => exact ⟨List.nodup_nil, by simp [uniqueNames]⟩
  | cons base bases ih =>
    obtain ⟨hnodup, hnew⟩ := ih (uniqueName used base :: used)
    simp only [uniqueNames, List.nodup_cons, List.forall_mem_cons]
    refine ⟨⟨fun h => hnew _ h List.mem_cons_self, hnodup⟩, uniqueName_fresh used base, ?_⟩
    exact fun s hs hmem => hnew s hs (List.mem_cons_of_mem _ hmem)

/-- Names that are new and all different are unique already. -/
theorem uniqueNames_of_nodup {used names : List String} (h : names.Nodup)
    (hnew : ∀ s ∈ names, s ∉ used) : (uniqueNames used names).1 = names := by
  induction names generalizing used with
  | nil => rfl
  | cons name names ih =>
    obtain ⟨hname, hnames⟩ := List.nodup_cons.1 h
    have hfree := hnew name List.mem_cons_self
    simp only [uniqueNames, uniqueName_of_not_mem hfree]
    rw [ih hnames]
    intro s hs hused
    rcases List.mem_cons.1 hused with rfl | hused
    · exact hname hs
    · exact hnew s (List.mem_cons_of_mem name hs) hused

/-- What holds of all bases and stays true with a number behind holds of all unique names. -/
theorem forall_mem_uniqueNames {p : String → Prop}
    (hnumber : ∀ s n, p s → p (s ++ toString (n : Nat))) {bases : List String}
    (h : ∀ s ∈ bases, p s) (used : List String) : ∀ s ∈ (uniqueNames used bases).1, p s := by
  induction bases generalizing used with
  | nil => simp [uniqueNames]
  | cons base bases ih =>
    obtain ⟨hbase, hbases⟩ := List.forall_mem_cons.1 h
    simp only [uniqueNames, List.forall_mem_cons]
    refine ⟨?_, ih hbases _⟩
    by_cases hmem : base ∈ used
    · obtain ⟨n, hn, -⟩ := uniqueName_of_mem hmem
      rw [hn]
      exact hnumber base n hbase
    · rwa [uniqueName_of_not_mem hmem]

/-- The loop that looks for an unused name, without a bound of its own. It tries `candidate`, and
`index` is the number that comes next; `passed` counts the used names that it meets before it ends
with `name`. -/
inductive Tries (used : List String) (base : String) : String → Nat → Nat → String → Prop
  | done {candidate : String} {index : Nat} (h : candidate ∉ used) :
      Tries used base candidate index 0 candidate
  | next {candidate name : String} {index passed : Nat} (h : candidate ∈ used)
      (hrest : Tries used base (base ++ toString index) (index + 1) passed name) :
      Tries used base candidate index (passed + 1) name

/-- The names that the loop tries: the base, and the base with the numbers from 2 on. -/
def candidate (base : String) : Nat → String
  | 0 => base
  | k + 1 => base ++ toString (k + 2)

theorem candidate_injective (base : String) : Function.Injective (candidate base) := by
  have hlonger : ∀ n : Nat, base ++ toString n ≠ base := by
    intro n h
    have hlength := congrArg String.length h
    simp [Nat.toString_eq_repr] at hlength
  intro m n h
  cases m with
  | zero =>
    cases n with
    | zero => rfl
    | succ n => exact absurd h.symm (hlonger (n + 2))
  | succ m =>
    cases n with
    | zero => exact absurd h (hlonger (m + 2))
    | succ n =>
      have hnumber := numbered_injective base h
      omega

/-- The loop passes the used names in front of the first that is not used. -/
theorem tries_candidate {used : List String} {base : String} {n : Nat}
    (hused : ∀ k, k < n → candidate base k ∈ used) (hfree : candidate base n ∉ used) :
    ∀ k, k ≤ n → Tries used base (candidate base (n - k)) (n - k + 2) k (candidate base n) := by
  intro k
  induction k with
  | zero => exact fun _ => .done hfree
  | succ k ih =>
    intro hk
    have hnext : n - k = n - (k + 1) + 1 := by omega
    have hrest := ih (by omega)
    rw [hnext] at hrest
    exact .next (hused _ (by omega)) hrest

/-- The loop ends in one way only. -/
theorem Tries.unique {used : List String} {base start name name' : String}
    {index passed passed' : Nat} (h : Tries used base start index passed name)
    (h' : Tries used base start index passed' name') : passed = passed' ∧ name = name' := by
  induction h generalizing passed' with
  | done h =>
    cases h' with
    | done => exact ⟨rfl, rfl⟩
    | next h' => exact absurd h' h
  | next h hrest ih =>
    cases h' with
    | done h' => exact absurd h h'
    | next h' hrest' =>
      obtain ⟨rfl, rfl⟩ := ih hrest'
      exact ⟨rfl, rfl⟩

/-- A name made unique is the first candidate that is not used. -/
theorem exists_candidate (used : List String) (base : String) :
    ∃ n, uniqueName used base = candidate base n ∧ candidate base n ∉ used ∧
      ∀ k, k < n → candidate base k ∈ used := by
  by_cases h : base ∈ used
  · obtain ⟨n, hn, hfree⟩ := uniqueName_of_mem h
    obtain ⟨m, rfl⟩ : ∃ m, n = m + 2 := ⟨n - 2, by have := hfree.reached; omega⟩
    refine ⟨m + 1, hn, hfree.free, fun k hk => ?_⟩
    cases k with
    | zero => exact h
    | succ k => exact hfree.passed (k + 2) (by omega) (by omega)
  · exact ⟨0, uniqueName_of_not_mem h, h, fun k hk => absurd hk (Nat.not_lt_zero k)⟩

/-- The loop ends with the unique name. It passes no more names than are used. -/
theorem exists_tries_uniqueName (used : List String) (base : String) :
    ∃ passed ≤ used.dedup.length, Tries used base base 2 passed (uniqueName used base) := by
  obtain ⟨n, hn, hfree, hused⟩ := exists_candidate used base
  refine ⟨n, ?_, ?_⟩
  · have hall : ∀ k, 0 ≤ k → k < 0 + n → candidate base k ∈ used.dedup :=
      fun k _ hk => List.mem_dedup.2 (hused k (by omega))
    exact length_le_of_forall_mem (candidate_injective base) hall
  · have htries := tries_candidate hused hfree n (Nat.le_refl n)
    rw [Nat.sub_self] at htries
    rw [hn]
    exact htries

/-- One more call goes on with what the calls before it have used. -/
theorem uniqueNames_concat (used bases : List String) (base : String) :
    uniqueNames used (bases ++ [base]) =
      ((uniqueNames used bases).1 ++ [uniqueName (uniqueNames used bases).2 base],
        uniqueName (uniqueNames used bases).2 base :: (uniqueNames used bases).2) := by
  induction bases generalizing used with
  | nil => rfl
  | cons first bases ih => simp [uniqueNames, ih]

theorem uniqueNames_eq_self_iff (used bases : List String) :
    (uniqueNames used bases).1 = bases ↔ bases.Nodup ∧ ∀ s ∈ bases, s ∉ used := by
  refine ⟨fun h => ?_, fun h => uniqueNames_of_nodup h.1 h.2⟩
  have hnames := uniqueNames_nodup used bases
  rwa [h] at hnames

/-- **Unique names.** The loop for a base ends, with the base if it is not used and otherwise with
the base and the least number from 2 on that makes it unused. Call after call, each with the names
before it used too, no two names are the same and none was used at first, and names come out as they
went in exactly if they are all different and unused. -/
theorem tries_uniqueName_and_nodup_uniqueNames (used : List String) :
    (∀ base, (∃ passed ≤ used.dedup.length, Tries used base base 2 passed (uniqueName used base)) ∧
      (∀ passed name, Tries used base base 2 passed name → name = uniqueName used base) ∧
      (uniqueName used base = base ↔ base ∉ used) ∧
      (base ∈ used → ∃ n, uniqueName used base = base ++ toString n ∧
        IsFirstFree used base 2 n)) ∧
    (uniqueNames used [] = ([], used) ∧ ∀ bases base, uniqueNames used (bases ++ [base]) =
      ((uniqueNames used bases).1 ++ [uniqueName (uniqueNames used bases).2 base],
        uniqueName (uniqueNames used bases).2 base :: (uniqueNames used bases).2)) ∧
    ∀ bases, (uniqueNames used bases).1.Nodup ∧ (∀ s ∈ (uniqueNames used bases).1, s ∉ used) ∧
      ((uniqueNames used bases).1 = bases ↔ bases.Nodup ∧ ∀ s ∈ bases, s ∉ used) := by
  refine ⟨fun base => ⟨exists_tries_uniqueName used base, fun passed name h => ?_,
    ⟨fun h hmem => uniqueName_fresh used base (h.symm ▸ hmem), uniqueName_of_not_mem⟩,
    uniqueName_of_mem⟩, ⟨rfl, uniqueNames_concat used⟩, fun bases =>
    ⟨(uniqueNames_nodup used bases).1, (uniqueNames_nodup used bases).2,
      uniqueNames_eq_self_iff used bases⟩⟩
  obtain ⟨_, -, htries⟩ := exists_tries_uniqueName used base
  exact (h.unique htries).2

example : (uniqueNames ["Admin"] ["Admin", "User", "Admin2"]).1 = ["Admin2", "User", "Admin22"] := by
  decide +kernel

end Naming
end ApiScribe
