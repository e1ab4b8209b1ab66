import Mathlib.Data.List.Forall2
import ApiScribe.Checked

/-! Outcomes of runs. A run of steps succeeds if every step does, and what is known of its result
is known of the results of its steps. -/
namespace ApiScribe
namespace Outcome
variable {α β : Type}

theorem bind_eq_ok {x : Outcome α} {f : α → Outcome β} {b : β} :
    (x >>= f) = .ok b ↔ ∃ a, x = .ok a ∧ f a = .ok b := by
  cases x with
  | error e => simp [bind, Except.bind]
  | ok a => simp [bind, Except.bind]

theorem map_eq_ok {x : Outcome α} {f : α → β} {b : β} :
    f <$> x = .ok b ↔ ∃ a, x = .ok a ∧ f a = b := by
  cases x with
  | error e => simp [Functor.map, Except.map]
  | ok a => simp [Functor.map, Except.map]

/-- Steps that go on in the same way after either case go on so after the choice between them. -/
theorem ite_bind {c : Prop} [Decidable c] (x y : Outcome α) (f : α → Outcome β) :
    (if c then x >>= f else y >>= f) = (if c then x else y) >>= f := by
  split <;> rfl

theorem ite_bind_eq_ok {c : Prop} [Decidable c] {x y : Outcome α} {f : α → Outcome β} {b : β} :
    (if c then x >>= f else y >>= f) = .ok b ↔
      ∃ a, (if c then x else y) = .ok a ∧ f a = .ok b := by
  rw [ite_bind, bind_eq_ok]

theorem pure_eq_ok {a b : α} : (pure a : Outcome α) = .ok b ↔ a = b := by
  simp [pure, Except.pure]

theorem fail_ne_ok {f : Fault} {a : α} : (fail f : Outcome α) ≠ .ok a := by
  simp [fail]

theorem unexpected_ne_ok {a : α} : (unexpected : Outcome α) ≠ .ok a := by
  simp [unexpected]

theorem expect_eq_ok {o : Option α} {a : α} : expect o = .ok a ↔ o = some a := by
  cases o with
  | none => simp [expect]
  | some b => simp [expect]

/-- A list of steps succeeds with the results of its steps, in order. -/
theorem mapM_eq_ok {f : α → Outcome β} {xs : List α} {ys : List β} :
    xs.mapM f = .ok ys ↔ List.Forall₂ (fun x y => f x = .ok y) xs ys := by
  induction xs generalizing ys with
  | nil => cases ys <;> simp [pure_eq_ok]
  | cons x xs ih =>
    rw [List.mapM_cons, bind_eq_ok]
    constructor
    · rintro ⟨y, hy, h⟩
      obtain ⟨zs, hzs, h⟩ := bind_eq_ok.1 h
      rw [← pure_eq_ok.1 h]
      exact .cons hy (ih.1 hzs)
    · intro h
      cases h with
      | cons hy hys => exact ⟨_, hy, bind_eq_ok.2 ⟨_, ih.2 hys, rfl⟩⟩

/-- If every step succeeds with a known result, the list of steps does. -/
theorem mapM_eq_ok_map {f : α → Outcome β} {g : α → β} {xs : List α}
    (h : ∀ x ∈ xs, f x = .ok (g x)) : xs.mapM f = .ok (xs.map g) :=
  mapM_eq_ok.2 (List.forall₂_map_right_iff.2 (List.forall₂_same.2 h))

/-- If every step succeeds, the list of steps does, and what is known of all results stays known. -/
theorem exists_mapM_eq_ok {f : α → Outcome β} {p : β → Prop} {xs : List α}
    (h : ∀ x ∈ xs, ∃ y, f x = .ok y ∧ p y) : ∃ ys, xs.mapM f = .ok ys ∧ ∀ y ∈ ys, p y := by
  induction xs with
  | nil => exact ⟨[], rfl, by simp⟩
  | cons x xs ih =>
    obtain ⟨y, hy, hp⟩ := h x List.mem_cons_self
    obtain ⟨ys, hys, hall⟩ := ih fun z hz => h z (List.mem_cons_of_mem x hz)
    refine ⟨y :: ys, ?_, List.forall_mem_cons.2 ⟨hp, hall⟩⟩
    rw [List.mapM_cons, hy, hys]
    rfl

/-- What is related item by item has something related for each item. -/
theorem exists_of_forall₂ {R : α → β → Prop} {xs : List α} {ys : List β}
    (h : List.Forall₂ R xs ys) {y : β} (hy : y ∈ ys) : ∃ x ∈ xs, R x y := by
  induction h with
  | nil => simp at hy
  | cons hx _ ih =>
    rcases List.mem_cons.1 hy with rfl | hy
    · exact ⟨_, List.mem_cons_self, hx⟩
    · obtain ⟨x, hm, hR⟩ := ih hy
      exact ⟨x, List.mem_cons_of_mem _ hm, hR⟩

theorem exists_of_mem_mapM {f : α → Outcome β} {xs : List α} {ys : List β}
    (h : xs.mapM f = .ok ys) {y : β} (hy : y ∈ ys) : ∃ x ∈ xs, f x = .ok y :=
  exists_of_forall₂ (mapM_eq_ok.1 h) hy

theorem exists_of_mapM_mem {f : α → Outcome β} {xs : List α} {ys : List β}
    (h : xs.mapM f = .ok ys) {x : α} (hx : x ∈ xs) : ∃ y ∈ ys, f x = .ok y :=
  exists_of_forall₂ (mapM_eq_ok.1 h).flip hx

/-- The steps of a list succeed with results of one kind exactly if each step does. -/
theorem exists_mapM_eq_ok_iff {f : α → Outcome β} {p : β → Prop} {xs : List α} :
    (∃ ys, xs.mapM f = .ok ys ∧ ∀ y ∈ ys, p y) ↔ ∀ x ∈ xs, ∃ y, f x = .ok y ∧ p y := by
  constructor
  · rintro ⟨ys, hys, hall⟩ x hx
    obtain ⟨y, hy, hxy⟩ := exists_of_mapM_mem hys hx
    exact ⟨y, hxy, hall y hy⟩
  · exact exists_mapM_eq_ok

theorem exists_map_eq_ok_iff {x : Outcome α} {f : α → β} {p : β → Prop} :
    (∃ y, f <$> x = .ok y ∧ p y) ↔ ∃ a, x = .ok a ∧ p (f a) := by
  simp only [map_eq_ok]
  constructor
  · rintro ⟨_, ⟨a, ha, rfl⟩, hp⟩
    exact ⟨a, ha, hp⟩
  · rintro ⟨a, ha, hp⟩
    exact ⟨f a, ⟨a, ha, rfl⟩, hp⟩

/-- What every step keeps, the whole list of steps keeps. -/
theorem map_eq_of_mapM {γ : Type} {f : α → Outcome β} {g : α → γ} {g' : β → γ}
    (hf : ∀ x y, f x = .ok y → g' y = g x) {xs : List α} {ys : List β}
    (h : xs.mapM f = .ok ys) : ys.map g' = xs.map g := by
  have hall := mapM_eq_ok.1 h
  clear h
  induction hall with
  | nil => rfl
  | cons hx _ ih => rw [List.map_cons, List.map_cons, ih, hf _ _ hx]

/-- What every step keeps, a fold of steps keeps. -/
theorem foldlM_induction {P : β → Prop} {f : β → α → Outcome β} {xs : List α}
    (hstep : ∀ b, ∀ a ∈ xs, ∀ b', P b → f b a = .ok b' → P b') {b c : β} (hb : P b)
    (h : xs.foldlM f b = .ok c) : P c := by
  induction xs generalizing b with
  | nil =>
    cases h
    exact hb
  | cons x xs ih =>
    obtain ⟨b', hx, h⟩ := bind_eq_ok.1 h
    exact ih (fun b a ha => hstep b a (List.mem_cons_of_mem x ha))
      (hstep b x List.mem_cons_self b' hb hx) h

/-- Outcomes that go together: related results, or failures of any kind. -/
def Alike (R : α → β → Prop) : Outcome α → Outcome β → Prop
  | .ok a, .ok b => R a b
  | .error _, .error _ => True
  | _, _ => False

theorem Alike.bind {γ δ : Type} {R : α → β → Prop} {S : γ → δ → Prop} {x : Outcome α}
    {y : Outcome β} (h : Alike R x y) {f : α → Outcome γ} {g : β → Outcome δ}
    (hfg : ∀ a b, R a b → Alike S (f a) (g b)) : Alike S (x >>= f) (y >>= g) := by
  cases x <;> cases y
  · trivial
  · exact h.elim
  · exact h.elim
  · exact hfg _ _ h

theorem Alike.map {γ δ : Type} {R : α → β → Prop} {S : γ → δ → Prop} {x : Outcome α}
    {y : Outcome β} (h : Alike R x y) {f : α → γ} {g : β → δ}
    (hfg : ∀ a b, R a b → S (f a) (g b)) : Alike S (f <$> x) (g <$> y) := by
  cases x <;> cases y
  · trivial
  · exact h.elim
  · exact h.elim
  · exact hfg _ _ h

/-- Outcomes go together if one is a result exactly when the other is, and results are related. -/
theorem alike_of_ok_iff {R : α → β → Prop} {x : Outcome α} {y : Outcome β}
    (hok : (∃ a, x = .ok a) ↔ ∃ b, y = .ok b) (h : ∀ a b, x = .ok a → y = .ok b → R a b) :
    Alike R x y := by
  cases x with
  | error _ =>
    cases y with
    | error _ => trivial
    | ok b => simpa using hok.2 ⟨b, rfl⟩
  | ok a =>
    cases y with
    | error _ => simpa using hok.1 ⟨a, rfl⟩
    | ok b => exact h a b rfl rfl

/-- The fault that a check reports keeps its result from being ok. -/
theorem toOutcome_eq_ok {c : Checked α} {a : α} : c.toOutcome = .ok a ↔ c = .ok a := by
  cases c with
  | ok b => simp [Checked.toOutcome]
  | bad issues => simp [Checked.toOutcome]

end Outcome

namespace Checked
variable {α β : Type}

theorem seq_eq_ok {f : Checked (α → β)} {x : Checked α} {b : β} :
    f <*> x = .ok b ↔ ∃ g a, f = .ok g ∧ x = .ok a ∧ g a = b := by
  cases f <;> cases x <;> simp [Seq.seq, apply]

theorem map_eq_ok {f : α → β} {x : Checked α} {b : β} :
    f <$> x = .ok b ↔ ∃ a, x = .ok a ∧ f a = b := by
  cases x <;> simp [Functor.map, apply]

theorem under_eq_ok {p : Place} {x : Checked α} {a : α} : under p x = .ok a ↔ x = .ok a := by
  cases x <;> simp [under]

/-- A list of checks passes with the results of its checks, in order. -/
theorem eachFrom_eq_ok {d : Value → Checked α} {i : Nat} {vs : List Value} {xs : List α} :
    eachFrom d i vs = .ok xs ↔ List.Forall₂ (fun v x => d v = .ok x) vs xs := by
  induction vs generalizing i xs with
  | nil => cases xs <;> simp [eachFrom]
  | cons v vs ih =>
    simp only [eachFrom, seq_eq_ok, map_eq_ok, under_eq_ok, ih]
    constructor
    · rintro ⟨_, ys, ⟨y, hy, rfl⟩, hys, rfl⟩
      exact .cons hy hys
    · intro h
      cases h with
      | cons hy hys => exact ⟨_, _, ⟨_, hy, rfl⟩, hys, rfl⟩

end Checked
end ApiScribe

/-! Runs side by side. One outcome refines another if it is a result wherever the other is one, and
the results are related; steps that refine one another do so as a whole. -/
namespace ApiScribe
namespace Outcome
variable {α β γ δ : Type} {R : α → β → Prop} {S : γ → δ → Prop}

/-- Where the first outcome is a result, the second is a related one. -/
def Refines (R : α → β → Prop) (x : Outcome α) (y : Outcome β) : Prop :=
  ∀ a, x = .ok a → ∃ b, y = .ok b ∧ R a b

theorem Refines.ok {a : α} {b : β} (h : R a b) : Refines R (.ok a) (.ok b) := by
  rintro _ ⟨⟩
  exact ⟨b, rfl, h⟩

theorem Refines.error {e : Failure} {y : Outcome β} : Refines R (.error e) y := nofun

theorem Refines.refl {T : α → α → Prop} (h : ∀ a, T a a) (x : Outcome α) : Refines T x x :=
  fun a ha => ⟨a, ha, h a⟩

theorem Refines.of_eq {x y : Outcome α} (h : x = y) : Refines Eq x y :=
  h ▸ .refl (fun _ => rfl) x

theorem Refines.eq_ok {x y : Outcome α} (h : Refines Eq x y) {a : α} (ha : x = .ok a) :
    y = .ok a := by
  obtain ⟨_, hb, rfl⟩ := h a ha
  exact hb

theorem Refines.mono {R' : α → β → Prop} {x : Outcome α} {y : Outcome β} (h : Refines R x y)
    (himp : ∀ a b, R a b → R' a b) : Refines R' x y := by
  intro a ha
  obtain ⟨b, hb, hab⟩ := h a ha
  exact ⟨b, hb, himp a b hab⟩

theorem Refines.bind {x : Outcome α} {y : Outcome β} (h : Refines R x y) {f : α → Outcome γ}
    {g : β → Outcome δ} (hfg : ∀ a b, R a b → Refines S (f a) (g b)) :
    Refines S (x >>= f) (y >>= g) := by
  intro c hc
  obtain ⟨a, ha, hc⟩ := bind_eq_ok.1 hc
  obtain ⟨b, hb, hab⟩ := h a ha
  obtain ⟨d, hd, hcd⟩ := hfg a b hab c hc
  exact ⟨d, bind_eq_ok.2 ⟨b, hb, hd⟩, hcd⟩

theorem Refines.map {x : Outcome α} {y : Outcome β} (h : Refines R x y) {f : α → γ} {g : β → δ}
    (hfg : ∀ a b, R a b → S (f a) (g b)) : Refines S (f <$> x) (g <$> y) := by
  intro c hc
  obtain ⟨a, ha, rfl⟩ := map_eq_ok.1 hc
  obtain ⟨b, hb, hab⟩ := h a ha
  exact ⟨g b, map_eq_ok.2 ⟨b, hb, rfl⟩, hfg a b hab⟩

/-- Steps over related lists give related lists. -/
theorem Refines.mapM {f : α → Outcome γ} {g : β → Outcome δ} {xs : List α} {ys : List β}
    (h : List.Forall₂ R xs ys) (hfg : ∀ a b, R a b → Refines S (f a) (g b)) :
    Refines (List.Forall₂ S) (xs.mapM f) (ys.mapM g) := by
  induction h with
  | nil => exact .ok .nil
  | cons hab _ ih =>
    rw [List.mapM_cons, List.mapM_cons]
    exact (hfg _ _ hab).bind fun c d hcd => ih.bind fun cs ds hcds => .ok (.cons hcd hcds)

/-- Steps that take related states to related states do so along related lists. -/
theorem Refines.foldlM {f : γ → α → Outcome γ} {g : δ → β → Outcome δ} {xs : List α} {ys : List β}
    (h : List.Forall₂ R xs ys)
    (hfg : ∀ c d a b, S c d → R a b → Refines S (f c a) (g d b)) {c : γ} {d : δ} (hcd : S c d) :
    Refines S (xs.foldlM f c) (ys.foldlM g d) := by
  induction h generalizing c d with
  | nil => exact .ok hcd
  | cons hab _ ih =>
    rw [List.foldlM_cons, List.foldlM_cons]
    exact (hfg _ _ _ _ hcd hab).bind fun _ _ => ih

theorem rel_refl {T : α → α → Prop} (h : ∀ a, T a a) (o : Option α) : Option.Rel T o o := by
  cases o with
  | none => exact .none
  | some a => exact .some (h a)

theorem rel_imp_of_mem {T : α → β → Prop} {o : Option α} {p : Option β} (h : Option.Rel R o p)
    (himp : ∀ a ∈ o, ∀ b ∈ p, R a b → T a b) : Option.Rel T o p := by
  cases h with
  | none => exact .none
  | some hab => exact .some (himp _ rfl _ rfl hab)

theorem rel_imp {T : α → β → Prop} {o : Option α} {p : Option β} (h : Option.Rel R o p)
    (himp : ∀ a b, R a b → T a b) : Option.Rel T o p :=
  rel_imp_of_mem h fun a _ b _ => himp a b

theorem rel_flip {T : β → α → Prop} {o : Option α} {p : Option β} (h : Option.Rel R o p)
    (himp : ∀ a b, R a b → T b a) : Option.Rel T p o := by
  cases h with
  | none => exact .none
  | some hab => exact .some (himp _ _ hab)

theorem isSome_eq_of_rel {o : Option α} {p : Option β} (h : Option.Rel R o p) :
    o.isSome = p.isSome := by
  cases h <;> rfl

theorem Refines.expect {o : Option α} {p : Option β} (h : Option.Rel R o p) :
    Refines R (expect o) (expect p) := by
  cases h with
  | none => exact .error
  | some h => exact .ok h

/-- Outcomes in step: related results, or the same failure. -/
def Parallel (R : α → β → Prop) : Outcome α → Outcome β → Prop
  | .ok a, .ok b => R a b
  | .error e, .error f => e = f
  | _, _ => False

theorem Parallel.refl {T : α → α → Prop} (h : ∀ a, T a a) (x : Outcome α) : Parallel T x x := by
  cases x with
  | error e => rfl
  | ok a => exact h a

theorem Parallel.refines {x : Outcome α} {y : Outcome β} (h : Parallel R x y) : Refines R x y := by
  rintro a rfl
  cases y with
  | error f => exact h.elim
  | ok b => exact ⟨b, rfl, h⟩

theorem Parallel.error {x : Outcome α} {y : Outcome β} (h : Parallel R x y) {e : Failure}
    (hx : x = .error e) : y = .error e := by
  subst hx
  cases y with
  | error f => exact congrArg Except.error h.symm
  | ok b => exact h.elim

theorem Parallel.eq {x y : Outcome α} (h : Parallel Eq x y) : x = y := by
  cases x <;> cases y
  · exact congrArg Except.error h
  · exact h.elim
  · exact h.elim
  · exact congrArg Except.ok h

theorem Parallel.bind {x : Outcome α} {y : Outcome β} (h : Parallel R x y) {f : α → Outcome γ}
    {g : β → Outcome δ} (hfg : ∀ a b, R a b → Parallel S (f a) (g b)) :
    Parallel S (x >>= f) (y >>= g) := by
  cases x <;> cases y
  · exact h
  · exact h.elim
  · exact h.elim
  · exact hfg _ _ h

theorem Parallel.map {x : Outcome α} {y : Outcome β} (h : Parallel R x y) {f : α → γ} {g : β → δ}
    (hfg : ∀ a b, R a b → S (f a) (g b)) : Parallel S (f <$> x) (g <$> y) := by
  cases x <;> cases y
  · exact h
  · exact h.elim
  · exact h.elim
  · exact hfg _ _ h

/-- Steps over one list take states in step to states in step. -/
theorem Parallel.foldlM {f : γ → α → Outcome γ} {g : δ → α → Outcome δ} (xs : List α)
    (hfg : ∀ c d a, S c d → Parallel S (f c a) (g d a)) {c : γ} {d : δ} (hcd : S c d) :
    Parallel S (xs.foldlM f c) (xs.foldlM g d) := by
  induction xs generalizing c d with
  | nil => exact hcd
  | cons a xs ih =>
    rw [List.foldlM_cons, List.foldlM_cons]
    exact (hfg c d a hcd).bind fun _ _ => ih

/-- Equal results of steps are the same list. -/
theorem Refines.mapM_eq {f : α → Outcome γ} {g : β → Outcome γ} {xs : List α} {ys : List β}
    (h : List.Forall₂ R xs ys) (hfg : ∀ a b, R a b → Refines Eq (f a) (g b)) :
    Refines Eq (xs.mapM f) (ys.mapM g) :=
  (Refines.mapM h hfg).mono fun _ _ heq => by rwa [List.forall₂_eq_eq_eq] at heq

/-- Steps that each make a list, one after the other, and a step for each item of those lists: the
items of all lists may as well be taken together. -/
theorem exists_flatten_of_mapM_bind {f : α → Outcome (List β)} {g : β → Outcome γ} {xs : List α}
    {zss : List (List γ)} (h : (xs.mapM fun x => f x >>= (List.mapM g ·)) = .ok zss) :
    ∃ yss, xs.mapM f = .ok yss ∧ yss.flatten.mapM g = .ok zss.flatten := by
  have hall := mapM_eq_ok.1 h
  clear h
  induction hall with
  | nil => exact ⟨[], rfl, rfl⟩
  | cons hx _ ih =>
    obtain ⟨ys, hys, hzs⟩ := bind_eq_ok.1 hx
    obtain ⟨yss, hyss, hzss⟩ := ih
    refine ⟨ys :: yss, ?_, ?_⟩
    · rw [List.mapM_cons, hys, hyss]
      rfl
    · rw [List.flatten_cons, List.mapM_append, hzs, hzss]
      rfl

theorem exists_mapM_bind_of_flatten {f : α → Outcome (List β)} {g : β → Outcome γ} {xs : List α}
    {yss : List (List β)} {zs : List γ} (h : xs.mapM f = .ok yss)
    (hg : yss.flatten.mapM g = .ok zs) :
    ∃ zss, (xs.mapM fun x => f x >>= (List.mapM g ·)) = .ok zss ∧ zss.flatten = zs := by
  have hall := mapM_eq_ok.1 h
  clear h
  induction hall generalizing zs with
  | nil =>
    cases hg
    exact ⟨[], rfl, rfl⟩
  | cons hys _ ih =>
    rw [List.flatten_cons, List.mapM_append] at hg
    obtain ⟨first, hfirst, hg⟩ := bind_eq_ok.1 hg
    obtain ⟨rest, hrest, hg⟩ := bind_eq_ok.1 hg
    obtain ⟨zss, hzss, rfl⟩ := ih hrest
    refine ⟨first :: zss, ?_, pure_eq_ok.1 hg⟩
    rw [List.mapM_cons, hys, hzss]
    exact congrArg (· >>= _) hfirst

end Outcome
end ApiScribe

/-! Checks of what was encoded. A record is read field by field: a field that holds what encodes a
value is read as the value, and one that is left out as its default. -/
namespace ApiScribe
namespace Check
open Checked
variable {α : Type} {m : List (Scalar × Value)} {name : String} {v : Value} {a default : α}
  {d : Check α}

theorem field_of_get? (hget : Entries.get? m (.str name) = some v) (hd : d v = .ok a) :
    field m name d = .ok a := by
  rw [field, hget]
  exact under_eq_ok.2 hd

theorem fieldOr_of_get? (hget : Entries.get? m (.str name) = some v) (hd : d v = .ok a) :
    fieldOr m name default d = .ok a := by
  rw [fieldOr, hget]
  exact under_eq_ok.2 hd

theorem optional_string (s : Option String) : optional string (.ofString? s) = .ok s := by
  cases s <;> rfl

/-- Encoded items are read one by one. -/
theorem list_map {enc : α → Value} {as : List α} (h : ∀ a ∈ as, d (enc a) = .ok a) :
    list d (.list (as.map enc)) = .ok as :=
  eachFrom_eq_ok.2 (List.forall₂_map_left_iff.2 (List.forall₂_same.2 h))

end Check
end ApiScribe
