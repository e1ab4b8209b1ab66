import Mathlib.Data.List.Perm.Basic
import ApiScribe.Proofs.Endpoint.Passes
import ApiScribe.Proofs.Entries

/-! Marks on endpoints. Passes other than normalizing mark endpoints one by one, and whether they do
depends on parts of an endpoint that no pass changes. So it does not matter in which order passes
mark an endpoint, nor how often: only the order of its flags tells. -/
namespace ApiScribe
namespace Endpoint

/-- Endpoints that differ in the order of their flags at most, each flag set once. -/
structure SameButFlagOrder (e f : Endpoint) : Prop where
  rest : { e with flags := [] } = { f with flags := [] }
  flags : e.flags.Perm f.flags
  nodup : e.flags.keys.Nodup

theorem normalizeEach_eq {es fs : List Endpoint} (h : normalizeEach es = (fs, none)) :
    fs = es.map fun e => e.withScope.withCapabilities := by
  induction es generalizing fs with
  | nil =>
    cases h
    rfl
  | cons e es ih =>
    rw [normalizeEach] at h
    dsimp only at h
    split at h
    · cases h
    · obtain ⟨hfs, hnone⟩ := Prod.mk.inj h
      rw [← hfs, List.map_cons, ← ih (Prod.ext rfl hnone)]

/-- Endpoints that pass normalizing have operation names. -/
theorem operationName_of_normalizeEach {es fs : List Endpoint} (h : normalizeEach es = (fs, none)) :
    ∀ f ∈ fs, f.operationName ≠ "" := by
  induction es generalizing fs with
  | nil =>
    cases h
    simp
  | cons e es ih =>
    rw [normalizeEach] at h
    dsimp only at h
    split at h
    · cases h
    · next hblank =>
      obtain ⟨hfs, hnone⟩ := Prod.mk.inj h
      rw [← hfs]
      refine List.forall_mem_cons.2 ⟨?_, ih (Prod.ext rfl hnone)⟩
      have hsame : e.withScope.withCapabilities.operationName = e.withScope.operationName := by
        rw [← operationName_unmarked, unmarked_withCapabilities, operationName_unmarked]
      intro hempty
      refine hblank ?_
      rw [← hsame, hempty]
      decide

@[simp] theorem flags_withScope (e : Endpoint) : e.withScope.flags = e.flags := by
  unfold withScope
  split <;> rfl

@[simp] theorem flags_withCapabilities (e : Endpoint) : e.withCapabilities.flags = e.flags := by
  unfold withCapabilities
  split <;> rfl

theorem hasHooks_withCapabilities (e : Endpoint) : Render.hasHooks e.withCapabilities = true := by
  unfold Render.hasHooks withCapabilities
  split <;> simp

end Endpoint

namespace Pass

open Endpoint

/-- What a pass does to each endpoint alone. -/
def mark : Pass → Endpoint → Endpoint
  | normalize, e => e
  | classifyQueries, e => e.classifyQuery
  | markRefreshToken, e => e.markRefreshToken

/-- What passes do to each endpoint alone, one after the other. -/
def marks (ps : List Pass) (e : Endpoint) : Endpoint := ps.foldl (fun e p => p.mark e) e

theorem marks_cons (p : Pass) (ps : List Pass) (e : Endpoint) :
    marks (p :: ps) e = marks ps (p.mark e) := rfl

/-- Passes other than normalizing mark all endpoints and do not fail. -/
theorem applyAll_of_optional {ps : List Pass} (h : normalize ∉ ps) (es : List Endpoint) :
    applyAll ps es = .ok (es.map (marks ps)) := by
  induction ps generalizing es with
  | nil => exact congrArg Except.ok (List.map_id es).symm
  | cons p ps ih =>
    obtain ⟨hp, hps⟩ := not_or.1 (List.mem_cons.not.1 h)
    have happly : p.apply es = (es.map p.mark, none) := by
      cases p with
      | normalize => exact absurd rfl hp
      | classifyQueries => rfl
      | markRefreshToken => rfl
    rw [applyAll, happly]
    dsimp only
    rw [ih hps, List.map_map]
    rfl

/-- Passes behind normalizing: what is put in order and completed is marked. -/
theorem applyAll_normalize_eq_ok {ps : List Pass} (h : normalize ∉ ps) {es fs : List Endpoint} :
    applyAll (normalize :: ps) es = .ok fs ↔
      ∃ ds, normalizeEach (es.mergeSort precedes) = (ds, none) ∧ fs = ds.map (marks ps) := by
  rw [applyAll, apply]
  split
  · next ds hds =>
    rw [applyAll_of_optional h]
    constructor
    · rintro hfs
      exact ⟨ds, hds, (Except.ok.inj hfs).symm⟩
    · rintro ⟨_, hds', rfl⟩
      rw [hds] at hds'
      cases hds'
      rfl
  · next fault hfault =>
    constructor
    · exact fun hfs => absurd hfs Outcome.fail_ne_ok
    · rintro ⟨_, hds, -⟩
      rw [hfault] at hds
      cases hds

/-- The flag that a pass sets on an endpoint, if it sets one. -/
def flag? (p : Pass) (e : Endpoint) : Option String :=
  match p with
  | normalize => none
  | classifyQueries =>
    if e.method = Method.post.name && isReadName e.operationName then some queryFlag else none
  | markRefreshToken => if e.refreshesToken then some skipRefreshFlag else none

/-- An endpoint with a flag; the flag of queries makes it one. -/
def addFlag (key : String) (e : Endpoint) : Endpoint :=
  { e with supportsQuery := e.supportsQuery || key = queryFlag, flags := e.flags.put key "true" }

/-- A mark is a flag. -/
theorem mark_eq (p : Pass) (e : Endpoint) :
    p.mark e = ((p.flag? e).map fun key => addFlag key e).getD e := by
  cases p with
  | normalize => rfl
  | classifyQueries =>
    simp only [mark, classifyQuery, flag?]
    split <;> simp [addFlag]
  | markRefreshToken =>
    have hne : skipRefreshFlag ≠ queryFlag := by decide
    simp only [mark, Endpoint.markRefreshToken, flag?]
    split <;> simp [addFlag, hne]

/-- Whether a pass sets a flag does not depend on marks. -/
theorem flag?_mark (p q : Pass) (e : Endpoint) : q.flag? (p.mark e) = q.flag? e := by
  have hrest : (p.mark e).method = e.method ∧ (p.mark e).operationName = e.operationName ∧
      (p.mark e).path = e.path := by
    rw [mark_eq]
    cases p.flag? e <;> exact ⟨rfl, rfl, rfl⟩
  obtain ⟨hmethod, hname, hpath⟩ := hrest
  unfold flag?
  rw [refreshesToken, hmethod, hname, hpath]
  rfl

/-- Whether one of some passes sets a flag on an endpoint. -/
def SetsFlag (ps : List Pass) (e : Endpoint) (key : String) : Prop := ∃ p ∈ ps, p.flag? e = some key

instance (ps : List Pass) (e : Endpoint) (key : String) : Decidable (SetsFlag ps e key) :=
  inferInstanceAs (Decidable (∃ p ∈ ps, p.flag? e = some key))

theorem setsFlag_cons (p : Pass) (ps : List Pass) (e : Endpoint) (key : String) :
    SetsFlag (p :: ps) e key ↔ p.flag? e = some key ∨ SetsFlag ps (p.mark e) key := by
  simp [SetsFlag, flag?_mark]

/-- The flags of a marked endpoint are those that some pass sets and those it had. -/
theorem get?_flags_marks (ps : List Pass) (e : Endpoint) (key : String) :
    (marks ps e).flags.get? key =
      if SetsFlag ps e key then some "true" else e.flags.get? key := by
  induction ps generalizing e with
  | nil => simp [marks, SetsFlag]
  | cons p ps ih =>
    have hmark : (p.mark e).flags.get? key =
        if p.flag? e = some key then some "true" else e.flags.get? key := by
      rw [mark_eq]
      cases p.flag? e with
      | none => rfl
      | some k => simp [addFlag, Entries.get?_put]
    rw [marks_cons, ih, hmark]
    by_cases hp : p.flag? e = some key <;> simp [setsFlag_cons, hp]

theorem supportsQuery_marks (ps : List Pass) (e : Endpoint) :
    (marks ps e).supportsQuery = (e.supportsQuery || decide (SetsFlag ps e queryFlag)) := by
  induction ps generalizing e with
  | nil => simp [marks, SetsFlag]
  | cons p ps ih =>
    have hmark : (p.mark e).supportsQuery =
        (e.supportsQuery || decide (p.flag? e = some queryFlag)) := by
      rw [mark_eq]
      cases p.flag? e <;> simp [addFlag]
    rw [marks_cons, ih, hmark, Bool.or_assoc]
    simp [setsFlag_cons]

theorem nodup_keys_flags_marks (ps : List Pass) {e : Endpoint} (h : e.flags.keys.Nodup) :
    (marks ps e).flags.keys.Nodup := by
  induction ps generalizing e with
  | nil => exact h
  | cons p ps ih =>
    rw [marks_cons]
    refine ih ?_
    rw [mark_eq]
    cases p.flag? e with
    | none => exact h
    | some key => exact Entries.nodup_keys_put h key "true"

/-- Marks leave all but the flags and the capability of queries alone. -/
theorem rest_marks (ps : List Pass) (e : Endpoint) :
    { marks ps e with supportsQuery := e.supportsQuery, flags := e.flags } = e := by
  induction ps generalizing e with
  | nil => rfl
  | cons p ps ih =>
    have hrest := ih (p.mark e)
    have hmark : ({ p.mark e with supportsQuery := e.supportsQuery, flags := e.flags } : Endpoint) =
        e := by
      rw [mark_eq]
      cases p.flag? e <;> rfl
    rw [marks_cons]
    exact (congrArg (fun f : Endpoint =>
      { f with supportsQuery := e.supportsQuery, flags := e.flags }) hrest).trans hmark

theorem hasHooks_marks (ps : List Pass) {e : Endpoint} (h : Render.hasHooks e = true) :
    Render.hasHooks (marks ps e) = true := by
  have hrest := congrArg Endpoint.supportsMutation (rest_marks ps e)
  have hmutation : (marks ps e).supportsMutation = e.supportsMutation := hrest
  rw [Render.hasHooks, supportsQuery_marks, hmutation, Bool.or_right_comm]
  exact Bool.or_eq_true_iff.2 (.inl h)

theorem setsFlag_congr {ps qs : List Pass} (h : ∀ p, p ∈ ps ↔ p ∈ qs) (e : Endpoint)
    (key : String) : SetsFlag ps e key ↔ SetsFlag qs e key := by
  simp [SetsFlag, h]

/-- The same passes in whatever order mark an endpoint the same way. -/
theorem marks_sameButFlagOrder {ps qs : List Pass} (h : ∀ p, p ∈ ps ↔ p ∈ qs) {e : Endpoint}
    (hflags : e.flags.keys.Nodup) : (marks ps e).SameButFlagOrder (marks qs e) where
  rest := by
    have hquery : (marks ps e).supportsQuery = (marks qs e).supportsQuery := by
      simp only [supportsQuery_marks, setsFlag_congr h]
    have hrest : ∀ rs, ({ marks rs e with flags := [] } : Endpoint) =
        { e with supportsQuery := (marks rs e).supportsQuery, flags := [] } := fun rs =>
      congrArg (fun f : Endpoint =>
        { f with supportsQuery := (marks rs e).supportsQuery, flags := [] }) (rest_marks rs e)
    rw [hrest, hrest, hquery]
  flags := by
    refine Entries.perm_of_get?_eq (nodup_keys_flags_marks ps hflags)
      (nodup_keys_flags_marks qs hflags) fun key => ?_
    simp only [get?_flags_marks, setsFlag_congr h]
  nodup := nodup_keys_flags_marks ps hflags

end Pass
end ApiScribe
