import ApiScribe.Pipeline
import ApiScribe.Proofs.Endpoint.Extraction

/-! Passes. A pass moves endpoints and changes what renderers read off them, but it leaves their
names and places as they are, so the names of a document are as good after passes as before. -/
namespace ApiScribe
namespace Endpoint

open Naming

/-- An endpoint without what passes change: its scope, what it can do, and its flags. -/
def unmarked (e : Endpoint) : Endpoint :=
  { e with scope := [], supportsQuery := false, supportsMutation := false, flags := [] }

theorem operationName_unmarked (e : Endpoint) : e.unmarked.operationName = e.operationName := rfl

@[simp] theorem unmarked_withScope (e : Endpoint) : e.withScope.unmarked = e.unmarked := by
  unfold withScope
  split <;> rfl

@[simp] theorem unmarked_withCapabilities (e : Endpoint) :
    e.withCapabilities.unmarked = e.unmarked := by
  unfold withCapabilities
  split <;> rfl

@[simp] theorem unmarked_classifyQuery (e : Endpoint) :
    e.classifyQuery.unmarked = e.unmarked := by
  unfold classifyQuery
  split <;> rfl

@[simp] theorem unmarked_markRefreshToken (e : Endpoint) :
    e.markRefreshToken.unmarked = e.unmarked := by
  unfold markRefreshToken
  split <;> rfl

/-- The parts of an endpoint that no pass changes. -/
structure Identity where
  scope : List String
  operationName : String
  exportName : String
  builderName : String
  method : String
  path : String

def identity (e : Endpoint) : Identity :=
  ⟨e.scope, e.operationName, e.exportName, e.builderName, e.method, e.path⟩

theorem identity_withScope {e : Endpoint} (h : e.scope ≠ []) :
    e.withScope.identity = e.identity := by
  rw [withScope, if_neg (by simpa using h)]

@[simp] theorem identity_withCapabilities (e : Endpoint) :
    e.withCapabilities.identity = e.identity := by
  unfold withCapabilities
  split <;> rfl

@[simp] theorem identity_classifyQuery (e : Endpoint) :
    e.classifyQuery.identity = e.identity := by
  unfold classifyQuery
  split <;> rfl

@[simp] theorem identity_markRefreshToken (e : Endpoint) :
    e.markRefreshToken.identity = e.identity := by
  unfold markRefreshToken
  split <;> rfl

theorem map_identity_normalizeEach {es : List Endpoint} (h : ∀ e ∈ es, e.scope ≠ []) :
    (normalizeEach es).1.map identity = es.map identity := by
  induction es with
  | nil => rfl
  | cons e es ih =>
    have he := identity_withScope (h e List.mem_cons_self)
    simp only [normalizeEach]
    split
    · rw [List.map_cons, he, List.map_cons]
    · rw [List.map_cons, identity_withCapabilities, he, List.map_cons,
        ih fun f hf => h f (List.mem_cons_of_mem e hf)]

end Endpoint

namespace Pass

open Endpoint

/-- A pass keeps all identities, in another order at most. -/
theorem identity_apply_perm {es : List Endpoint} (h : ∀ e ∈ es, e.scope ≠ []) (p : Pass) :
    ((p.apply es).1.map identity).Perm (es.map identity) := by
  cases p with
  | normalize =>
    have hperm := List.mergeSort_perm es precedes
    have hscope : ∀ e ∈ es.mergeSort precedes, e.scope ≠ [] :=
      fun e he => h e (hperm.mem_iff.1 he)
    show ((normalizeEach (es.mergeSort precedes)).1.map identity).Perm _
    rw [map_identity_normalizeEach hscope]
    exact hperm.map identity
  | classifyQueries =>
    show ((es.map classifyQuery).map identity).Perm _
    rw [List.map_map]
    exact .of_eq (List.map_congr_left fun e _ => identity_classifyQuery e)
  | markRefreshToken =>
    show ((es.map Endpoint.markRefreshToken).map identity).Perm _
    rw [List.map_map]
    exact .of_eq (List.map_congr_left fun e _ => identity_markRefreshToken e)

theorem scope_ne_nil_of_identity_perm {es fs : List Endpoint}
    (h : (fs.map identity).Perm (es.map identity)) (hs : ∀ e ∈ es, e.scope ≠ []) :
    ∀ f ∈ fs, f.scope ≠ [] := by
  intro f hf
  obtain ⟨e, he, hi⟩ := List.mem_map.1 (h.mem_iff.1 (List.mem_map_of_mem hf))
  have hscope : e.scope = f.scope := congrArg Identity.scope hi
  exact hscope ▸ hs e he

/-- All identities are kept over a whole run of passes. -/
theorem identity_applyAll_perm {ps : List Pass} {es fs : List Endpoint}
    (hs : ∀ e ∈ es, e.scope ≠ []) (h : applyAll ps es = .ok fs) :
    (fs.map identity).Perm (es.map identity) := by
  induction ps generalizing es with
  | nil =>
    cases h
    exact .refl _
  | cons p ps ih =>
    have hp := identity_apply_perm hs p
    rw [applyAll] at h
    split at h
    · next ds hds =>
      rw [hds] at hp
      exact (ih (scope_ne_nil_of_identity_perm hp hs) h).trans hp
    · exact absurd h Outcome.fail_ne_ok

end Pass

namespace Endpoint

open Naming

/-- What holds of every endpoint that has its names: the export name is longer than the operation
name and has a capital, and the builder is named after the export name. -/
structure IsNamed (e : Endpoint) : Prop extends IsExtracted e where
  outgrows : Outgrows e.operationName.toList.length e.exportName
  titled : IsTitled e.exportName
  builder : e.builderName = "build" ++ pascal e.exportName ++ "Spec"

/-- Endpoints with their names, of which no two have one place or one export name. -/
structure AreNamed (es : List Endpoint) : Prop where
  named : ∀ e ∈ es, e.IsNamed
  places : (es.map place).Nodup
  exports : (es.map exportName).Nodup

theorem isNamed_nameAll {es : List Endpoint} (h : ∀ e ∈ es, e.IsExtracted) :
    ∀ e ∈ nameAll es, e.IsNamed := by
  intro e he
  obtain ⟨d, hd, used, rfl⟩ := exists_of_mem_nameFrom [] es he
  exact ⟨⟨(h d hd).scope, (h d hd).operation⟩, outgrows_chosen (h d hd).operation used,
    isTitled_chosen d used, rfl⟩

theorem areNamed_nameAll {es : List Endpoint} (h : ∀ e ∈ es, e.IsExtracted)
    (hp : (es.map place).Nodup) : AreNamed (nameAll es) where
  named := isNamed_nameAll h
  places := by
    rw [nameAll, map_nameFrom place fun _ _ => rfl]
    exact hp
  exports := exportName_nameFrom_nodup [] es

theorem IsNamed.of_identity_eq {e f : Endpoint} (h : e.IsNamed) (hi : e.identity = f.identity) :
    f.IsNamed := by
  obtain ⟨⟨hscope, hop⟩, hout, htitled, hbuilder⟩ := h
  have h1 : e.scope = f.scope := congrArg Identity.scope hi
  have h2 : e.operationName = f.operationName := congrArg Identity.operationName hi
  have h3 : e.exportName = f.exportName := congrArg Identity.exportName hi
  have h4 : e.builderName = f.builderName := congrArg Identity.builderName hi
  rw [HasPlainScope, h1] at hscope
  rw [h2] at hop hout
  rw [h3] at hout htitled hbuilder
  rw [h4] at hbuilder
  exact ⟨⟨hscope, hop⟩, hout, htitled, hbuilder⟩

theorem isNamed_of_identity_perm {es fs : List Endpoint} (h : ∀ e ∈ es, e.IsNamed)
    (hp : (fs.map identity).Perm (es.map identity)) : ∀ f ∈ fs, f.IsNamed := by
  intro f hf
  obtain ⟨e, he, hi⟩ := List.mem_map.1 (hp.mem_iff.1 (List.mem_map_of_mem hf))
  exact (h e he).of_identity_eq hi

theorem AreNamed.of_identity_perm {es fs : List Endpoint} (h : AreNamed es)
    (hp : (fs.map identity).Perm (es.map identity)) : AreNamed fs where
  named := isNamed_of_identity_perm h.named hp
  places := by
    have hm := hp.map fun i : Identity => (i.method, i.path)
    rw [List.map_map, List.map_map] at hm
    exact hm.nodup_iff.2 h.places
  exports := by
    have hm := hp.map Identity.exportName
    rw [List.map_map, List.map_map] at hm
    exact hm.nodup_iff.2 h.exports

end Endpoint

namespace Pipeline

/-- The endpoints of a document as passes leave them, with the settings of a run. -/
def withSettings (p : Pipeline) (a : Api) (es : List Endpoint) : Api :=
  { a with
    clientImport := p.clientImport.or a.clientImport
    modelImport := p.modelImport.or a.modelImport
    outputRoot := p.root
    endpoints := es }

theorem transformed_eq_ok {p : Pipeline} {document : Value} {a : Api} :
    p.transformed document = .ok a ↔ ∃ b es, Endpoint.ofDocument document = .ok b ∧
      Pass.applyAll p.passes b.endpoints = .ok es ∧ a = p.withSettings b es := by
  simp only [transformed, extract, Outcome.bind_eq_ok, Outcome.pure_eq_ok]
  constructor
  · rintro ⟨_, ⟨b, hb, rfl⟩, es, hes, rfl⟩
    exact ⟨b, es, hb, hes, rfl⟩
  · rintro ⟨b, es, hb, hes, rfl⟩
    exact ⟨_, ⟨b, hb, rfl⟩, es, hes, rfl⟩

/-- However a pipeline transforms the endpoints of a document, each comes out named. -/
theorem isNamed_transformed {p : Pipeline} {document : Value} {a : Api}
    (h : p.transformed document = .ok a) : ∀ e ∈ a.endpoints, e.IsNamed := by
  obtain ⟨c, es, hc, hes, rfl⟩ := transformed_eq_ok.1 h
  obtain ⟨ds, hds, hx⟩ := Endpoint.exists_extracted hc
  have hnamed := Endpoint.isNamed_nameAll hx
  rw [← hds] at hnamed
  exact Endpoint.isNamed_of_identity_perm hnamed
    (Pass.identity_applyAll_perm (fun e he => (hnamed e he).scope.1) hes)

/-- However a pipeline transforms the endpoints of a document, they come out well named. -/
theorem areNamed_transformed {p : Pipeline} {document : Value} {a : Api}
    (hd : Endpoint.HasDistinctPaths document) (h : p.transformed document = .ok a) :
    Endpoint.AreNamed a.endpoints := by
  obtain ⟨c, es, hc, hes, rfl⟩ := transformed_eq_ok.1 h
  obtain ⟨ds, hds, hx, hp⟩ := Endpoint.ofDocument_eq_ok hd hc
  have hnamed := Endpoint.areNamed_nameAll hx hp
  rw [← hds] at hnamed
  have hscope : ∀ e ∈ c.endpoints, e.scope ≠ [] := fun e he => (hnamed.named e he).scope.1
  exact hnamed.of_identity_perm (Pass.identity_applyAll_perm hscope hes)

end Pipeline
end ApiScribe
