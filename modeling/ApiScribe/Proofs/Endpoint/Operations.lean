import Mathlib.Data.Prod.Lex
import Mathlib.Data.String.Basic
import ApiScribe.Proofs.Endpoint.Marks

/-! The operations of a document. There is one endpoint for each method that an item of the paths
holds an operation for, and once normalized the endpoints stand in the order of their paths, and
under one path in the order of their methods. Later passes move none. -/
namespace ApiScribe
namespace Endpoint

/-- What endpoints are ordered by: the path, and then the method. -/
def key (e : Endpoint) : String × String := (e.path, e.method)

theorem key_unmarked (e : Endpoint) : e.unmarked.key = e.key := rfl

/-- A document declares an operation: what stands under the path, with references followed, is a
map that holds a map under the method. -/
def Declares (document : Value) (path : String) (method : Method) : Prop :=
  ∃ root paths node item operation, document.entries? = some root ∧
    Value.field root "paths" = .map paths ∧ (.str path, node) ∈ paths ∧
    Reference.deref document node = .ok (.map item) ∧
    Value.field item method.key = .map operation

/-- The paths of a document are texts. -/
def HasTextPaths (document : Value) : Prop :=
  ∀ root paths, document.entries? = some root → Value.field root "paths" = .map paths →
    ∀ p ∈ paths, ∃ path, p.1 = .str path

theorem mem_operations_iff {item operation : List (Scalar × Value)} {method : Method} :
    (method, operation) ∈ operations item ↔ Value.field item method.key = .map operation := by
  have hentries : ∀ v : Value, v.entries? = some operation ↔ v = .map operation := by
    intro v
    cases v <;> simp [Value.entries?]
  have hall : method ∈ Method.all := by cases method <;> decide
  simp only [operations, List.mem_filterMap, Option.map_eq_some_iff, Prod.mk.injEq]
  constructor
  · rintro ⟨m, -, ops, hops, rfl, rfl⟩
    exact (hentries _).1 hops
  · intro h
    exact ⟨method, hall, operation, (hentries _).2 h, rfl, rfl⟩

/-- The endpoints of one path are of the methods that its item holds. -/
theorem mem_key_ofPathItem {document node : Value} {path q method : String} {es : List Endpoint}
    (h : ofPathItem document (.str path) node = .ok es) :
    (q, method) ∈ es.map key ↔ q = path ∧ ∃ item operation, ∃ m : Method, m.name = method ∧
      Reference.deref document node = .ok (.map item) ∧
      Value.field item m.key = .map operation := by
  obtain ⟨target, htarget, h⟩ := Outcome.bind_eq_ok.1 h
  rw [htarget]
  split at h
  · next item =>
    have hkey : ∀ (p : Method × List (Scalar × Value)) e,
        build document (.str path) p.1 item p.2 = .ok e → e.key = (path, p.1.name) := by
      intro p e he
      obtain ⟨hmethod, hpath, -⟩ := build_eq_ok he
      cases hpath
      rw [key, hmethod]
    rw [Outcome.map_eq_of_mapM (g := fun p => (path, p.1.name)) hkey h]
    simp only [List.mem_map, Prod.mk.injEq, Prod.exists]
    constructor
    · rintro ⟨m, operation, hmem, rfl, rfl⟩
      exact ⟨rfl, item, operation, m, rfl, rfl, mem_operations_iff.1 hmem⟩
    · rintro ⟨rfl, _, operation, m, rfl, hitem, hmem⟩
      cases hitem
      exact ⟨m, operation, mem_operations_iff.2 hmem, rfl, rfl⟩
  · next hmap =>
    cases h
    simp only [List.map_nil, List.not_mem_nil, false_iff]
    rintro ⟨-, item, -, -, -, hitem, -⟩
    exact hmap item (Except.ok.inj hitem)

/-- There is an endpoint of a path and a method exactly if the document declares an operation. -/
theorem mem_key_ofDocument {document : Value} (htext : HasTextPaths document) {a : Api}
    (h : ofDocument document = .ok a) {path method : String} :
    (path, method) ∈ a.endpoints.map key ↔ ∃ m : Method, m.name = method ∧
      Declares document path m := by
  obtain ⟨root, paths, sorted, groups, hroot, hpaths, hsorted, hgroups, hendpoints⟩ :=
    exists_of_ofDocument h
  have hmem : ∀ p, p ∈ sorted ↔ p ∈ paths := fun p => (Scalar.sortOn_eq_ok hsorted).1.mem_iff
  rw [hendpoints, nameAll, map_nameFrom key fun _ _ => rfl, List.mem_map]
  constructor
  · rintro ⟨e, he, hkey⟩
    obtain ⟨es, hes, he⟩ := List.mem_flatten.1 he
    obtain ⟨⟨k, node⟩, hp, hes⟩ := Outcome.exists_of_mem_mapM hgroups hes
    obtain ⟨q, hq⟩ := htext root paths hroot hpaths _ ((hmem _).1 hp)
    cases hq
    have hplace := List.mem_map_of_mem (f := key) he
    rw [hkey] at hplace
    obtain ⟨rfl, item, operation, m, hm, hitem, hoperation⟩ := (mem_key_ofPathItem hes).1 hplace
    exact ⟨m, hm, root, paths, node, item, operation, hroot, hpaths, (hmem _).1 hp, hitem,
      hoperation⟩
  · rintro ⟨m, hm, root', paths', node, item, operation, hroot', hpaths', hp, hitem, hoperation⟩
    cases hroot.symm.trans hroot'
    cases hpaths.symm.trans hpaths'
    obtain ⟨es, hes, hgroup⟩ := Outcome.exists_of_mapM_mem hgroups ((hmem _).2 hp)
    have hkey := (mem_key_ofPathItem hgroup).2 ⟨rfl, item, operation, m, hm, hitem, hoperation⟩
    obtain ⟨e, he, hkey⟩ := List.mem_map.1 hkey
    exact ⟨e, List.mem_flatten.2 ⟨es, hes, he⟩, hkey⟩

/-- All that endpoints are sorted by, in the order in which it counts. -/
def sortKey (e : Endpoint) : String ×ₗ String ×ₗ String :=
  toLex (e.path, toLex (e.method, e.operationName))

theorem precedes_iff {e f : Endpoint} : precedes e f = true ↔ e.sortKey ≤ f.sortKey := by
  simp only [precedes, sortKey, Prod.Lex.toLex_le_toLex]
  split
  · next hpath => simp [hpath, lt_iff_le_and_ne]
  · next hpath =>
    rw [ne_eq, not_not] at hpath
    split
    · next hmethod => simp [hpath, hmethod, lt_iff_le_and_ne]
    · next hmethod =>
      rw [ne_eq, not_not] at hmethod
      simp [hpath, hmethod]

theorem pairwise_mergeSort_precedes (es : List Endpoint) :
    (es.mergeSort precedes).Pairwise fun e f => e.sortKey ≤ f.sortKey :=
  pairwise_mergeSort_key sortKey (fun _ _ => precedes_iff) es

/-- Endpoints in order, no two of one path and method. -/
def AreOrdered (es : List Endpoint) : Prop :=
  (es.map key).Pairwise (Prod.Lex (· < ·) (· < ·))

/-- Sorted endpoints of different paths or methods are in order. -/
theorem areOrdered_mergeSort {es : List Endpoint} (h : (es.map key).Nodup) :
    AreOrdered (es.mergeSort precedes) := by
  have hnodup : ((es.mergeSort precedes).map key).Nodup :=
    ((List.mergeSort_perm es precedes).map key).nodup_iff.2 h
  rw [AreOrdered, List.pairwise_map]
  rw [List.Nodup, List.pairwise_map] at hnodup
  refine (pairwise_mergeSort_precedes es).imp₂ ?_ hnodup
  intro e f hle hne
  rw [sortKey, sortKey, Prod.Lex.toLex_le_toLex, Prod.Lex.toLex_le_toLex] at hle
  rcases hle with hpath | ⟨hpath, hmethod | ⟨hmethod, -⟩⟩
  · exact .left _ _ hpath
  · exact Prod.lex_iff.2 (.inr ⟨hpath, hmethod⟩)
  · have hsame : e.key = f.key := Prod.mk.injEq .. ▸ ⟨hpath, hmethod⟩
    exact absurd hsame hne

theorem map_key_normalizeEach (es : List Endpoint) :
    (normalizeEach es).1.map key = es.map key := by
  have hscope : ∀ e : Endpoint, e.withScope.key = e.key := by
    intro e
    rw [← key_unmarked, unmarked_withScope, key_unmarked]
  have hcapabilities : ∀ e : Endpoint, e.withCapabilities.key = e.key := by
    intro e
    rw [← key_unmarked, unmarked_withCapabilities, key_unmarked]
  induction es with
  | nil => rfl
  | cons e es ih =>
    simp only [normalizeEach]
    split
    · simp [hscope]
    · simp [hscope, hcapabilities, ih]

end Endpoint

namespace Pass

open Endpoint

/-- Each pass keeps paths and methods, and normalizing puts endpoints in order. -/
theorem keys_apply (p : Pass) {es : List Endpoint} (h : (es.map key).Nodup) :
    ((p.apply es).1.map key).Perm (es.map key) ∧
      (p = normalize ∨ AreOrdered es → AreOrdered (p.apply es).1) := by
  have hkept : ∀ f : Endpoint → Endpoint, (∀ e, (f e).unmarked = e.unmarked) →
      (es.map f).map key = es.map key := by
    intro f hf
    rw [List.map_map]
    refine List.map_congr_left fun e _ => ?_
    rw [Function.comp_apply, ← key_unmarked, hf, key_unmarked]
  cases p with
  | normalize =>
    simp only [apply, AreOrdered, map_key_normalizeEach]
    exact ⟨(List.mergeSort_perm es precedes).map key, fun _ => areOrdered_mergeSort h⟩
  | classifyQueries =>
    simp only [apply, AreOrdered, hkept _ unmarked_classifyQuery]
    exact ⟨.refl _, by simp⟩
  | markRefreshToken =>
    simp only [apply, AreOrdered, hkept _ unmarked_markRefreshToken]
    exact ⟨.refl _, by simp⟩

/-- Endpoints in order stay in order over a whole run of passes, and none is lost. -/
theorem keys_applyAll {ps : List Pass} {es fs : List Endpoint} (h : (es.map key).Nodup)
    (hrun : applyAll ps es = .ok fs) :
    (fs.map key).Perm (es.map key) ∧
      (ps.head? = some normalize ∨ AreOrdered es → AreOrdered fs) := by
  induction ps generalizing es with
  | nil =>
    cases hrun
    exact ⟨.refl _, by simp⟩
  | cons p ps ih =>
    obtain ⟨hperm, horder⟩ := keys_apply p h
    rw [applyAll] at hrun
    split at hrun
    · next ds hds =>
      rw [hds] at hperm horder
      obtain ⟨hrest, hordered⟩ := ih (hperm.nodup_iff.2 h) hrun
      refine ⟨hrest.trans hperm, fun hstart => hordered (.inr (horder ?_))⟩
      simpa using hstart
    · exact absurd hrun Outcome.fail_ne_ok

end Pass

namespace Pipeline

open Endpoint

/-- Once normalized, the endpoints of a document are strictly increasing by path and method, and
there is one for a path and a method exactly if the document declares an operation there. -/
theorem areOrdered_and_mem_key_iff {p : Pipeline} {document : Value} {a : Api}
    (hdistinct : HasDistinctPaths document) (htext : HasTextPaths document)
    (hpasses : p.passes.head? = some .normalize) (h : p.transformed document = .ok a) :
    (a.endpoints.map fun e => (e.path, e.method)).Pairwise (Prod.Lex (· < ·) (· < ·)) ∧
      ∀ path method, (path, method) ∈ (a.endpoints.map fun e => (e.path, e.method)) ↔
        ∃ m : Method, m.name = method ∧ Declares document path m := by
  obtain ⟨b, es, hb, hes, rfl⟩ := transformed_eq_ok.1 h
  obtain ⟨ds, hds, -, hplaces⟩ := ofDocument_eq_ok hdistinct hb
  have hnodup : (b.endpoints.map key).Nodup := by
    rw [hds, nameAll, map_nameFrom key fun _ _ => rfl]
    have hswap := hplaces.map Prod.swap_injective
    rwa [List.map_map] at hswap
  obtain ⟨hperm, hordered⟩ := Pass.keys_applyAll hnodup hes
  exact ⟨hordered (.inl hpasses), fun path method =>
    hperm.mem_iff.trans (mem_key_ofDocument htext hb)⟩

/-- One path, whose item stands elsewhere and holds two operations, a method that is not read, and
what is no operation. -/
def petsDocument : Value :=
  .record [("paths", .record [("/pets", .record [("$ref", .str "#/items/pets")])]),
    ("items", .record [("pets", .record [("get", .record [("operationId", .str "listPets")]),
      ("head", .record []), ("post", .str "later"),
      ("delete", .record [("operationId", .str "removePets")])])])]

def removePets : Endpoint :=
  { operationName := "removePets", exportName := "defaultRemovePets",
    builderName := "buildDefaultRemovePetsSpec", method := "DELETE", path := "/pets" }

def listPets : Endpoint :=
  { operationName := "listPets", exportName := "defaultListPets",
    builderName := "buildDefaultListPetsSpec", method := "GET", path := "/pets",
    supportsQuery := true, supportsMutation := false }

theorem transformed_petsDocument :
    ({ passes := [.normalize, .classifyQueries] } : Pipeline).transformed petsDocument =
      .ok { endpoints := [removePets, listPets] } := by
  have hdocument : ofDocument petsDocument = .ok { endpoints := [listPets, removePets] } := by
    decide +kernel
  have hsort : [listPets, removePets].mergeSort precedes = [removePets, listPets] := by
    simp [List.mergeSort, List.MergeSort.Internal.splitInTwo, precedes, listPets, removePets]
  have hpasses : Pass.applyAll [.normalize, .classifyQueries] [listPets, removePets] =
      .ok [removePets, listPets] := by
    rw [Pass.applyAll, Pass.apply, hsort]
    rfl
  exact transformed_eq_ok.2 ⟨_, _, hdocument, hpasses, rfl⟩

theorem areOrdered_petsDocument :
    AreOrdered [removePets, listPets] ∧
      (∃ m : Method, m.name = "DELETE" ∧ Declares petsDocument "/pets" m) ∧
      ¬ ∃ m : Method, m.name = "POST" ∧ Declares petsDocument "/pets" m := by
  have hdistinct : HasDistinctPaths petsDocument := by
    rintro _ _ ⟨⟩ ⟨⟩
    exact List.pairwise_singleton _ _
  have htext : HasTextPaths petsDocument := by
    rintro _ _ ⟨⟩ ⟨⟩ p hp
    exact ⟨"/pets", by rw [List.mem_singleton.1 hp]⟩
  obtain ⟨hordered, hdeclared⟩ :=
    areOrdered_and_mem_key_iff hdistinct htext rfl transformed_petsDocument
  exact ⟨hordered, (hdeclared "/pets" "DELETE").1 (by decide),
    fun h => absurd ((hdeclared "/pets" "POST").2 h) (by decide)⟩

end Pipeline
end ApiScribe
