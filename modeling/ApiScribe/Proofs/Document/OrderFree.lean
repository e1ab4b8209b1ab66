import ApiScribe.Enum.Listing
import ApiScribe.Model.Extract
import ApiScribe.Proofs.Document.Reordered
import ApiScribe.Proofs.Model.Nullable

/-! What does not depend on the order of a document: its endpoints, its models and its listings. -/
namespace ApiScribe

open Value

namespace Nullable

/-- Tasks over values that may be reached, up to order. -/
inductive Task.SameReach (counts : Prop) : Task → Task → Prop
  | schema {v w : Value} (h : Value.SameReach counts v w) : SameReach counts (.schema v) (.schema w)
  | parts {m n : List (Scalar × Value)} (h : Value.SameReach counts (.map m) (.map n))
      (key : String) : SameReach counts (.parts m key) (.parts n key)

variable {counts : Prop} {m n : List (Scalar × Value)} (h : Value.SameReach counts (.map m) (.map n))
include h

theorem partsUnder_parallel (key : String) : Outcome.Parallel (List.Forall₂ SameEntries)
    (partsUnder m key) (partsUnder n key) := by
  have halike := (h.field key).alike
  have hmembers := Outcome.isSome_eq_of_rel halike.members?
  have hset := halike.isSet_eq
  unfold partsUnder
  revert halike hmembers hset
  generalize Value.field m key = v, Value.field n key = w
  intro halike hmembers hset
  have hother : Outcome.Parallel (List.Forall₂ SameEntries)
      (if v.isSet && v.members?.isNone then .unexpected else .ok [])
      (if w.isSet && w.members?.isNone then .unexpected else .ok []) := by
    rw [← Option.not_isSome, ← Option.not_isSome, hmembers, hset]
    exact .refl (fun _ => List.forall₂_same.2 fun x _ => .refl x) _
  cases halike with
  | list hparts => exact hparts
  | _ => exact hother

theorem isMarked_eq : isMarked m = isMarked n := by
  have hnullable := (h.field "nullable").alike
  have htype := (h.field "type").alike
  have hany : ∀ {xs ys : List Value}, List.Forall₂ SameEntries xs ys →
      xs.any (·.isString "null") = ys.any (·.isString "null") := by
    intro xs ys hxs
    induction hxs with
    | nil => rfl
    | cons hxy _ ih => rw [List.any_cons, List.any_cons, hxy.alike.isString_eq, ih]
  unfold isMarked
  congr 1
  · revert hnullable
    generalize Value.field m "nullable" = v, Value.field n "nullable" = w
    rintro (_ | _) <;> rfl
  · revert htype
    generalize Value.field m "type" = v, Value.field n "type" = w
    intro htype
    cases htype with
    | list hxs => exact hany hxs
    | _ => rfl

omit h in
theorem tasksOf_sameReach (h : Value.SameReach counts (.map m) (.map n)) :
    List.Forall₂ (Task.SameReach counts) (tasksOf m) (tasksOf n) := by
  unfold tasksOf
  rw [List.forall₂_map_left_iff, List.forall₂_map_right_iff]
  exact List.forall₂_same.2 fun key _ => .parts h key

omit h in
theorem Task.SameReach.exists_map {t : Task} (h : Task.SameReach counts (.schema (.map m)) t) :
    ∃ n, t = .schema (.map n) ∧ Value.SameReach counts (.map m) (.map n) := by
  cases h with
  | schema h =>
    obtain ⟨n, rfl, -⟩ := h.alike.exists_map
    exact ⟨n, rfl, h⟩

omit h in
/-- A schema that is a map has a schema beside it with the same reference. -/
theorem exists_of_forall₂_schema {todo tasks : List Task}
    (h : List.Forall₂ (Task.SameReach counts) (.schema (.map m) :: todo) tasks) :
    ∃ n todo', tasks = .schema (.map n) :: todo' ∧ Value.SameReach counts (.map m) (.map n) ∧
      List.Forall₂ (Task.SameReach counts) todo todo' ∧
      (Value.field m "$ref").str? = (Value.field n "$ref").str? := by
  obtain ⟨_, todo', ht, hrest, rfl⟩ := List.forall₂_cons_left_iff.1 h
  obtain ⟨n, rfl, hn⟩ := ht.exists_map
  exact ⟨n, todo', rfl, hn, hrest, (hn.field "$ref").alike.str?_eq⟩

omit h in
/-- Documents in which references lead to the same up to order are searched side by side. -/
theorem search_eq {document other schema schema' : Value}
    (hresolve : ∀ ref, Outcome.Parallel (Value.SameReach counts) (Reference.resolve document ref)
      (Reference.resolve other ref))
    {seen : List String} {todo todo' : List Task}
    {hknown : ∀ t ∈ todo, ∀ r ∈ t.references, r ∈ known document schema}
    {hknown' : ∀ t ∈ todo', ∀ r ∈ t.references, r ∈ known other schema'}
    (htodo : List.Forall₂ (Task.SameReach counts) todo todo') :
    search document schema seen todo hknown = search other schema' seen todo' hknown' := by
  -- the first tasks of both searches are related, so each step of the one is a step of the other
  fun_induction search document schema seen todo hknown generalizing todo' with
  | case1 =>
    cases htodo
    rw [search]
  | case2 seen m key todo _ e hp =>
    obtain ⟨_, todo', ht, hrest, rfl⟩ := List.forall₂_cons_left_iff.1 htodo
    cases ht with
    | parts h => exact (search_parts_error ((partsUnder_parallel h key).error hp)).symm
  | case3 seen m key todo _ parts hp _ _ ih =>
    obtain ⟨_, todo', ht, hrest, rfl⟩ := List.forall₂_cons_left_iff.1 htodo
    cases ht with
    | parts h =>
      obtain ⟨parts', hp', hparts⟩ := (partsUnder_parallel h key).refines parts hp
      refine (search_parts hp' fun _ => (ih (List.rel_append ?_ hrest)).symm).symm
      rw [List.forall₂_map_left_iff, List.forall₂_map_right_iff]
      exact hparts.imp fun x y hxy => .schema hxy.sameReach
  | case4 seen m todo _ _ ref hv hseen _ _ ih =>
    obtain ⟨n, todo', rfl, h, hrest, href⟩ := exists_of_forall₂_schema htodo
    exact (search_seen (href ▸ hv) hseen fun _ => (ih hrest).symm).symm
  | case5 seen m todo _ _ ref hv hnew _ target hr _ ih =>
    obtain ⟨n, todo', rfl, h, hrest, href⟩ := exists_of_forall₂_schema htodo
    obtain ⟨target', hr', htarget⟩ := (hresolve ref).refines target hr
    exact (search_target (href ▸ hv) hnew hr' fun _ =>
      (ih (.cons (.schema htarget) hrest)).symm).symm
  | case6 seen m todo _ _ ref hv hnew _ f hr _ ih =>
    obtain ⟨n, todo', rfl, h, hrest, href⟩ := exists_of_forall₂_schema htodo
    have hr' := (hresolve ref).error hr
    exact (search_fault (href ▸ hv) hnew hr' fun _ => (ih hrest).symm).symm
  | case7 seen m todo _ _ ref hv hnew _ e hfault hr =>
    obtain ⟨n, todo', rfl, h, hrest, href⟩ := exists_of_forall₂_schema htodo
    exact (search_error (href ▸ hv) hnew ((hresolve ref).error hr) hfault).symm
  | case8 seen m todo _ _ hv hm =>
    obtain ⟨n, todo', rfl, h, hrest, href⟩ := exists_of_forall₂_schema htodo
    exact (search_marked (href ▸ hv) (isMarked_eq h ▸ hm)).symm
  | case9 seen m todo _ _ hv hm _ _ ih =>
    obtain ⟨n, todo', rfl, h, hrest, href⟩ := exists_of_forall₂_schema htodo
    refine (search_unmarked (href ▸ hv) (isMarked_eq h ▸ hm) fun _ => ?_).symm
    exact (ih (List.rel_append (tasksOf_sameReach h) hrest)).symm
  | case10 =>
    obtain ⟨_, todo', ht, hrest, rfl⟩ := List.forall₂_cons_left_iff.1 htodo
    cases ht with
    | schema h =>
      cases h.alike
      rw [search]
  | case11 seen v todo _ hmap hendless _ _ ih =>
    obtain ⟨_, todo', ht, hrest, rfl⟩ := List.forall₂_cons_left_iff.1 htodo
    cases ht with
    | @schema _ w h =>
      have hother : ∀ m, w ≠ .map m := by
        refine h.alike.not_map ?_
        rintro m rfl
        exact hmap m _ rfl .rfl
      refine (search_other hother ?_ fun _ => (ih hrest).symm).symm
      rintro rfl
      cases h.alike
      exact hendless _ rfl .rfl

end Nullable

namespace Model

/-- All that a document adds to the model of a schema is what references lead to. -/
theorem ofSchema_eq {document other : Value}
    (h : Nullable.canBeNull document = Nullable.canBeNull other) :
    ofSchema document = ofSchema other := by
  have hproperty : property document = property other := by
    unfold property
    rw [h]
  have hproperties : properties document = properties other := by
    unfold properties
    rw [hproperty]
  have hkind : kindOf document = kindOf other := by
    unfold kindOf
    rw [hproperties, h]
  unfold ofSchema
  rw [hkind]

/-- Named schemas are sorted, in whatever order they stand. -/
theorem namedSchemas_eq {v w : Value} (h : SameEntries v w) : namedSchemas v = namedSchemas w := by
  refine Rearranged.elim (P := fun v w => namedSchemas v = namedSchemas w) h (fun _ => rfl)
    fun m n h => ?_
  have hsorted := h.sortOn (S := Eq) (fun _ => rfl) fun _ _ _ => id
  refine (hsorted.bind (S := Eq) fun es fs hes => ?_).eq
  obtain rfl : es = fs := by
    rw [← List.forall₂_eq_eq_eq]
    exact hes.imp fun p q hpq => Prod.ext hpq.1 hpq.2
  exact .refl (fun _ => rfl) _

end Model

namespace EnumListing

theorem isSchemaName_eq {v w : Value} (h : SameEntries v w) (name : String) :
    isSchemaName v name = isSchemaName w name := by
  refine Rearranged.elim (P := fun v w => isSchemaName v name = isSchemaName w name) h
    (fun _ => rfl) fun m n h => ?_
  rw [isSchemaName, isSchemaName, Value.hasField_eq, Value.hasField_eq, SameEntries.get?_eq h]

/-- Which paths are listings does not depend on the order of named schemas. -/
theorem among_eq {v w : Value} (h : SameEntries v w) (paths : List Scalar) :
    among v paths = among w paths := by
  induction paths with
  | nil => rfl
  | cons p paths ih => simp only [among, ih, isSchemaName_eq h]

end EnumListing

namespace Document

variable {document other : Value}

theorem sameComponent_refl (key : String) (v : Value) : SameComponent key v v := by
  unfold SameComponent
  split
  · exact .refl v
  · rfl

/-- The named schemas of a document in another order are the same in another order. -/
theorem Reordered.named (h : Reordered document other) :
    Outcome.Parallel SameEntries (Schema.named document) (Schema.named other) := by
  refine Rearranged.elim (P := fun v w => Outcome.Parallel SameEntries (Schema.named v)
    (Schema.named w)) h (fun _ => .refl .refl _) fun root root' (h : Reordered _ _) => ?_
  have hdefinitions := h.field_eq "definitions" (by decide) (by decide)
  have hcomponents : Rearranged SameComponent (Value.field root "components")
      (Value.field root' "components") := Rearranged.field h samePart_refl "components"
  have hset := (hcomponents.alike fun v => .refl v : Value.Alike SameEntries _ _).isSet_eq
  have hfound : Outcome.Parallel SameEntries
      ((Value.field · "schemas") <$> Outcome.expect (Value.field root "components").entries?)
      ((Value.field · "schemas") <$> Outcome.expect (Value.field root' "components").entries?) := by
    revert hcomponents
    generalize Value.field root "components" = v, Value.field root' "components" = w
    intro hcomponents
    cases hcomponents with
    | same => exact .refl .refl _
    | record hm hn h =>
      have hschemas := Rearranged.field (.record hm hn h) sameComponent_refl "schemas"
      rwa [SameComponent, if_pos rfl] at hschemas
  have hchosen : ∀ v w, SameEntries v w → SameEntries
      (let schemas := if v.isNull then Value.field root "definitions" else v
        if schemas.isSet then schemas else .map [])
      (let schemas := if w.isNull then Value.field root' "definitions" else w
        if schemas.isSet then schemas else .map []) := by
    intro v w hvw
    rw [← hdefinitions, ← hvw.alike.isNull_eq]
    split
    · exact .refl _
    · dsimp only
      rw [← hvw.alike.isSet_eq]
      split
      · exact hvw
      · exact .refl _
  show Outcome.Parallel SameEntries
    (if (Value.field root "components").isSet then _ else _)
    (if (Value.field root' "components").isSet then _ else _)
  rw [← hset]
  split
  · exact hfound.bind hchosen
  · exact hchosen .null .null (.refl .null)

/-- A document in another order gives the same models. -/
theorem Reordered.models_eq (h : Reordered document other) :
    ModelSet.ofDocument document = ModelSet.ofDocument other := by
  have hnull : Nullable.canBeNull document = Nullable.canBeNull other := by
    funext schema
    have hresolve : ∀ ref, Outcome.Parallel (SameReach False) (Reference.resolve document ref)
        (Reference.resolve other ref) := h.resolve False.elim
    exact Nullable.search_eq hresolve (.cons (.schema (sameReach_refl schema)) .nil)
  unfold ModelSet.ofDocument
  rw [Model.ofSchema_eq hnull]
  refine (h.named.bind fun v w hvw => ?_).eq
  rw [Model.namedSchemas_eq hvw]
  exact .refl (fun _ => rfl) _

/-- A document in another order gives the same listings. -/
theorem Reordered.listings_eq (h : Reordered document other) :
    EnumListing.ofDocument document = EnumListing.ofDocument other := by
  refine Rearranged.elim (P := fun v w => EnumListing.ofDocument v = EnumListing.ofDocument w) h
    (fun _ => rfl) fun root root' (h : Reordered _ _) => ?_
  have hpaths : Rearranged (fun _ => SameEntries) (Value.field root "paths")
      (Value.field root' "paths") := by
    have hpart := Rearranged.field h samePart_refl "paths"
    rwa [SamePart, if_pos rfl] at hpart
  have hset := (hpaths.alike fun v => .refl v : Value.Alike SameEntries _ _).isSet_eq
  have hmembers : (if (Value.field root "paths").isSet then Value.field root "paths"
      else .map []).sortedMembers = (if (Value.field root' "paths").isSet then
        Value.field root' "paths" else .map []).sortedMembers := by
    rw [← hset]
    split
    · exact hpaths.sortedMembers_eq
    · rfl
  show (Schema.named (.map root) >>= fun schemas => _ >>= fun paths => _) =
    (Schema.named (.map root') >>= fun schemas => _ >>= fun paths => _)
  rw [hmembers]
  refine (h.named.bind (S := Eq) fun v w hvw => ?_).eq
  simp only [EnumListing.among_eq hvw]
  exact .refl (fun _ => rfl) _

/-- The order of paths, of the entries of their items and of named schemas changes nothing: in
another order a document gives the same endpoints in the same order under the same names or fails as
well, and the same models and listings. Only the item of a path that is named like the content of a
response must keep its first entry, unless a preferred media type is among its entries, and only
endpoints depend on that. -/
theorem Reordered.sameResults (h : Reordered document other) :
    (KeepsContent document other →
      Outcome.Alike Eq (Endpoint.ofDocument document) (Endpoint.ofDocument other)) ∧
    ModelSet.ofDocument document = ModelSet.ofDocument other ∧
    EnumListing.ofDocument document = EnumListing.ofDocument other := by
  refine ⟨fun hcontent => ?_, h.models_eq, h.listings_eq⟩
  refine Outcome.alike_of_ok_iff ⟨?_, ?_⟩ ?_
  · rintro ⟨a, ha⟩
    exact ⟨a, h.endpoints_eq_ok hcontent ha⟩
  · rintro ⟨a, ha⟩
    exact ⟨a, h.symm.endpoints_eq_ok hcontent.symm ha⟩
  · intro a b ha hb
    have heq := h.endpoints_eq_ok hcontent ha
    rw [hb] at heq
    exact (Except.ok.inj heq).symm

/-- A document of paths and named schemas. -/
def ofParts (paths schemas : Entries String Value) : Value :=
  .record [("paths", .record paths), ("components", .record [("schemas", .record schemas)])]

/-- Parts in another order make a document in another order. -/
theorem reordered_ofParts {paths paths' paths'' schemas schemas' : Entries String Value}
    (hpaths : paths.keys.Nodup) (hperm : paths.Perm paths')
    (hitems : List.Forall₂ (fun p q => p.1 = q.1 ∧ SameEntries p.2 q.2) paths' paths'')
    (hschemas : schemas.keys.Nodup) (hperm' : schemas.Perm schemas') :
    Reordered (ofParts paths schemas) (ofParts paths'' schemas') := by
  have hsame : SameEntries (.record schemas) (.record schemas') :=
    rearranged_of_perm hschemas hperm' (List.forall₂_same.2 fun _ _ => ⟨rfl, rfl⟩)
  have hkeys : ["paths", "components"].Nodup := by decide
  refine rearranged_of_perm hkeys (.refl _) (.cons ⟨rfl, ?_⟩ (.cons ⟨rfl, ?_⟩ .nil))
  · show SamePart "paths" _ _
    rw [SamePart, if_pos rfl]
    exact rearranged_of_perm hpaths hperm hitems
  · show SamePart "components" _ _
    rw [SamePart, if_neg (by decide), if_pos rfl]
    refine rearranged_of_perm (List.nodup_singleton "schemas") (.refl _) (.cons ⟨rfl, ?_⟩ .nil)
    show SameComponent "schemas" _ _
    rwa [SameComponent, if_pos rfl]

/-- An operation under a method, with the one name that all such operations have. -/
def listed (method : String) : String × Value :=
  (method, .record [("operationId", .str "list")])

/-- The endpoint of such an operation, with what tells its name apart. -/
def listedEndpoint (method : Method) (suffix path : String) : Endpoint :=
  { operationName := "list", exportName := "defaultList" ++ suffix,
    builderName := "buildDefaultList" ++ suffix ++ "Spec", method := method.name, path,
    supportsQuery := method = .get, supportsMutation := method ≠ .get }

/-- Names that methods tell apart stay with their paths and methods. -/
theorem sameResults_shuffled :
    let pets := Value.record [listed "get", listed "put"]
    let pets' := Value.record [listed "put", listed "get"]
    let kinds := Value.record [listed "get"]
    let pet := ("Pet", Value.record [("type", .str "string")])
    let kind := ("Kind", Value.record [("$ref", .str "#/components/schemas/Pet")])
    let document := ofParts [("/pets", pets), ("/Enums/GetAllKind", kinds)] [pet, kind]
    let other := ofParts [("/Enums/GetAllKind", kinds), ("/pets", pets')] [kind, pet]
    let a : Api := { endpoints := [listedEndpoint .get "" "/Enums/GetAllKind",
      listedEndpoint .get "Get" "/pets", listedEndpoint .put "Put" "/pets"] }
    Reordered document other ∧ KeepsContent document other ∧
      Endpoint.ofDocument other = .ok a ∧ Endpoint.ofDocument document = .ok a ∧
      ModelSet.ofDocument document = ModelSet.ofDocument other ∧
      EnumListing.ofDocument document = EnumListing.ofDocument other := by
  intro pets pets' kinds pet kind document other a
  have hpets : SameEntries pets pets' :=
    rearranged_of_perm (by decide) (.swap _ _ _) (List.forall₂_same.2 fun _ _ => ⟨rfl, rfl⟩)
  have h : Reordered document other :=
    reordered_ofParts (by decide) (.swap _ _ _) (.cons ⟨rfl, .refl _⟩ (.cons ⟨rfl, hpets⟩ .nil))
      (by decide) (.swap _ _ _)
  have hcontent : KeepsContent document other := by
    intro v w hv
    cases hv
  have hsorted : Scalar.sortOn (·.1)
      [(Scalar.str "/Enums/GetAllKind", kinds), (.str "/pets", pets')] =
      .ok [(.str "/Enums/GetAllKind", kinds), (.str "/pets", pets')] :=
    Scalar.sortOn_of_pairwise rfl (by decide) (by decide)
  have hother : Endpoint.ofDocument other = .ok a := by
    rw [Endpoint.ofDocument_eq]
    exact Outcome.bind_eq_ok.2 ⟨_, rfl, Outcome.bind_eq_ok.2 ⟨_, hsorted, by decide +kernel⟩⟩
  obtain ⟨hendpoints, hresults⟩ := h.sameResults
  have halike := hendpoints hcontent
  have hdocument : Endpoint.ofDocument document = .ok a := by
    rw [hother] at halike
    cases hread : Endpoint.ofDocument document with
    | error _ =>
      rw [hread] at halike
      exact halike.elim
    | ok b =>
      rw [hread] at halike
      exact congrArg Except.ok halike
  exact ⟨h, hcontent, hother, hdocument, hresults⟩

/-- A document with one path, and responses that refer to its paths. -/
def readAndWritten (item : Entries String Value) : Value := ofParts [("content", .record item)] []

/-- A read operation whose responses refer to the paths, with a schema of its own. -/
def referringRead : String × Value :=
  ("get", .record [("schema", .record [("type", .str "string")]),
    ("responses", .record [("200", .record [("$ref", .str "#/paths")])])])

/-- A write operation with a schema of its own. -/
def plainWrite : String × Value := ("post", .record [("schema", .record [("type", .str "number")])])

/-- What a document with these operations gives. -/
def readAndWrittenApi (output : String) : Api :=
  { endpoints := [
      { operationName := "getContent", exportName := "defaultGetContent",
        builderName := "buildDefaultGetContentSpec", method := "GET", path := "content",
        outputTypeName := output, supportsQuery := true, supportsMutation := false },
      { operationName := "postContent", exportName := "defaultPostContent",
        builderName := "buildDefaultPostContentSpec", method := "POST", path := "content" }] }

/-- The first entry under `content` is what the responses take for a media type. -/
theorem not_sameResults_content :
    let document := readAndWritten [referringRead, plainWrite]
    let other := readAndWritten [plainWrite, referringRead]
    Reordered document other ∧
      Endpoint.ofDocument document = .ok (readAndWrittenApi "string") ∧
      Endpoint.ofDocument other = .ok (readAndWrittenApi "number") ∧
      ¬ Outcome.Alike Eq (Endpoint.ofDocument document) (Endpoint.ofDocument other) := by
  intro document other
  have hitem : SameEntries (.record [referringRead, plainWrite])
      (.record [plainWrite, referringRead]) :=
    rearranged_of_perm (by decide) (.swap _ _ _) (List.forall₂_same.2 fun _ _ => ⟨rfl, rfl⟩)
  have hdocument : Endpoint.ofDocument document = .ok (readAndWrittenApi "string") := by
    decide +kernel
  have hother : Endpoint.ofDocument other = .ok (readAndWrittenApi "number") := by
    decide +kernel
  refine ⟨?_, hdocument, hother, ?_⟩
  · exact reordered_ofParts (by decide) (.refl _) (.cons ⟨rfl, hitem⟩ .nil) (by decide) (.refl _)
  · rw [hdocument, hother]
    show ¬ readAndWrittenApi "string" = readAndWrittenApi "number"
    decide

end Document
end ApiScribe
