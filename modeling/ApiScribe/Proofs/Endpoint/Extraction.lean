import ApiScribe.Endpoint.Extract
import ApiScribe.Proofs.Endpoint.Names
import ApiScribe.Proofs.Value.Sorting

/-! Extracted endpoints. Every endpoint of a document has a scope of plain segments, an operation
name of letters and digits, and a method and path that no other endpoint has. -/
namespace ApiScribe
namespace Endpoint

open Naming

/-- A scope has segments, and none of them holds a slash. -/
def HasPlainScope (e : Endpoint) : Prop := e.scope ≠ [] ∧ ∀ s ∈ e.scope, '/' ∉ s.toList

theorem slash_not_mem_kebab (s : String) : '/' ∉ (kebab s).toList := by
  intro h
  rw [kebab, String.toList_ofList] at h
  rcases mem_kebabChars h with h | h
  · exact absurd h (by decide)
  · exact absurd h (by decide)

/-- A scope is the one without a tag, or its segments are texts in kebab case that are not empty. -/
theorem scopeOfTags_cases {tags : Value} {scope : List String}
    (h : scopeOfTags tags = .ok scope) : scope = ["default"] ∨
      scope ≠ [] ∧ ∀ s ∈ scope, ∃ t, s = kebab t ∧ s ≠ "" := by
  unfold scopeOfTags at h
  split at h
  · exact .inl (Except.ok.inj h).symm
  · obtain ⟨first, -, h⟩ := Outcome.bind_eq_ok.1 h
    split at h
    · simp [Outcome.unexpected, bind, Except.bind] at h
    · simp only [Outcome.pure_eq_ok] at h
      split at h
      · exact .inl h.symm
      · next hne =>
        rw [← h]
        refine .inr ⟨by simpa using hne, fun s hs => ?_⟩
        obtain ⟨hs, hsome⟩ := List.mem_filter.1 hs
        obtain ⟨t, -, rfl⟩ := List.mem_map.1 hs
        exact ⟨t, rfl, by simpa using hsome⟩

theorem scopeOfTags_plain {tags : Value} {scope : List String}
    (h : scopeOfTags tags = .ok scope) : scope ≠ [] ∧ ∀ s ∈ scope, '/' ∉ s.toList := by
  rcases scopeOfTags_cases h with rfl | ⟨hne, hall⟩
  · exact ⟨by simp, by decide⟩
  · refine ⟨hne, fun s hs => ?_⟩
    obtain ⟨t, rfl, -⟩ := hall s hs
    exact slash_not_mem_kebab t

theorem isWordText_operationNameOf (id method : String) (scope : List String) :
    IsWordText (operationNameOf id method scope).toList := by
  unfold operationNameOf
  extract_lets scopeName start short
  by_cases h : Text.blank short = true
  · rw [if_pos h]
    exact isWordText_camel id
  · rw [if_neg h]
    exact isWordText_camel short

/-- What holds of every endpoint of a document before it has an export name. -/
structure IsExtracted (e : Endpoint) : Prop where
  scope : e.HasPlainScope
  operation : IsWordText e.operationName.toList

/-- What the parts of an endpoint say once they are checked: they take the place of its own, and
nothing else changes. -/
theorem assemble_eq_ok {e e' : Endpoint} {summary path : Value} {query fields : List Value}
    (h : assemble e summary path query fields = .ok e') :
    ∃ s t qs fs, Check.string path = .ok t ∧
      List.Forall₂ (fun v q => Check.string v = .ok q) query qs ∧
      List.Forall₂ (fun v f => Check.string v = .ok f) fields fs ∧
      e' = { e with summary := s, path := t, queryFields := qs, pathFields := fs } := by
  simp only [assemble, Checked.seq_eq_ok, Checked.map_eq_ok, Checked.under_eq_ok,
    Checked.eachFrom_eq_ok] at h
  obtain ⟨_, fs, ⟨_, qs, ⟨_, t, ⟨s, _, hf⟩, hpath, hg⟩, hquery, hh⟩, hfields, he⟩ := h
  exact ⟨s, t, qs, fs, hpath, hquery, hfields, by rw [← he, ← hh, ← hg, ← hf]⟩

/-- The inputs of an endpoint: its fields are the names of parameters by their place, it takes a
body if there is a type for one, and with several slots its input has a shape. -/
structure HasInputs (e : Endpoint) (parameters : List Parameter) (bodyType : Option String) :
    Prop where
  path : List.Forall₂ (fun p f => Check.string (.scalar p.name) = .ok f)
    (parameters.filter (·.isIn "path")) e.pathFields
  query : List.Forall₂ (fun p f => Check.string (.scalar p.name) = .ok f)
    (parameters.filter (·.isIn "query")) e.queryFields
  body : e.requestBodyField = bodyType.map fun _ => "body"
  shape : 2 ≤ e.inputSlots → ∃ shape, e.inputShape = some shape ∧
    inputShapeText (parameters.filter (·.isIn "path")) (parameters.filter (·.isIn "query"))
      bodyType = .ok shape

/-- The parameters of an operation: those of its path, and its own. -/
def parametersOf (document : Value) (item operation : List (Scalar × Value)) :
    Outcome (List Parameter) := do
  mergeParameters document (← parameterList (Value.field item "parameters"))
    (← parameterList (Value.field operation "parameters"))

/-- The input type that the types of the slots make. -/
def inputTypeOf (name : String) : List String → String
  | [] => "void"
  | [t] => t
  | _ => pascal name ++ "Input"

/-- The types of an endpoint. Several slots make a shape, and a single one is the input itself. -/
structure HasTypes (e : Endpoint) (document : Value) (operation : List (Scalar × Value))
    (parameters : List Parameter) (bodyType : Option String) : Prop where
  body : ∀ t ∈ bodyType, ∃ schema,
    bodySchema document (Value.field operation "requestBody") = .ok schema ∧
      Schema.typeText schema = .ok t
  shape : ∀ shape ∈ e.inputShape, inputShapeText (parameters.filter (·.isIn "path"))
    (parameters.filter (·.isIn "query")) bodyType = .ok shape
  input : e.inputShape = none → e.inputTypeName = "void" ∨ bodyType = some e.inputTypeName ∨
    ∃ p ∈ parameters, Schema.typeText p.schema = .ok e.inputTypeName
  slots : ∃ slots, (parameters.filter (·.isIn "path") ++ parameters.filter (·.isIn "query")).mapM
      (fun p => Schema.typeText p.schema) = .ok slots ∧
    e.inputTypeName = inputTypeOf e.operationName (slots ++ bodyType.toList) ∧
    (e.inputShape.isSome = true ↔ 2 ≤ (slots ++ bodyType.toList).length)
  output : responseType document (Value.field operation "responses") = .ok e.outputTypeName

/-- The input type of less than two slots. -/
theorem input_of_few {parameters : List Parameter} {slots : List String} {bodyType : Option String}
    (hslots : (parameters.filter (·.isIn "path") ++ parameters.filter (·.isIn "query")).mapM
      (fun p => Schema.typeText p.schema) = .ok slots)
    (hfew : (slots ++ bodyType.toList).length < 2) {many : String} :
    let type := match slots ++ bodyType.toList with
      | [] => "void"
      | [t] => t
      | _ => many
    type = "void" ∨ bodyType = some type ∨
      ∃ p ∈ parameters, Schema.typeText p.schema = .ok type := by
  have hmem : ∀ t ∈ slots ++ bodyType.toList, bodyType = some t ∨
      ∃ p ∈ parameters, Schema.typeText p.schema = .ok t := by
    intro t ht
    rcases List.mem_append.1 ht with ht | ht
    · obtain ⟨p, hp, hpt⟩ := Outcome.exists_of_mem_mapM hslots ht
      rcases List.mem_append.1 hp with hp | hp
      · exact .inr ⟨p, (List.mem_filter.1 hp).1, hpt⟩
      · exact .inr ⟨p, (List.mem_filter.1 hp).1, hpt⟩
    · exact .inl (Option.mem_toList.1 ht)
  match hslot : slots ++ bodyType.toList, hfew with
  | [], _ => exact .inl rfl
  | [t], _ => exact .inr (hmem t (hslot ▸ List.mem_singleton_self t))

/-- The type of a body, which there is just if there is a body. -/
theorem bodyType_eq_ok {hasBody : Prop} [Decidable hasBody] {schema : Value}
    {bodyType : Option String}
    (h : (if hasBody then some <$> Schema.typeText schema else pure none) = .ok bodyType) :
    (if hasBody then some "body" else none) = bodyType.map (fun _ => "body") ∧
      ∀ t ∈ bodyType, Schema.typeText schema = .ok t := by
  split at h
  · next hbody =>
    obtain ⟨t, ht, rfl⟩ := Outcome.map_eq_ok.1 h
    refine ⟨if_pos hbody, ?_⟩
    rintro u ⟨⟩
    exact ht
  · next hbody =>
    obtain rfl := Outcome.pure_eq_ok.1 h
    exact ⟨if_neg hbody, by simp⟩

/-- The shape of an input, which there is just if there are several slots. -/
theorem inputShape_eq_ok {slots : Nat} {text : Outcome String} {shape : Option String}
    (h : (if slots < 2 then pure none else some <$> text) = .ok shape) :
    (shape.isSome = true ↔ 2 ≤ slots) ∧ ∀ s ∈ shape, text = .ok s := by
  split at h
  · next hfew =>
    obtain rfl := Outcome.pure_eq_ok.1 h
    exact ⟨iff_of_false Bool.false_ne_true (Nat.not_le.2 hfew), by simp⟩
  · next hmany =>
    obtain ⟨s, hs, rfl⟩ := Outcome.map_eq_ok.1 h
    refine ⟨iff_of_true rfl (Nat.not_lt.1 hmany), ?_⟩
    rintro u ⟨⟩
    exact hs

/-- What an endpoint is built from, before its parts are checked. -/
theorem exists_of_build {document : Value} {path : Scalar} {method : Method}
    {item operation : List (Scalar × Value)} {e : Endpoint}
    (h : build document path method item operation = .ok e) :
    ∃ ofPath ofOperation parameters bodyType summary id, ∃ e₀ : Endpoint,
      mergeParameters document ofPath ofOperation = .ok parameters ∧
      assemble e₀ summary (.scalar path)
        ((parameters.filter (·.isIn "query")).map fun p => .scalar p.name)
        ((parameters.filter (·.isIn "path")).map fun p => .scalar p.name) = .ok e ∧
      e₀.method = method.name ∧ scopeOfTags (Value.field operation "tags") = .ok e₀.scope ∧
      e₀.operationName = operationNameOf id method.name e₀.scope ∧ e₀.flags = [] ∧
      e₀.requestBodyField = (bodyType.map fun _ => "body") ∧
      (2 ≤ ((parameters.filter (·.isIn "path")) ++ parameters.filter (·.isIn "query")).length
          + bodyType.toList.length → e₀.inputShape.isSome) ∧
      parametersOf document item operation = .ok parameters ∧
      e₀.HasTypes document operation parameters bodyType := by
  unfold build at h
  obtain ⟨scope, hscope, h⟩ := Outcome.bind_eq_ok.1 h
  obtain ⟨ofPath, hofPath, h⟩ := Outcome.bind_eq_ok.1 h
  obtain ⟨ofOperation, hofOperation, h⟩ := Outcome.bind_eq_ok.1 h
  obtain ⟨parameters, hmerge, h⟩ := Outcome.bind_eq_ok.1 h
  obtain ⟨schema, hschema, h⟩ := Outcome.bind_eq_ok.1 h
  have hparameters : parametersOf document item operation = .ok parameters :=
    Outcome.bind_eq_ok.2 ⟨ofPath, hofPath, Outcome.bind_eq_ok.2 ⟨ofOperation, hofOperation, hmerge⟩⟩
  dsimp only at h
  -- the id, the body and the shape are each read in one of two ways
  obtain ⟨id, -, h⟩ := Outcome.ite_bind_eq_ok.1 h
  obtain ⟨slots, hslots, h⟩ := Outcome.bind_eq_ok.1 h
  obtain ⟨bodyType, hbody, h⟩ := Outcome.ite_bind_eq_ok.1 h
  obtain ⟨shape, hshape, h⟩ := Outcome.ite_bind_eq_ok.1 h
  obtain ⟨output, houtput, h⟩ := Outcome.bind_eq_ok.1 h
  obtain ⟨hfield, htype⟩ := bodyType_eq_ok hbody
  obtain ⟨hsome, htext⟩ := inputShape_eq_ok hshape
  have hlength : (slots ++ bodyType.toList).length = ((parameters.filter (·.isIn "path")) ++
      parameters.filter (·.isIn "query")).length + bodyType.toList.length := by
    rw [List.length_append, (Outcome.mapM_eq_ok.1 hslots).length_eq]
  exact ⟨ofPath, ofOperation, parameters, bodyType, _, id, _, hmerge, Outcome.toOutcome_eq_ok.1 h,
    rfl, hscope, rfl, rfl, hfield, fun hmany => hsome.2 (hlength ▸ hmany), hparameters, {
      body := fun t ht => ⟨schema, hschema, htype t ht⟩
      shape := htext
      input := fun hnone => input_of_few hslots (Nat.not_le.1 fun hmany =>
        Option.isSome_iff_ne_none.1 (hsome.2 hmany) hnone)
      slots := ⟨slots, hslots, rfl, hsome⟩
      output := houtput }⟩

theorem build_eq_ok {document : Value} {path : Scalar} {method : Method}
    {item operation : List (Scalar × Value)} {e : Endpoint}
    (h : build document path method item operation = .ok e) :
    e.method = method.name ∧ Check.string (.scalar path) = .ok e.path ∧ e.IsExtracted := by
  obtain ⟨_, _, _, _, _, id, e₀, -, hassemble, hmethod, hscope, hname, -, -⟩ := exists_of_build h
  obtain ⟨_, text, _, _, hpath, -, -, rfl⟩ := assemble_eq_ok hassemble
  refine ⟨hmethod, hpath, scopeOfTags_plain hscope, ?_⟩
  show IsWordText e₀.operationName.toList
  rw [hname]
  exact isWordText_operationNameOf _ _ _

/-- The inputs of an endpoint are those of its operation: its parameters and its body. -/
theorem exists_inputs_of_build {document : Value} {path : Scalar} {method : Method}
    {item operation : List (Scalar × Value)} {e : Endpoint}
    (h : build document path method item operation = .ok e) :
    ∃ ofPath ofOperation parameters bodyType,
      mergeParameters document ofPath ofOperation = .ok parameters ∧
        parametersOf document item operation = .ok parameters ∧
        (∀ t ∈ bodyType, ∃ schema, bodySchema document (Value.field operation "requestBody") =
          .ok schema ∧ Schema.typeText schema = .ok t) ∧
        e.HasInputs parameters bodyType := by
  obtain ⟨ofPath, ofOperation, parameters, bodyType, _, _, e₀, hmerge, hassemble, -, -, -, -, hbody,
    hsome, hparameters, htypes⟩ := exists_of_build h
  obtain ⟨_, _, _, _, -, hquery, hpath, rfl⟩ := assemble_eq_ok hassemble
  rw [List.forall₂_map_left_iff] at hquery hpath
  refine ⟨ofPath, ofOperation, parameters, bodyType, hmerge, hparameters, htypes.body, hpath,
    hquery, hbody, fun hmany => ?_⟩
  obtain ⟨shape, hshape⟩ := Option.isSome_iff_exists.1 <| hsome <| hmany.trans <| by
    rw [inputSlots, List.length_append, hpath.length_eq, hquery.length_eq, hbody]
    cases bodyType <;> simp
  exact ⟨shape, hshape, htypes.shape shape hshape⟩

theorem hasInputs_of_build {document : Value} {path : Scalar} {method : Method}
    {item operation : List (Scalar × Value)} {e : Endpoint}
    (h : build document path method item operation = .ok e) :
    ∃ ofPath ofOperation parameters bodyType,
      mergeParameters document ofPath ofOperation = .ok parameters ∧
        e.HasInputs parameters bodyType := by
  obtain ⟨ofPath, ofOperation, parameters, bodyType, hmerge, -, -, hinputs⟩ :=
    exists_inputs_of_build h
  exact ⟨ofPath, ofOperation, parameters, bodyType, hmerge, hinputs⟩

/-- The method and path of an endpoint. -/
def place (e : Endpoint) : String × String := (e.method, e.path)

theorem name_injective {m n : Method} (h : m.name = n.name) : m = n := by
  cases m <;> cases n <;> first | rfl | exact absurd h (by decide)

theorem nodup_operations (item : List (Scalar × Value)) :
    ((operations item).map fun p => p.1.name).Nodup := by
  have h : ∀ ms : List Method, ms.Nodup →
      ((ms.filterMap fun method => ((Value.field item method.key).entries?).map
        fun operation => (method, operation)).map fun p => p.1.name).Nodup := by
    intro ms
    induction ms with
    | nil => intro _; exact List.nodup_nil
    | cons m ms ih =>
      intro hms
      obtain ⟨hm, hms⟩ := List.nodup_cons.1 hms
      rw [List.filterMap_cons]
      split
      · exact ih hms
      · next p hp =>
        obtain ⟨_, -, rfl⟩ := Option.map_eq_some_iff.1 hp
        rw [List.map_cons, List.nodup_cons]
        refine ⟨?_, ih hms⟩
        intro hmem
        obtain ⟨q, hq, hqn⟩ := List.mem_map.1 hmem
        obtain ⟨n, hn, hq⟩ := List.mem_filterMap.1 hq
        obtain ⟨_, -, rfl⟩ := Option.map_eq_some_iff.1 hq
        have hnm : n = m := name_injective hqn
        exact hm (hnm ▸ hn)
  exact h Method.all (by decide)

/-- The endpoints of one path: of different methods, all of that path. -/
theorem ofPathItem_eq_ok {document item : Value} {path : Scalar} {es : List Endpoint}
    (h : ofPathItem document path item = .ok es) :
    (∀ e ∈ es, Check.string (.scalar path) = .ok e.path ∧ e.IsExtracted) ∧
      (es.map (·.place)).Nodup := by
  unfold ofPathItem at h
  obtain ⟨node, -, h⟩ := Outcome.bind_eq_ok.1 h
  split at h
  · next m =>
    refine ⟨?_, ?_⟩
    · intro e he
      obtain ⟨p, -, hp⟩ := Outcome.exists_of_mem_mapM h he
      exact (build_eq_ok hp).2
    · have hmethods : es.map (·.method) = (operations m).map fun p => p.1.name :=
        Outcome.map_eq_of_mapM (fun _ _ hp => (build_eq_ok hp).1) h
      refine List.Nodup.of_map Prod.fst ?_
      rw [List.map_map]
      exact hmethods ▸ nodup_operations m
  · cases h
    simp

/-- No two paths of a document are equal keys. -/
def HasDistinctPaths (document : Value) : Prop :=
  ∀ root paths, document.entries? = some root → Value.field root "paths" = .map paths →
    paths.Pairwise fun p q => (p.1 == q.1) = false

/-- The endpoints of paths that are different texts have different methods or paths. -/
theorem ofPathItems_eq_ok {document : Value} {paths : List (Scalar × Value)}
    {groups : List (List Endpoint)}
    (hpaths : paths.Pairwise fun p q => ∀ s, Check.string (.scalar p.1) = .ok s →
      Check.string (.scalar q.1) ≠ .ok s)
    (h : (paths.mapM fun p => ofPathItem document p.1 p.2) = .ok groups) :
    (∀ e ∈ groups.flatten, e.IsExtracted ∧
      ∃ p ∈ paths, Check.string (.scalar p.1) = .ok e.path) ∧
      (groups.flatten.map (·.place)).Nodup := by
  have hall := Outcome.mapM_eq_ok.1 h
  clear h
  induction hall with
  | nil => simp
  | @cons p es paths groups hp _ ih =>
    obtain ⟨hfirst, hrest⟩ := List.pairwise_cons.1 hpaths
    obtain ⟨hes, hnodup⟩ := ofPathItem_eq_ok hp
    obtain ⟨hgroups, hnodups⟩ := ih hrest
    refine ⟨?_, ?_⟩
    · intro e he
      rw [List.flatten_cons, List.mem_append] at he
      rcases he with he | he
      · exact ⟨(hes e he).2, p, List.mem_cons_self, (hes e he).1⟩
      · obtain ⟨hx, q, hq, hs⟩ := hgroups e he
        exact ⟨hx, q, List.mem_cons_of_mem p hq, hs⟩
    · rw [List.flatten_cons, List.map_append, List.nodup_append]
      refine ⟨hnodup, hnodups, ?_⟩
      rintro _ ha _ hb rfl
      obtain ⟨e, he, rfl⟩ := List.mem_map.1 ha
      obtain ⟨f, hf, hplace⟩ := List.mem_map.1 hb
      obtain ⟨-, q, hq, hs⟩ := hgroups f hf
      have hpath : f.path = e.path := congrArg Prod.snd hplace
      rw [hpath] at hs
      exact hfirst q hq e.path (hes e he).1 hs

/-- The endpoints of a document are those of its paths, in the order of paths, and then named. -/
theorem exists_of_ofDocument {document : Value} {a : Api} (h : ofDocument document = .ok a) :
    ∃ root paths sorted groups, document.entries? = some root ∧
      Value.field root "paths" = .map paths ∧ Scalar.sortOn (·.1) paths = .ok sorted ∧
      (sorted.mapM fun p => ofPathItem document p.1 p.2) = .ok groups ∧
      a.endpoints = nameAll groups.flatten := by
  unfold ofDocument at h
  obtain ⟨root, hroot, h⟩ := Outcome.bind_eq_ok.1 h
  dsimp only at h
  split at h
  · next paths hpaths =>
    rw [pure_bind] at h
    obtain ⟨sorted, hsorted, h⟩ := Outcome.bind_eq_ok.1 h
    obtain ⟨groups, hgroups, h⟩ := Outcome.bind_eq_ok.1 h
    refine ⟨root, paths, sorted, groups, Outcome.expect_eq_ok.1 hroot, hpaths, hsorted, hgroups, ?_⟩
    split at h
    · obtain ⟨_, hfail, -⟩ := Outcome.bind_eq_ok.1 h
      exact absurd hfail Outcome.fail_ne_ok
    · split at h
      · obtain ⟨_, -, h⟩ := Outcome.bind_eq_ok.1 h
        obtain ⟨_, -, h⟩ := Outcome.bind_eq_ok.1 h
        rw [← Outcome.pure_eq_ok.1 h]
      · obtain ⟨_, -, h⟩ := Outcome.bind_eq_ok.1 h
        obtain ⟨_, -, h⟩ := Outcome.bind_eq_ok.1 h
        rw [← Outcome.pure_eq_ok.1 h]
  · obtain ⟨_, hfail, -⟩ := Outcome.bind_eq_ok.1 h
    exact absurd hfail Outcome.fail_ne_ok

/-- The endpoints of a document are extracted and then named. -/
theorem exists_extracted {document : Value} {a : Api} (h : ofDocument document = .ok a) :
    ∃ es, a.endpoints = nameAll es ∧ ∀ e ∈ es, e.IsExtracted := by
  obtain ⟨_, _, _, groups, -, -, -, hgroups, hendpoints⟩ := exists_of_ofDocument h
  refine ⟨groups.flatten, hendpoints, fun e he => ?_⟩
  obtain ⟨es, hes, he⟩ := List.mem_flatten.1 he
  obtain ⟨p, -, hp⟩ := Outcome.exists_of_mem_mapM hgroups hes
  exact ((ofPathItem_eq_ok hp).1 e he).2

/-- An operation of a document, with the path item that it is in. -/
def IsOperation (document : Value) (item operation : List (Scalar × Value)) : Prop :=
  ∃ root paths path node method, document.entries? = some root ∧
    Value.field root "paths" = .map paths ∧ (path, node) ∈ paths ∧
    Reference.deref document node = .ok (.map item) ∧ (method, operation) ∈ operations item

/-- Every endpoint of a document is built from an operation of the document, and then named. -/
theorem exists_operation_of_mem {document : Value} {a : Api} (h : ofDocument document = .ok a)
    {e : Endpoint} (he : e ∈ a.endpoints) :
    ∃ d name path method item operation, e = d.withName name ∧
      build document path method item operation = .ok d ∧ IsOperation document item operation := by
  obtain ⟨root, paths, sorted, groups, hroot, hpaths, hsorted, hgroups, hendpoints⟩ :=
    exists_of_ofDocument h
  rw [hendpoints] at he
  obtain ⟨d, hd, used, rfl⟩ := exists_of_mem_nameFrom [] _ he
  obtain ⟨ds, hds, hd⟩ := List.mem_flatten.1 hd
  obtain ⟨p, hmem, hp⟩ := Outcome.exists_of_mem_mapM hgroups hds
  have hpath : p ∈ paths := (Scalar.sortOn_eq_ok hsorted).1.mem_iff.1 hmem
  unfold ofPathItem at hp
  obtain ⟨node, hnode, hp⟩ := Outcome.bind_eq_ok.1 hp
  split at hp
  · next item =>
    obtain ⟨operation, hoperation, hbuild⟩ := Outcome.exists_of_mem_mapM hp hd
    exact ⟨d, _, p.1, operation.1, item, operation.2, rfl, hbuild, root, paths, p.1, p.2,
      operation.1, hroot, hpaths, hpath, hnode, hoperation⟩
  · cases hp
    cases hd

theorem exists_build_of_mem {document : Value} {a : Api} (h : ofDocument document = .ok a)
    {e : Endpoint} (he : e ∈ a.endpoints) :
    ∃ d name path method item operation, e = d.withName name ∧
      build document path method item operation = .ok d := by
  obtain ⟨d, name, path, method, item, operation, hd, hbuild, -⟩ := exists_operation_of_mem h he
  exact ⟨d, name, path, method, item, operation, hd, hbuild⟩

/-- No endpoint has a flag before passes. -/
theorem flags_of_ofDocument {document : Value} {a : Api} (h : ofDocument document = .ok a)
    {e : Endpoint} (he : e ∈ a.endpoints) : e.flags = [] := by
  obtain ⟨d, name, _, _, _, _, rfl, hbuild⟩ := exists_build_of_mem h he
  obtain ⟨_, _, _, _, _, _, e₀, -, hassemble, -, -, -, hflags, -⟩ := exists_of_build hbuild
  obtain ⟨_, _, _, _, -, -, -, rfl⟩ := assemble_eq_ok hassemble
  exact hflags

/-- The endpoints of a document: extracted, at different places, and then named. -/
theorem ofDocument_eq_ok {document : Value} (hd : HasDistinctPaths document) {a : Api}
    (h : ofDocument document = .ok a) :
    ∃ es, a.endpoints = nameAll es ∧ (∀ e ∈ es, e.IsExtracted) ∧ (es.map (·.place)).Nodup := by
  obtain ⟨root, paths, sorted, groups, hroot, hpaths, hsorted, hgroups, hendpoints⟩ :=
    exists_of_ofDocument h
  have hall := ofPathItems_eq_ok (Scalar.pairwise_sortOn_string (hd root _ hroot hpaths) hsorted) hgroups
  exact ⟨groups.flatten, hendpoints, fun e he => (hall.1 e he).1, hall.2⟩

end Endpoint
end ApiScribe
