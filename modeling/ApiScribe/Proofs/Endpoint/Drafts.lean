import ApiScribe.Proofs.Endpoint.Extraction
import ApiScribe.Proofs.Outcome

/-! Endpoints without their output types. All but the output type of an endpoint is a draft, which is
finished with a type that responses give; so the endpoints of a document are the drafts of the
operations that it declares, each finished, and other output types change nothing else. -/
namespace ApiScribe
namespace Endpoint

open Schema

/-- An endpoint without its output type, and the parts of it that are still to be checked. -/
structure Draft where
  endpoint : Endpoint
  summary : Value
  queryFields : List Value
  pathFields : List Value

/-- The draft of an operation. -/
def draft (document : Value) (path : Scalar) (method : Method)
    (pathItem operation : List (Scalar × Value)) : Outcome Draft := do
  let scope ← scopeOfTags (Value.field operation "tags")
  let parameters ← parametersOf document pathItem operation
  let ofPath := parameters.filter (·.isIn "path")
  let ofQuery := parameters.filter (·.isIn "query")
  let requestBody := Value.field operation "requestBody"
  let schema ← bodySchema document requestBody
  let hasBody := !requestBody.isNull
  let given := Value.field operation "operationId"
  let id ←
    if given.isSet then Outcome.expect given.str?
    else fallbackName method <$> Outcome.expect path.str?
  let name := operationNameOf id method.name scope
  let slots ← (ofPath ++ ofQuery).mapM fun p => typeText p.schema
  let bodyType ← if hasBody then some <$> typeText schema else pure none
  let slots := slots ++ bodyType.toList
  let shape ←
    if slots.length < 2 then pure none else some <$> inputShapeText ofPath ofQuery bodyType
  let inputType := match slots with
    | [] => "void"
    | [t] => t
    | _ => Naming.pascal name ++ "Input"
  let e : Endpoint := {
    scope, operationName := name, method := method.name, path := ""
    inputTypeName := inputType, inputShape := shape
    requestBodyField := if hasBody then some "body" else none
    supportsQuery := method = .get, supportsMutation := method ≠ .get
    deprecated := (Value.field operation "deprecated").isSet }
  return ⟨e, Value.field operation "summary", ofQuery.map fun p => .scalar p.name,
    ofPath.map fun p => .scalar p.name⟩

/-- An endpoint with another output type. -/
def withOutput (e : Endpoint) (output : String) : Endpoint := { e with outputTypeName := output }

/-- The endpoint that a draft and an output type make. -/
def Draft.finish (d : Draft) (path : Scalar) (output : String) : Outcome Endpoint :=
  (assemble (d.endpoint.withOutput output) d.summary (.scalar path) d.queryFields
    d.pathFields).toOutcome

theorem build_eq (document : Value) (path : Scalar) (method : Method)
    (item operation : List (Scalar × Value)) :
    build document path method item operation =
      draft document path method item operation >>= fun d =>
        responseType document (Value.field operation "responses") >>= d.finish path := by
  unfold build draft parametersOf
  -- the id, the body and the shape are each read in one of two ways
  simp only [Outcome.ite_bind, bind_assoc]
  exact bind_congr fun scope => bind_congr fun ofPath => bind_congr fun ofOperation =>
    bind_congr fun parameters => bind_congr fun schema => bind_congr fun id =>
    bind_congr fun slots => bind_congr fun bodyType => bind_congr fun shape => rfl

/-- The output type is checked by nothing. -/
theorem assemble_withOutput (e : Endpoint) (output : String) (summary path : Value)
    (query fields : List Value) :
    assemble (e.withOutput output) summary path query fields =
      (·.withOutput output) <$> assemble e summary path query fields := by
  unfold assemble
  cases Checked.under (.field "summary") (Check.optional Check.string summary) <;>
  cases Checked.under (.field "path") (Check.string path) <;>
  cases Checked.under (.field "query_fields") (Checked.eachFrom Check.string 0 query) <;>
  cases Checked.under (.field "path_fields") (Checked.eachFrom Check.string 0 fields) <;> rfl

/-- A draft that makes an endpoint makes one with any other output type. -/
theorem Draft.finish_eq_ok {d : Draft} {path : Scalar} {output : String} {e : Endpoint}
    (h : d.finish path output = .ok e) :
    e.outputTypeName = output ∧ ∀ other, d.finish path other = .ok (e.withOutput other) := by
  simp only [finish, Outcome.toOutcome_eq_ok, assemble_withOutput, Checked.map_eq_ok] at h ⊢
  obtain ⟨e', he', rfl⟩ := h
  exact ⟨rfl, fun other => ⟨e', he', rfl⟩⟩

/-- An operation that a document declares, with the path and the item that it stands in. -/
structure Declared where
  path : Scalar
  method : Method
  item : List (Scalar × Value)
  operation : List (Scalar × Value)

/-- The operations of one path. -/
def declaredUnder (document : Value) (path : Scalar) (node : Value) : Outcome (List Declared) := do
  match ← Reference.deref document node with
  | .map item => return (operations item).map fun p => ⟨path, p.1, item, p.2⟩
  | _ => return []

/-- The operations of a document, paths in order. -/
def declared (document : Value) : Outcome (List Declared) := do
  let root ← Outcome.expect document.entries?
  match Value.field root "paths" with
  | .map paths => List.flatten <$> (← Scalar.sortOn (·.1) paths).mapM fun p =>
      declaredUnder document p.1 p.2
  | _ => .fail (.missingField "paths")

/-- The endpoint of an operation. -/
def Declared.build (document : Value) (o : Declared) : Outcome Endpoint :=
  Endpoint.build document o.path o.method o.item o.operation

/-- The type that the responses of an operation give. -/
def Declared.outputType (document : Value) (o : Declared) : Outcome String :=
  responseType document (Value.field o.operation "responses")

/-- The types that the responses of a document's operations give, in order. -/
def outputTypes (document : Value) : Outcome (List String) := do
  (← declared document).mapM (·.outputType document)

/-- The title of a document; null when there is none. -/
def title (root : List (Scalar × Value)) : Outcome Value :=
  let info := Value.field root "info"
  if info.isSet then (Value.field · "title") <$> Outcome.expect info.entries? else pure .null

/-- The name of the package that a title gives. -/
def packageName (title : Value) : Outcome String :=
  (if title.isSet then
    Checked.under (.field "package_name") (Check.string title) else pure "generated").toOutcome

theorem ofPathItem_eq (document : Value) (path : Scalar) (node : Value) :
    ofPathItem document path node =
      declaredUnder document path node >>= (List.mapM (Declared.build document) ·) := by
  unfold ofPathItem declaredUnder
  rw [bind_assoc]
  refine bind_congr fun target => ?_
  cases target with
  | map item =>
    rw [pure_bind, List.mapM_map]
    rfl
  | _ => rfl

/-- Named endpoints under the name of the package; without endpoints there is nothing to name. -/
def nameAllOf (root : List (Scalar × Value)) (es : List Endpoint) : Outcome Api :=
  if es.isEmpty then .fail .noOperations
  else (fun name => { project := { packageName := name }, endpoints := nameAll es }) <$>
    (title root >>= packageName)

theorem ofDocument_eq (document : Value) : ofDocument document = (do
    let root ← Outcome.expect document.entries?
    match Value.field root "paths" with
    | .map paths => do
      let sorted ← Scalar.sortOn (·.1) paths
      let groups ← sorted.mapM fun p => ofPathItem document p.1 p.2
      nameAllOf root groups.flatten
    | _ => .fail (.missingField "paths")) := by
  unfold ofDocument
  refine bind_congr fun root => ?_
  cases Value.field root "paths" with
  | map paths =>
    dsimp only
    rw [pure_bind]
    refine bind_congr fun sorted => bind_congr fun groups => ?_
    unfold nameAllOf title packageName
    split
    · rfl
    · dsimp only
      rw [map_bind]
      split
      · simp only [map_eq_pure_bind]
      · simp only [map_eq_pure_bind]
  | _ => rfl

/-- What a document declares: the operations of its paths, in the order of paths. -/
theorem declared_eq_ok {document : Value} {os : List Declared} : declared document = .ok os ↔
    ∃ root paths sorted groups, document.entries? = some root ∧
      Value.field root "paths" = .map paths ∧ Scalar.sortOn (·.1) paths = .ok sorted ∧
      (sorted.mapM fun p => declaredUnder document p.1 p.2) = .ok groups ∧ groups.flatten = os := by
  constructor
  · intro h
    obtain ⟨root, hroot, h⟩ := Outcome.bind_eq_ok.1 h
    split at h
    · next paths hpaths =>
      obtain ⟨sorted, hsorted, h⟩ := Outcome.bind_eq_ok.1 h
      obtain ⟨groups, hgroups, h⟩ := Outcome.map_eq_ok.1 h
      exact ⟨root, paths, sorted, groups, Outcome.expect_eq_ok.1 hroot, hpaths, hsorted, hgroups, h⟩
    · exact absurd h Outcome.fail_ne_ok
  · rintro ⟨root, paths, sorted, groups, hroot, hpaths, hsorted, hgroups, rfl⟩
    refine Outcome.bind_eq_ok.2 ⟨root, Outcome.expect_eq_ok.2 hroot, ?_⟩
    rw [hpaths]
    exact Outcome.bind_eq_ok.2 ⟨sorted, hsorted, Outcome.map_eq_ok.2 ⟨groups, hgroups, rfl⟩⟩

/-- A document gives the named endpoints of the operations that it declares. -/
theorem ofDocument_eq_ok_iff {document : Value} {a : Api} : ofDocument document = .ok a ↔
    ∃ root os es, document.entries? = some root ∧ declared document = .ok os ∧
      os.mapM (·.build document) = .ok es ∧ nameAllOf root es = .ok a := by
  rw [ofDocument_eq]
  simp only [ofPathItem_eq]
  constructor
  · intro h
    obtain ⟨root, hroot, h⟩ := Outcome.bind_eq_ok.1 h
    split at h
    · next paths hpaths =>
      obtain ⟨sorted, hsorted, h⟩ := Outcome.bind_eq_ok.1 h
      obtain ⟨groups, hgroups, h⟩ := Outcome.bind_eq_ok.1 h
      obtain ⟨declared, hdeclared, hes⟩ := Outcome.exists_flatten_of_mapM_bind hgroups
      rw [Outcome.expect_eq_ok] at hroot
      exact ⟨root, _, _, hroot, declared_eq_ok.2 ⟨root, paths, sorted, declared, hroot, hpaths,
        hsorted, hdeclared, rfl⟩, hes, h⟩
    · exact absurd h Outcome.fail_ne_ok
  · rintro ⟨root, os, es, hroot, hos, hes, h⟩
    obtain ⟨root', paths, sorted, declared, hroot', hpaths, hsorted, hdeclared, rfl⟩ :=
      declared_eq_ok.1 hos
    cases hroot.symm.trans hroot'
    obtain ⟨groups, hgroups, rfl⟩ := Outcome.exists_mapM_bind_of_flatten hdeclared hes
    refine Outcome.bind_eq_ok.2 ⟨root, Outcome.expect_eq_ok.2 hroot, ?_⟩
    rw [hpaths]
    exact Outcome.bind_eq_ok.2 ⟨sorted, hsorted, Outcome.bind_eq_ok.2 ⟨groups, hgroups, h⟩⟩

theorem nameFrom_withOutput (used : List String) (es : List Endpoint) (types : List String) :
    nameFrom used (es.zipWith withOutput types) = (nameFrom used es).zipWith withOutput types := by
  induction es generalizing used types with
  | nil => rfl
  | cons e es ih =>
    cases types with
    | nil => rfl
    | cons type types =>
      simp only [List.zipWith_cons_cons, nameFrom, ih]
      rfl

theorem zipWith_withOutput_self (es : List Endpoint) :
    es.zipWith withOutput (es.map (·.outputTypeName)) = es := by
  induction es with
  | nil => rfl
  | cons e es ih =>
    rw [List.map_cons, List.zipWith_cons_cons, ih]
    rfl

/-- The output type of an endpoint is the type that its responses give. -/
theorem outputType_of_build {document : Value} {o : Declared} {e : Endpoint}
    (h : o.build document = .ok e) : o.outputType document = .ok e.outputTypeName := by
  rw [Declared.build, build_eq] at h
  obtain ⟨d, -, h⟩ := Outcome.bind_eq_ok.1 h
  obtain ⟨output, houtput, h⟩ := Outcome.bind_eq_ok.1 h
  rw [(Draft.finish_eq_ok h).1]
  exact houtput

/-- Operations that make given endpoints up to the output type, as far as their responses have one,
make them all so. -/
theorem mapM_build_eq_ok_iff {document : Value} {os : List Declared} {es bs : List Endpoint}
    (h : List.Forall₂ (fun o e => ∀ b, o.build document = .ok b ↔
      ∃ type, o.outputType document = .ok type ∧ b = e.withOutput type) os es) :
    os.mapM (·.build document) = .ok bs ↔
      ∃ types, os.mapM (·.outputType document) = .ok types ∧ bs = es.zipWith withOutput types := by
  induction h generalizing bs with
  | nil =>
    constructor
    · rintro ⟨⟩
      exact ⟨[], rfl, rfl⟩
    · rintro ⟨types, -, rfl⟩
      rfl
  | @cons o e os es ho _ ih =>
    simp only [List.mapM_cons, Outcome.bind_eq_ok, ho, ih, Outcome.pure_eq_ok]
    constructor
    · rintro ⟨_, ⟨type, htype, rfl⟩, _, ⟨types, htypes, rfl⟩, rfl⟩
      exact ⟨type :: types, ⟨type, htype, types, htypes, rfl⟩, rfl⟩
    · rintro ⟨_, ⟨type, htype, types, htypes, rfl⟩, rfl⟩
      exact ⟨_, ⟨type, htype, rfl⟩, _, ⟨types, htypes, rfl⟩, rfl⟩

end Endpoint

/-- The endpoints of a document with other output types, in order. -/
def Api.withOutputTypes (a : Api) (types : List String) : Api :=
  { a with endpoints := a.endpoints.zipWith Endpoint.withOutput types }

/-- The output types of endpoints, in order. -/
def Api.outputTypes (a : Api) : List String := a.endpoints.map (·.outputTypeName)

theorem Api.withOutputTypes_self (a : Api) : a.withOutputTypes a.outputTypes = a := by
  rw [withOutputTypes, outputTypes, Endpoint.zipWith_withOutput_self]

namespace Endpoint

theorem nameAllOf_eq_ok {root : List (Scalar × Value)} {es : List Endpoint} {a : Api}
    (h : nameAllOf root es = .ok a) : a.endpoints = nameAll es := by
  unfold nameAllOf at h
  split at h
  · exact absurd h Outcome.fail_ne_ok
  · obtain ⟨name, -, rfl⟩ := Outcome.map_eq_ok.1 h
    rfl

/-- The output types of a document's endpoints are those that its responses give. -/
theorem outputTypes_of_ofDocument {document : Value} {a : Api} (h : ofDocument document = .ok a) :
    outputTypes document = .ok a.outputTypes := by
  obtain ⟨root, os, es, -, hos, hes, ha⟩ := ofDocument_eq_ok_iff.1 h
  refine Outcome.bind_eq_ok.2 ⟨os, hos, ?_⟩
  rw [Api.outputTypes, nameAllOf_eq_ok ha, nameAll, map_nameFrom (·.outputTypeName) fun _ _ => rfl,
    Outcome.mapM_eq_ok, List.forall₂_map_right_iff]
  exact (Outcome.mapM_eq_ok.1 hes).imp fun _ _ => outputType_of_build

end Endpoint
end ApiScribe
