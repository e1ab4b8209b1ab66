import ApiScribe.Endpoint.Name
import ApiScribe.Schema
import ApiScribe.Value.Order

/-! The endpoints of a document: for every path in order, and for every method in reading order,
one endpoint per declared operation. Parameters of a path are defaults for its operations, and an
operation's own parameter replaces the default of the same name and place. -/
namespace ApiScribe
namespace Endpoint

open Schema

/-- A parameter with the pair of name and place that identifies it. -/
structure Parameter where
  name : Scalar
  place : Scalar
  fields : List (Scalar × Value)

/-- Whether a parameter is of the given place. -/
def Parameter.isIn (p : Parameter) (place : String) : Bool :=
  Value.isString (Value.field p.fields "in") place

/-- The parameter that a list entry gives, references followed; entries without a name give
none. -/
def parameter? (document raw : Value) : Outcome (Option Parameter) := do
  match ← Reference.deref document raw with
  | .map m => match Entries.get? m (.str "name") with
    | none => return none
    | some name =>
      let name ← Outcome.expect name.scalar?
      let place ← Outcome.expect ((Entries.get? m (.str "in")).getD (.str "")).scalar?
      return some ⟨name, place, m⟩
  | _ => return none

/-- Puts a parameter in the place of the one with the same name and place, or at the end. -/
def putParameter (p : Parameter) : List Parameter → List Parameter
  | [] => [p]
  | q :: qs =>
    if q.name == p.name && q.place == p.place then p :: qs else q :: putParameter p qs

/-- The entries of a parameter list; an absent one is empty. -/
def parameterList (v : Value) : Outcome (List Value) :=
  if v.isSet then Outcome.expect v.members? else .ok []

/-- The parameters of an operation: those of its path first, overridden in place by its own. -/
def mergeParameters (document : Value) (ofPath ofOperation : List Value) :
    Outcome (List Parameter) :=
  (ofPath ++ ofOperation).foldlM (fun merged raw => do
    match ← parameter? document raw with
    | some p => return putParameter p merged
    | none => return merged) []

/-- The schema of a parameter; in the older form it is spread over the parameter itself. -/
def Parameter.schema (p : Parameter) : Value :=
  match Value.field p.fields "schema" with
  | .map m => .map m
  | _ => .map (["type", "items", "enum"].filterMap fun key =>
      (Entries.get? p.fields (.str key)).map fun v => (.str key, v))

/-- Whether a name can stand as a member of an object type without quotes. A line end after the
name does not count. -/
def isMemberKey (name : String) : Bool :=
  match name.toList with
  | [] => false
  | c :: cs =>
    let cs := if cs.getLast? = some '\n' then cs.dropLast else cs
    (c.isAlpha || c == '_' || c == '$') && cs.all fun d => d.isAlphanum || d == '_' || d == '$'

/-- A name as the key of a member. -/
def memberKey (name : String) : String := if isMemberKey name then name else Json.quoted name

/-- The members of the input object: path fields, query fields, and the body. Only query fields
that are not required may be left out. -/
def inputShapeText (ofPath ofQuery : List Parameter) (body : Option String) : Outcome String := do
  let path ← ofPath.mapM fun p => do
    let name ← Outcome.expect p.name.str?
    return memberKey name ++ ": " ++ (← typeText p.schema)
  let query ← ofQuery.mapM fun p => do
    let name ← Outcome.expect p.name.str?
    let mark := if (Value.field p.fields "required").isSet then "" else "?"
    return memberKey name ++ mark ++ ": " ++ (← typeText p.schema)
  return objectText (path ++ query ++ (body.map fun t => "body: " ++ t).toList)

/-- The scope that the first tag names: its segments between slashes in kebab case. A tag without end
names none. -/
def scopeOfTags (tags : Value) : Outcome (List String) :=
  if !tags.isSet then .ok ["default"]
  else do
    let first ← Outcome.expect <| match tags with
      | .list xs => xs.head?
      | .map m => Entries.get? m (.int 0)
      | .str s => s.toList.head?.map fun c => .str (String.singleton c)
      | .scalar (.bytes bs) => bs.head?.map fun b => .int b.toNat
      | _ => none
    if first.isEndless then .unexpected
    let segments := ((Text.splitString '/' first.display).filter fun s => !Text.blank s).map
      Naming.kebab
    let segments := segments.filter (· ≠ "")
    return if segments.isEmpty then ["default"] else segments

/-- The schema of a request body; null when it has none. -/
def bodySchema (document body : Value) : Outcome Value := do
  match ← Reference.deref document body with
  | .map m => pickMedia (Value.field m "content")
  | _ => return .null

/-- The statuses whose response gives the output type, best first. -/
def successStatuses : List String := ["200", "201", "default"]

/-- The type of the first response that is declared among the given statuses. -/
def responseTypeOf (document : Value) (responses : List (Scalar × Value)) :
    List String → Outcome String
  | [] => .ok "void"
  | status :: statuses => do
    match ← Reference.deref document (Value.field responses status) with
    | .map m =>
      let picked ← pickMedia (Value.field m "content")
      let schema := if picked.isNull then Value.field m "schema" else picked
      if schema.isSet then typeText schema else return "void"
    | _ => responseTypeOf document responses statuses

/-- The output type of an operation. -/
def responseType (document responses : Value) : Outcome String :=
  match responses with
  | .map m => responseTypeOf document m successStatuses
  | _ => .ok "void"

/-- The name of an operation without an id: its method and the words of its path, path fields
left out. -/
def fallbackName (method : Method) (path : String) : String :=
  let segments := (Text.splitAt '/' path.toList).filter fun s => s.head? ≠ some '{'
  let words := segments.flatMap Naming.splitWords
  Naming.camel (" ".intercalate (method.key :: words.map String.ofList))

/-- Checks the parts of an endpoint that the document gives as they are. -/
def assemble (e : Endpoint) (summary path : Value) (queryFields pathFields : List Value) :
    Checked Endpoint :=
  open Check in
  (fun summary path query fields =>
      { e with summary := summary, path := path, queryFields := query, pathFields := fields })
    <$> Checked.under (.field "summary") (optional string summary)
    <*> Checked.under (.field "path") (string path)
    <*> Checked.under (.field "query_fields") (Checked.eachFrom string 0 queryFields)
    <*> Checked.under (.field "path_fields") (Checked.eachFrom string 0 pathFields)

/-- The endpoint of an operation, its export name still open. -/
def build (document : Value) (path : Scalar) (method : Method)
    (pathItem operation : List (Scalar × Value)) : Outcome Endpoint := do
  let scope ← scopeOfTags (Value.field operation "tags")
  let parameters ← mergeParameters document
    (← parameterList (Value.field pathItem "parameters"))
    (← parameterList (Value.field operation "parameters"))
  let ofPath := parameters.filter (·.isIn "path")
  let ofQuery := parameters.filter (·.isIn "query")
  let requestBody := Value.field operation "requestBody"
  let schema ← bodySchema document requestBody
  let hasBody := !requestBody.isNull
  let given := Value.field operation "operationId"
  let id ←
    if given.isSet then Outcome.expect given.str?
    else fallbackName method <$> Outcome.expect path.str?
  let name := operationNameOf id method.name scope
  let slots ← (ofPath ++ ofQuery).mapM fun p => typeText p.schema
  let bodyType ← if hasBody then some <$> typeText schema else pure none
  let slots := slots ++ bodyType.toList
  let shape ←
    if slots.length < 2 then pure none else some <$> inputShapeText ofPath ofQuery bodyType
  let inputType := match slots with
    | [] => "void"
    | [t] => t
    | _ => Naming.pascal name ++ "Input"
  let output ← responseType document (Value.field operation "responses")
  let e : Endpoint := {
    scope, operationName := name, method := method.name, path := ""
    inputTypeName := inputType, inputShape := shape, outputTypeName := output
    requestBodyField := if hasBody then some "body" else none
    supportsQuery := method = .get, supportsMutation := method ≠ .get
    deprecated := (Value.field operation "deprecated").isSet }
  (assemble e (Value.field operation "summary") (.scalar path)
    (ofQuery.map fun p => .scalar p.name) (ofPath.map fun p => .scalar p.name)).toOutcome

/-- The operations of a path item, in the order of methods. -/
def operations (pathItem : List (Scalar × Value)) : List (Method × List (Scalar × Value)) :=
  Method.all.filterMap fun method =>
    ((Value.field pathItem method.key).entries?).map fun operation => (method, operation)

/-- The endpoints of one path. -/
def ofPathItem (document : Value) (path : Scalar) (item : Value) : Outcome (List Endpoint) := do
  match ← Reference.deref document item with
  | .map m =>
    (operations m).mapM fun (method, operation) => build document path method m operation
  | _ => return []

/-- The endpoints of a document, paths in order, their export names unique. -/
def ofDocument (document : Value) : Outcome Api := do
  let root ← Outcome.expect document.entries?
  let paths ← match Value.field root "paths" with
    | .map m => pure m
    | _ => .fail (.missingField "paths")
  let endpoints ← (← Scalar.sortOn (·.1) paths).mapM fun p => ofPathItem document p.1 p.2
  let endpoints := endpoints.flatten
  if endpoints.isEmpty then Outcome.fail .noOperations
  let info := Value.field root "info"
  let title ←
    if info.isSet then (Value.field · "title") <$> Outcome.expect info.entries? else pure .null
  let name ← (if title.isSet then
      Checked.under (.field "package_name") (Check.string title) else pure "generated").toOutcome
  return { project := { packageName := name }, endpoints := nameAll endpoints }

end Endpoint
end ApiScribe
