import ApiScribe.Endpoint
import ApiScribe.Fault
import ApiScribe.Text.LowerCase
import ApiScribe.Text.Search
import ApiScribe.Text.Character

/-! Passes over endpoints. Normalizing puts them in order and checks them; the other passes encode
rules of a business, each as a flag that renderers read. A pass that fails keeps what it did up to
the endpoint that it stopped at. -/
namespace ApiScribe

/-- The passes. -/
inductive Pass
  | normalize
  | classifyQueries
  | markRefreshToken
  deriving Repr, DecidableEq

namespace Pass

/-- The name that users write. -/
def name : Pass → String
  | normalize => "normalize-endpoint"
  | classifyQueries => "query-classification"
  | markRefreshToken => "refresh-token-meta"

/-- All passes. -/
def all : List Pass := [normalize, classifyQueries, markRefreshToken]

/-- The pass with a name. -/
def ofName (name : String) : Outcome Pass :=
  match all.find? (·.name = name) with
  | some p => .ok p
  | none => .fail (.unknownPass name ((all.map Pass.name).mergeSort fun a b => decide (a ≤ b)))

end Pass

namespace Endpoint

/-- The flag of endpoints that are no plain reads but count as queries. -/
def queryFlag : String := "__supports_query"

/-- The flag of endpoints whose calls must not refresh the authorization. -/
def skipRefreshFlag : String := "skipAuthRefresh"

/-- Whether a flag is set; one that is absent is not. -/
def isFlagged (flags : Entries String String) (key : String) : Bool :=
  Text.lower ((flags.get? key).getD "false") == "true"

/-- The canonical order: by path, then method, then operation name. -/
def precedes (a b : Endpoint) : Bool :=
  if a.path ≠ b.path then decide (a.path ≤ b.path)
  else if a.method ≠ b.method then decide (a.method ≤ b.method)
  else decide (a.operationName ≤ b.operationName)

/-- The scope that an endpoint without one has. -/
def withScope (e : Endpoint) : Endpoint :=
  if e.scope.isEmpty then { e with scope := ["default"] } else e

/-- What an endpoint can do by its method: a read is a query and no mutation. -/
def withCapabilities (e : Endpoint) : Endpoint :=
  if e.method = Method.get.name then { e with supportsQuery := true, supportsMutation := false }
  else { e with supportsMutation := true }

/-- Checks and completes endpoints one by one, up to the first without an operation name. -/
def normalizeEach : List Endpoint → List Endpoint × Option Fault
  | [] => ([], none)
  | e :: es =>
    let e := e.withScope
    if Text.blank e.operationName then (e :: es, some (.emptyOperationName e.method e.path))
    else
      let (rest, fault) := normalizeEach es
      (e.withCapabilities :: rest, fault)

/-- The verbs that start the names of reads. -/
def readVerbs : List String := ["get", "query", "search", "fetch", "find", "list"]

/-- Whether a name is a verb of reading followed by a capital letter. -/
def isReadName (name : String) : Bool :=
  readVerbs.any fun verb =>
    match Text.after? verb.toList name.toList with
    | some (c :: _) => c.isUpper
    | _ => false

/-- Counts posts with the name of a read as queries. -/
def classifyQuery (e : Endpoint) : Endpoint :=
  if e.method = Method.post.name && isReadName e.operationName then
    { e with supportsQuery := true, flags := e.flags.put queryFlag "true" }
  else e

/-- Whether the name or the path of an endpoint says that it refreshes a token. -/
def refreshesToken (e : Endpoint) : Bool :=
  Text.endsWith "refreshtoken".toList (Text.lower e.operationName).toList
    || Text.endsWith "/refreshtoken".toList (Text.lower e.path).toList

/-- Flags endpoints that refresh a token. -/
def markRefreshToken (e : Endpoint) : Endpoint :=
  if e.refreshesToken then { e with flags := e.flags.put skipRefreshFlag "true" } else e

end Endpoint

namespace Pass

/-- What a pass makes of endpoints, and the fault at which it stopped, if it did. -/
def apply : Pass → List Endpoint → List Endpoint × Option Fault
  | normalize, es => Endpoint.normalizeEach (es.mergeSort Endpoint.precedes)
  | classifyQueries, es => (es.map Endpoint.classifyQuery, none)
  | markRefreshToken, es => (es.map Endpoint.markRefreshToken, none)

/-- Runs passes one after the other, up to the first that fails. -/
def applyAll : List Pass → List Endpoint → Outcome (List Endpoint)
  | [], es => .ok es
  | p :: ps, es =>
    match p.apply es with
    | (es, none) => applyAll ps es
    | (_, some f) => .fail f

end Pass
end ApiScribe
