import ApiScribe.Endpoint
import ApiScribe.Naming
import ApiScribe.Text.LowerCase
import ApiScribe.Text.Search

/-! Names of endpoints. The operation name is the document's operation id without the part that
repeats method and scope; export names are unique over all endpoints, and the builder name is
made from the export name. -/
namespace ApiScribe
namespace Endpoint

open Naming

/-- Identifiers that generated code must not use as names. -/
def reservedWords : List String :=
  ["delete", "default", "class", "function", "new", "return", "switch", "case", "var", "let",
   "const", "import"]

/-- A name that starts with a digit gets a word in front, and an empty one is replaced by it. -/
def normalizeName (name : String) : String :=
  if Text.blank name then "op"
  else if name.toList.head?.any Char.isDigit then "op" ++ pascal name
  else name

/-- A normalized name that is no reserved word. -/
def safeName (name : String) : String :=
  let name := normalizeName name
  if name ∈ reservedWords then "do" ++ pascal name else name

/-- The name of the last `count` segments of a scope. -/
def scopePrefix (scope : List String) (count : Nat) : String :=
  normalizeName (camel ("-".intercalate (scope.drop (scope.length - count))))

/-- The operation of an endpoint as a word in a name. -/
def action (e : Endpoint) : String := pascal (normalizeName (camel e.operationName))

/-- Names for an endpoint, best first: the last segment of its scope and its action, the last two
segments, also the method, also the path fields. -/
def nameCandidates (e : Endpoint) : List String :=
  let wide := scopePrefix e.scope 2 ++ e.action
  let withMethod := safeName (wide ++ pascal (Text.lower e.method))
  let withFields := safeName (withMethod ++ "By" ++ String.join (e.pathFields.map pascal))
  [safeName (scopePrefix e.scope 1 ++ e.action), safeName wide, withMethod]
    ++ (if e.pathFields.isEmpty then [] else [withFields])

/-- The first of `base_index`, `base_(index + 1)`, … that is not used; `fuel` bounds the search. -/
def firstSerial (used : List String) (base : String) : Nat → Nat → String
  | 0, index => base ++ "_" ++ toString index
  | fuel + 1, index =>
    let candidate := base ++ "_" ++ toString index
    if candidate ∈ used then firstSerial used base fuel (index + 1) else candidate

/-- The first candidate that is not used, or the last one with a serial number. -/
def chooseName (used : List String) : List String → String
  | [] => firstSerial used "" used.length 2
  | [name] => if name ∈ used then firstSerial used name used.length 2 else name
  | name :: names => if name ∈ used then chooseName used names else name

/-- An endpoint with an export name and the builder name that belongs to it. -/
def withName (e : Endpoint) (name : String) : Endpoint :=
  { e with exportName := name, builderName := "build" ++ pascal name ++ "Spec" }

/-- Names endpoint after endpoint, each name used from then on. -/
def nameFrom (used : List String) : List Endpoint → List Endpoint
  | [] => []
  | e :: es =>
    let name := chooseName used e.nameCandidates
    e.withName name :: nameFrom (name :: used) es

/-- The endpoints with unique export names. -/
def nameAll (es : List Endpoint) : List Endpoint := nameFrom [] es

/-- The part of an operation id after the method, a fixed word and the scope, in camel case; an id
that does not start so is kept whole, and so is one with nothing after that start. -/
def operationNameOf (id method : String) (scope : List String) : String :=
  let scopeName := String.join (scope.map pascal)
  let start := pascal (Text.lower method) ++ "MainAPI" ++ scopeName
  let short :=
    if scopeName = "" then id
    else ((Text.after? start.toList id.toList).map String.ofList).getD id
  if Text.blank short then camel id else camel short

end Endpoint
end ApiScribe
