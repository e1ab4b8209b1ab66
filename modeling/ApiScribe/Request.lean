import ApiScribe.Endpoint.Pass
import ApiScribe.Json.Quoted
import ApiScribe.TypeText

/-! The parts of a request in generated code. A generated function takes one argument, `input`. If
an endpoint has a single slot the argument is its value; if it has several the argument is an
object with a field for each. -/
namespace ApiScribe
namespace Endpoint

/-- Whether the generated function takes an argument. -/
def hasInput (e : Endpoint) : Bool := Text.trimmed e.inputTypeName ≠ "void"

/-- The declared type of the argument before it is checked. -/
def declaredInput (e : Endpoint) : String :=
  match e.inputShape with
  | some shape => if shape = "" then e.inputTypeName else shape
  | none => e.inputTypeName

/-- The type of the argument. -/
def inputType (e : Endpoint) : String := TypeText.normalize e.declaredInput

/-- The type of the result. -/
def outputType (e : Endpoint) : String := TypeText.normalize e.outputTypeName

/-- The types that a file mentions that takes the argument and gives the result. -/
def mentionedTypes (e : Endpoint) : List String :=
  if e.hasInput then [e.inputType, e.outputType] else [e.outputType]

/-- The expression for a field of the argument. With `guarded` the argument may be absent. -/
def accessor (e : Endpoint) (field : String) (guarded : Bool) : String :=
  if e.inputSlots = 1 then "input"
  else if TypeText.isIdentifier field then "input" ++ (if guarded then "?." else ".") ++ field
  else "input" ++ (if guarded then "?.[" else "[") ++ Json.quoted field ++ "]"

/-- The mark of a field in a path. -/
def placeholder (field : String) : String := "\x7b" ++ field ++ "\x7d"

/-- The path with the mark of a field replaced by a substitution. -/
def substitute (e : Endpoint) (guarded : Bool) (path field : String) : String :=
  Text.replaceString (placeholder field) ("$" ++ placeholder (e.accessor field guarded)) path

/-- The path as a literal: a template with substitutions if it has path fields. -/
def url (e : Endpoint) (guarded : Bool) : String :=
  if e.pathFields.isEmpty || !e.hasInput then Json.quoted e.path
  else
    let path := Text.replaceString "\x60" "\\\x60" e.path
    "\x60" ++ e.pathFields.foldl (e.substitute guarded) path ++ "\x60"

/-- A field as the key of an object. -/
def objectKey (field : String) : String :=
  if TypeText.isIdentifier field then field else Json.quoted field

/-- The object of the query fields, if there are any. -/
def query? (e : Endpoint) (guarded : Bool) : Option String :=
  if e.queryFields.isEmpty || !e.hasInput then none
  else
    let pairs := e.queryFields.map fun f => objectKey f ++ ": " ++ e.accessor f guarded
    some ("\x7b " ++ ", ".intercalate pairs ++ " \x7d")

/-- The expression for the body, if there is one. -/
def body? (e : Endpoint) (guarded : Bool) : Option String :=
  e.requestBodyField.map fun f => if e.hasInput then e.accessor f guarded else "undefined"

/-- The expression for the options of a call. -/
def callOptions (e : Endpoint) : String :=
  if isFlagged e.flags skipRefreshFlag then "\x7b ...options, skipAuthRefresh: true \x7d"
  else "options"

/-- The warning for one of the types, if it cannot stand as a type. -/
def typeWarning? (e : Endpoint) (label type : String) : Option String :=
  let trimmed := Text.trimmed type
  if trimmed ≠ "" && trimmed ≠ "unknown" && TypeText.normalize type = "unknown" then
    some (e.method ++ " " ++ e.path ++ ": " ++ label ++ " type '" ++ type
      ++ "' is not a valid TypeScript type, using 'unknown'")
  else none

/-- The warnings for types that are replaced by `unknown`. -/
def typeWarnings (e : Endpoint) : List String :=
  (e.typeWarning? "input" e.declaredInput).toList
    ++ (e.typeWarning? "output" e.outputTypeName).toList

/-- Whether an endpoint shares its operation name with another of its scope. -/
def sharesName (es : List Endpoint) (e : Endpoint) : Bool :=
  es.countP (fun f => f.scope == e.scope && f.operationName == e.operationName) != 1

/-- The name of the files of an endpoint: its operation name, or its export name if it shares the
operation name. -/
def ownStem (es : List Endpoint) (e : Endpoint) : String :=
  if sharesName es e then e.exportName else e.operationName

/-- The file names of endpoints by method and path. -/
def stems (es : List Endpoint) : Entries (String × String) String :=
  .ofList (es.map fun e => ((e.method, e.path), ownStem es e))

/-- The file name of one of the endpoints. -/
def stem (es : List Endpoint) (e : Endpoint) : String :=
  ((stems es).get? (e.method, e.path)).getD e.operationName

/-- A file name, or the operation name in place of an empty one. -/
def stemOr (e : Endpoint) (stem : String) : String :=
  if stem = "" then e.operationName else stem

/-- The path of a file of an endpoint below a directory. -/
def filePath (e : Endpoint) (top stem ending : String) : String :=
  top ++ "/" ++ "/".intercalate e.scope ++ "/" ++ e.stemOr stem ++ ending

end Endpoint

/-- A text on one line that can stand inside a comment. -/
def commentText (text : Option String) : String :=
  let words := (Text.words (text.getD "").toList).map String.ofList
  Text.replaceString "*/" "*\\/" (" ".intercalate words)

end ApiScribe
