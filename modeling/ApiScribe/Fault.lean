import ApiScribe.Value

/-! What can go wrong. A fault is a cause that the tool reports in words, each of a kind with an
exit code of its own. Besides faults a run can fail because a record does not have the declared
shape, or because a value is of a kind that no rule covers. -/
namespace ApiScribe

/-- The kinds of faults. -/
inductive FaultKind
  | general
  | usage
  | structural
  | missingField
  | validation
  | write
  | network
  | format
  | schemaShape
  | documentLoad
  | renderer
  | config
  deriving Repr, DecidableEq

namespace FaultKind

/-- The process exit code of a kind. -/
def exitCode : FaultKind → Nat
  | general => 1
  | usage => 2
  | structural => 3
  | missingField => 3
  | validation => 4
  | write => 5
  | network => 6
  | format => 7
  | schemaShape => 8
  | documentLoad => 9
  | renderer => 10
  | config => 1

/-- The next wider kind. -/
def parent? : FaultKind → Option FaultKind
  | general => none
  | missingField => some structural
  | _ => some general

/-- A kind and all wider ones, narrowest first. -/
def lineage (k : FaultKind) : List FaultKind :=
  match k.parent? with
  | none => [k]
  | some p => k :: match p.parent? with
    | none => [p]
    | some q => [p, q]

end FaultKind

/-- A step into a value: a field of a record or an index of a list. -/
inductive Place
  | field (name : String)
  | index (i : Nat)
  deriving Repr, DecidableEq

/-- How a value can miss its declared shape. -/
inductive Mismatch
  | missing
  | extraForbidden
  | stringType
  | stringUnicode
  | listType
  | dictType
  | modelType
  | modelAttributesType
  | enumMember
  | boolType
  | boolParsing
  | intType
  | intParsing
  | intParsingSize
  | intFromFloat
  | finiteNumber
  | floatType
  | floatParsing
  | greaterThan
  | greaterThanEqual
  | literal
  | tagInvalid
  | tagMissing
  deriving Repr, DecidableEq

/-- The name of a mismatch in reports. -/
def Mismatch.name : Mismatch → String
  | missing => "missing"
  | extraForbidden => "extra_forbidden"
  | stringType => "string_type"
  | stringUnicode => "string_unicode"
  | listType => "list_type"
  | dictType => "dict_type"
  | modelType => "model_type"
  | modelAttributesType => "model_attributes_type"
  | enumMember => "enum"
  | boolType => "bool_type"
  | boolParsing => "bool_parsing"
  | intType => "int_type"
  | intParsing => "int_parsing"
  | intParsingSize => "int_parsing_size"
  | intFromFloat => "int_from_float"
  | finiteNumber => "finite_number"
  | floatType => "float_type"
  | floatParsing => "float_parsing"
  | greaterThan => "greater_than"
  | greaterThanEqual => "greater_than_equal"
  | literal => "literal_error"
  | tagInvalid => "union_tag_invalid"
  | tagMissing => "union_tag_not_found"

/-- A mismatch and where it is. -/
structure Issue where
  path : List Place
  mismatch : Mismatch
  deriving Repr, DecidableEq

/-- The issue one step further out. -/
def Issue.under (p : Place) (i : Issue) : Issue := ⟨p :: i.path, i.mismatch⟩

/-- The causes of the faults that the tool reports. -/
inductive Fault
  | emptyFormatter
  | unknownPass (name : String) (available : List String)
  | sharedSlot (first second slot : String)
  | noInput
  | notADirectory (path : String)
  | noBaseUrl
  | settingsExist (path : String)
  | externalReference (ref : String)
  | danglingReference (ref segment : String)
  | missingField (field : String)
  | noOperations
  | emptyOperationName (method path : String)
  | unknownOption (label value : String) (expected : List String)
  | invalidPatches (path model : String) (issues : List Issue)
  | patchesOfKind (path kind : String)
  | write (path detail : String)
  | network (url detail : String)
  | formatterMissing (command : String)
  | formatterTimeout (path : String)
  | formatterFailed (path detail : String)
  | schemaNotObject (name : String)
  | propertiesNotObject (owner : String)
  | propertyNotObject (owner key : String)
  | shapeNotObject (place : String)
  | unsupportedType (place shown : String)
  | fileNotFound (path : String)
  | invalidJsonFile (path detail : String)
  | emptyStdin
  | httpStatus (status : Nat) (url : String)
  | fetchFailed (url detail : String)
  | documentNotFound (path : String)
  | documentEmpty (path : String)
  | invalidJson (detail : String)
  | undecodable (jsonError : Option String)
  | notAMapping (kind : String)
  | unknownRenderer (id : String) (available : List String)
  | conflictingFiles (first second path : String)
  | invalidConfigJson (path detail : String)
  | invalidConfig (path : String) (issues : List Issue)
  deriving Repr, DecidableEq

namespace Fault

/-- The kind of a fault. -/
def kind : Fault → FaultKind
  | emptyFormatter | unknownPass .. | sharedSlot .. | noInput | notADirectory _ | noBaseUrl
  | settingsExist _ => .usage
  | externalReference _ | danglingReference .. => .structural
  | missingField _ | noOperations => .missingField
  | emptyOperationName .. | unknownOption .. | invalidPatches .. | patchesOfKind .. => .validation
  | write .. => .write
  | network .. => .network
  | formatterMissing _ | formatterTimeout _ | formatterFailed .. => .format
  | schemaNotObject _ | propertiesNotObject _ | propertyNotObject .. | shapeNotObject _
  | unsupportedType .. => .schemaShape
  | fileNotFound _ | invalidJsonFile .. | emptyStdin | httpStatus .. | fetchFailed ..
  | documentNotFound _ | documentEmpty _ | invalidJson _ | undecodable _ | notAMapping _ =>
    .documentLoad
  | unknownRenderer .. | conflictingFiles .. => .renderer
  | invalidConfigJson .. | invalidConfig .. => .config

/-- The process exit code of a fault. -/
def exitCode (f : Fault) : Nat := f.kind.exitCode

/-- The head line of a report of issues. -/
def issueCount (n : Nat) (model : String) : String :=
  toString n ++ (if n = 1 then " validation error for " else " validation errors for ") ++ model

/-- Ids in a list, or the word for an empty one. -/
def listed (ids : List String) : String := if ids.isEmpty then "none" else ", ".intercalate ids

/-- The wording of a fault. -/
def message : Fault → String
  | emptyFormatter => "--formatter must not be empty"
  | unknownPass name available =>
    "Unknown transform pass '" ++ name ++ "'. Available: " ++ ", ".intercalate available
  | sharedSlot first second slot =>
    "Renderers '" ++ first ++ "' and '" ++ second ++ "' write the same files (" ++ slot
      ++ "); select only one of them"
  | noInput =>
    "No input document. Pass --input, set CLIENTGEN_INPUT, or add 'input' to clientgen.json"
  | notADirectory path => "Not a directory: " ++ path
  | noBaseUrl => "A base URL is required to fetch enum values (--base-url)"
  | settingsExist path => path ++ " already exists (use --force to overwrite)"
  | externalReference ref => "External $ref not supported: " ++ ref
  | danglingReference ref segment =>
    "Cannot resolve $ref '" ++ ref ++ "': '" ++ segment ++ "' not found"
  | missingField field => "Missing required field: " ++ field
  | noOperations => "Document declares no operations"
  | emptyOperationName method path =>
    "operation_name is empty for endpoint " ++ method ++ " " ++ path
  | unknownOption label value expected =>
    "Unknown " ++ label ++ " '" ++ value ++ "', expected " ++ "|".intercalate expected
  | invalidPatches path model issues =>
    "Invalid enum patch document " ++ path ++ ": " ++ issueCount issues.length model
  | patchesOfKind path kind =>
    "Invalid enum patch document " ++ path ++ ": expected an object or an array, got " ++ kind
  | write path detail => path ++ ": " ++ detail
  | network url detail => "failed to fetch enum values from " ++ url ++ ": " ++ detail
  | formatterMissing command => "Formatter not found: " ++ command
  | formatterTimeout path => "Formatter timed out on " ++ path
  | formatterFailed path detail => "Formatter failed on " ++ path ++ ": " ++ detail
  | schemaNotObject name => "Schema '" ++ name ++ "' is not an object"
  | propertiesNotObject owner => "Schema '" ++ owner ++ "' has a non-object 'properties' value"
  | propertyNotObject owner key => "Property '" ++ owner ++ "." ++ key ++ "' is not an object"
  | shapeNotObject place => place ++ ": schema is not an object"
  | unsupportedType place shown => place ++ ": unsupported schema type " ++ shown
  | fileNotFound path => "File not found: " ++ path
  | invalidJsonFile path detail => "Invalid JSON in " ++ path ++ ": " ++ detail
  | emptyStdin => "No input received from stdin"
  | httpStatus status url => "HTTP " ++ toString status ++ " fetching document from " ++ url
  | fetchFailed url detail => "Failed to fetch document from " ++ url ++ ": " ++ detail
  | documentNotFound path => "Document not found: " ++ path
  | documentEmpty path => "Document is empty: " ++ path
  | invalidJson detail => "Invalid JSON: " ++ detail
  | undecodable jsonError =>
    "Failed to parse document as JSON or YAML"
      ++ (match jsonError with
          | some e => "\n  JSON error: " ++ e
          | none => "")
      ++ "\n  YAML error:"
  | notAMapping kind => "Document must be a JSON/YAML object (got " ++ kind ++ ")"
  | unknownRenderer id available =>
    "Unknown renderer '" ++ id ++ "'. Available: " ++ listed available
  | conflictingFiles first second path =>
    "Renderers '" ++ first ++ "' and '" ++ second ++ "' produced different content for " ++ path
  | invalidConfigJson path detail => "Invalid JSON in project config at " ++ path ++ ": " ++ detail
  | invalidConfig path issues =>
    "Invalid project config at " ++ path ++ ": " ++ issueCount issues.length "CodegenConfig"

/-- The issues that a fault is about, if it is about issues. -/
def issues? : Fault → Option (List Issue)
  | invalidPatches _ _ issues => some issues
  | invalidConfig _ issues => some issues
  | _ => none

end Fault

/-- The ways in which an operation can fail. -/
inductive Failure
  /-- A fault reported in words. -/
  | fault (f : Fault)
  /-- A value that lacks its declared shape. -/
  | invalid (issues : List Issue)
  /-- A value of a kind that no rule covers. -/
  | unexpected
  deriving Repr, DecidableEq

/-- The outcome of an operation that can fail. -/
abbrev Outcome (α : Type) := Except Failure α

/-- Fails with a fault. -/
def Outcome.fail {α : Type} (f : Fault) : Outcome α := .error (.fault f)

/-- Fails because no rule covers a value. -/
def Outcome.unexpected {α : Type} : Outcome α := .error .unexpected

/-- The value, or failure because no rule covers its absence. -/
def Outcome.expect {α : Type} : Option α → Outcome α
  | some a => .ok a
  | none => .error .unexpected

end ApiScribe
