import ApiScribe.Config

/-! Endpoints: one per path and method that a document declares an operation for. They hold names
and fields only, nothing of any output dialect. -/
namespace ApiScribe

/-- The methods that operations are read for, in reading order. -/
inductive Method
  | get
  | post
  | put
  | patch
  | delete
  deriving Repr, DecidableEq

namespace Method

/-- The name of a method in requests. -/
def name : Method → String
  | get => "GET"
  | post => "POST"
  | put => "PUT"
  | patch => "PATCH"
  | delete => "DELETE"

/-- The key of a method in a path item. -/
def key : Method → String
  | get => "get"
  | post => "post"
  | put => "put"
  | patch => "patch"
  | delete => "delete"

/-- All methods in reading order. -/
def all : List Method := [get, post, put, patch, delete]

end Method

/-- What is known of the project as a whole. -/
structure Project where
  packageName : String := "generated"
  apiBasePath : Option String := none
  terminals : List String := []
  retryOwnership : Option String := none
  deriving Repr, DecidableEq, Inhabited

/-- One operation. `scope` holds the segments of its tag. With several input slots `inputShape` is
the object type of the input, and `inputTypeName` only a name to show. `flags` holds marks that
passes set. -/
structure Endpoint where
  scope : List String := ["default"]
  operationName : String
  exportName : String := ""
  builderName : String := ""
  summary : Option String := none
  method : String
  path : String
  inputTypeName : String := "void"
  inputShape : Option String := none
  outputTypeName : String := "void"
  requestBodyField : Option String := none
  queryFields : List String := []
  pathFields : List String := []
  hasRequestOptions : Bool := true
  supportsQuery : Bool := false
  supportsMutation : Bool := true
  deprecated : Bool := false
  flags : Entries String String := []
  deriving Repr, DecidableEq, Inhabited

/-- The endpoints of a document with the settings that rendering needs. -/
structure Api where
  project : Project := {}
  endpoints : List Endpoint := []
  modelImport : Option ModelImport := none
  clientImport : Option ClientImport := none
  outputRoot : Option String := none
  deriving Repr, DecidableEq, Inhabited

/-- The number of values that the caller of an endpoint passes. -/
def Endpoint.inputSlots (e : Endpoint) : Nat :=
  e.pathFields.length + e.queryFields.length + (if e.requestBodyField.any (· ≠ "") then 1 else 0)

open Check

/-- The record form of a project. -/
def Project.toValue (p : Project) : Value :=
  .record [("package_name", .str p.packageName), ("api_base_path", .ofString? p.apiBasePath),
    ("terminals", .ofStrings p.terminals), ("retry_ownership", .ofString? p.retryOwnership)]

/-- Reads a project. -/
def Project.check : Check Project := record fun m =>
  Project.mk <$> fieldOr m "package_name" "generated" string
    <*> field? m "api_base_path" string
    <*> fieldOr m "terminals" [] (list string)
    <*> field? m "retry_ownership" string

/-- The record form of an endpoint. -/
def Endpoint.toValue (e : Endpoint) : Value :=
  .record [("namespace", .ofStrings e.scope), ("operation_name", .str e.operationName),
    ("export_name", .str e.exportName), ("builder_name", .str e.builderName),
    ("summary", .ofString? e.summary), ("method", .str e.method), ("path", .str e.path),
    ("input_type_name", .str e.inputTypeName), ("input_shape", .ofString? e.inputShape),
    ("output_type_name", .str e.outputTypeName),
    ("request_body_field", .ofString? e.requestBodyField),
    ("query_fields", .ofStrings e.queryFields), ("path_fields", .ofStrings e.pathFields),
    ("has_request_options", .bool e.hasRequestOptions),
    ("supports_query", .bool e.supportsQuery), ("supports_mutation", .bool e.supportsMutation),
    ("deprecated", .bool e.deprecated),
    ("meta", .record (e.flags.map fun p => (p.1, .str p.2)))]

/-- Reads an endpoint. -/
def Endpoint.check : Check Endpoint := record fun m =>
  Endpoint.mk <$> fieldOr m "namespace" ["default"] (list string)
    <*> field m "operation_name" string
    <*> fieldOr m "export_name" "" string
    <*> fieldOr m "builder_name" "" string
    <*> field? m "summary" string
    <*> field m "method" string
    <*> field m "path" string
    <*> fieldOr m "input_type_name" "void" string
    <*> field? m "input_shape" string
    <*> fieldOr m "output_type_name" "void" string
    <*> field? m "request_body_field" string
    <*> fieldOr m "query_fields" [] (list string)
    <*> fieldOr m "path_fields" [] (list string)
    <*> fieldOr m "has_request_options" true bool
    <*> fieldOr m "supports_query" false bool
    <*> fieldOr m "supports_mutation" true bool
    <*> fieldOr m "deprecated" false bool
    <*> fieldOr m "meta" [] textMap

/-- The record form of the endpoints of a document. -/
def Api.toValue (a : Api) : Value :=
  .record [("project", a.project.toValue), ("endpoints", .list (a.endpoints.map Endpoint.toValue)),
    ("model_import", (a.modelImport.map ModelImport.toValue).getD .null),
    ("client_import", (a.clientImport.map ClientImport.toValue).getD .null),
    ("output_root", .ofString? a.outputRoot)]

/-- Reads the endpoints of a document. -/
def Api.check : Check Api := record fun m =>
  Api.mk <$> fieldOr m "project" {} Project.check
    <*> fieldOr m "endpoints" [] (list Endpoint.check)
    <*> field? m "model_import" ModelImport.check
    <*> field? m "client_import" ClientImport.check
    <*> field? m "output_root" string

end ApiScribe
