import ApiScribe.Naming
import ApiScribe.Render.Builder

/-! Service classes: endpoints grouped by the first segment of their scope, one class a group and
one method an endpoint. The two styles of class differ in how a method passes its arguments on. -/
namespace ApiScribe
namespace Render

/-- The group of an endpoint. -/
def groupOf (e : Endpoint) : String := e.scope.headD "default"

/-- Endpoints by group, groups in sorted order. -/
def groups (es : List Endpoint) : Entries String (List Endpoint) :=
  let grouped : Entries String (List Endpoint) := es.foldl (fun m e => m.push (groupOf e) e) []
  grouped.mergeSort fun a b => decide (a.1 ≤ b.1)

/-- A text, or another in place of an empty one. -/
def nonEmptyOr (default text : String) : String := if text = "" then default else text

/-- The class of a group. -/
def className (group : String) : String :=
  nonEmptyOr "Default" (Naming.pascal group) ++ "Service"

/-- How a method passes arguments on. `positional` calls have a place for the body if the method
takes one, filled with `null` if the endpoint has none; `compact` calls pass what there is. -/
inductive CallStyle
  | positional
  | compact
  deriving Repr, DecidableEq

/-- The methods that take a body. -/
def bodyMethods : List String := ["post", "put", "patch"]

/-- The query fields as settings of a call. -/
def callSettings? (e : Endpoint) : Option String :=
  (e.query? false).map fun q => "\x7b params: " ++ q ++ " \x7d"

/-- The arguments of a call. -/
def callArguments (style : CallStyle) (e : Endpoint) : List String :=
  let url := e.url false
  let settings := (callSettings? e).toList
  match style with
  | .compact => url :: (e.body? false).toList ++ settings
  | .positional =>
    if bodyMethods.contains (Text.lower e.method) then
      let body := if settings.isEmpty then (e.body? false).toList
        else [nonEmptyOr "null" ((e.body? false).getD "")]
      url :: body ++ settings
    else url :: settings

/-- The call that a method returns. -/
def serviceCall (style : CallStyle) (e : Endpoint) : String :=
  "this." ++ Text.lower e.method ++ "<" ++ e.outputType ++ ">("
    ++ ", ".intercalate (callArguments style e) ++ ")"

/-- The lines of a method. -/
def methodLines (style : CallStyle) (name : String) (e : Endpoint) : List String :=
  let summary := commentText e.summary
  (if summary = "" then [] else ["  /** " ++ summary ++ " */"])
    ++ ["  " ++ name ++ "(" ++ signature e ++ ") \x7b",
        "    return " ++ serviceCall style e ++ ";",
        "  \x7d"]

/-- The names of the methods of a class, each different from those before. -/
def methodNames (es : List Endpoint) : List String :=
  (Naming.uniqueNames [] (es.map fun e => nonEmptyOr "Call" (Naming.pascal e.operationName))).1

/-- Methods with blank lines between them. -/
def methodsLines (style : CallStyle) (named : List (String × Endpoint)) : List String :=
  [""].intercalate (named.map fun p => methodLines style p.1 p.2)

/-- The lines of a class. -/
def classLines (style : CallStyle) (group : String) (es : List Endpoint) (modelBase : String)
    (package : Bool) : List String :=
  [importOf "singleton" "tsyringe", importOf "BaseService" "./BaseService"]
    ++ TypeText.importLines (es.flatMap Endpoint.mentionedTypes) modelBase package
    ++ ["", "@singleton()", "export class " ++ className group ++ " extends BaseService \x7b"]
    ++ methodsLines style ((methodNames es).zip es)
    ++ ["\x7d"]

/-- The file of a group. -/
def classFile (style : CallStyle) (a : Api) (group : String) (es : List Endpoint) : PlannedFile :=
  let path := className group ++ ".ts"
  ⟨path, fileText (classLines style group es (a.modelBase path) (Import.fromPackage a.modelImport))⟩

/-- The classes of all groups. -/
def services (style : CallStyle) (a : Api) : RenderOutput :=
  ⟨(groups a.endpoints).map fun g => classFile style a g.1 g.2, []⟩

end Render
end ApiScribe
