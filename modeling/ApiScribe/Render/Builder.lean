import ApiScribe.Import
import ApiScribe.Plan
import ApiScribe.Request

/-! Request builders: for every endpoint a module with one function, which turns the argument into
a plain description of the request. -/
namespace ApiScribe
namespace Render

/-- A file's text: every line ends with a line feed. -/
def fileText (lines : List String) : String := String.join (lines.map (· ++ "\n"))

/-- The argument in the head of a generated function. -/
def signature (e : Endpoint) : String := if e.hasInput then "input: " ++ e.inputType else ""

/-- An import of one name. -/
def importOf (name source : String) : String :=
  "import \x7b " ++ name ++ " \x7d from \"" ++ source ++ "\";"

/-- The path of the builder of an endpoint. -/
def builderPath (e : Endpoint) (stem : String) : String :=
  e.filePath "spec/endpoints" stem ".ts"

/-- A line for a field that is there and not empty. -/
def fieldLine (name : String) (value : Option String) : List String :=
  match value with
  | some v => if v = "" then [] else ["    " ++ name ++ ": " ++ v ++ ","]
  | none => []

theorem mem_fieldLine {name line : String} {value : Option String} :
    line ∈ fieldLine name value ↔
      ∃ v, value = some v ∧ v ≠ "" ∧ line = "    " ++ name ++ ": " ++ v ++ "," := by
  cases value with
  | none => simp [fieldLine]
  | some v => by_cases hv : v = "" <;> simp [fieldLine, hv]

/-- The lines of the builder of an endpoint. -/
def builderLines (e : Endpoint) (modelBase : String) (package : Bool) : List String :=
  let imports := TypeText.importLines (if e.hasInput then [e.inputType] else []) modelBase package
  imports ++ (if imports.isEmpty then [] else [""])
    ++ ["export function " ++ e.builderName ++ "(" ++ signature e ++ ") \x7b",
        "  return \x7b",
        "    method: \"" ++ e.method ++ "\",",
        "    path: " ++ e.url false ++ ","]
    ++ fieldLine "query" (e.query? false)
    ++ fieldLine "body" (if e.hasInput then e.body? false else none)
    ++ ["  \x7d;", "\x7d"]

/-- The builder of an endpoint. -/
def builderFile (a : Api) (e : Endpoint) (path : String) : PlannedFile :=
  ⟨path, fileText (builderLines e (a.modelBase path) (Import.fromPackage a.modelImport))⟩

/-- The source of the builder in another file of the same run. -/
def builderSource (importing path : String) : String := (Import.relative? importing path).getD "./"

/-- The arguments of a call to the builder. -/
def builderArguments (e : Endpoint) : String := if e.hasInput then "input" else ""

end Render
end ApiScribe
