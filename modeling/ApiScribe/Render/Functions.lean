import ApiScribe.Render.Builder

/-! Call functions: for every endpoint its request builder and a function that hands the built
request to the API client. -/
namespace ApiScribe
namespace Render

/-- The path of the call function of an endpoint. -/
def functionPath (e : Endpoint) (stem : String) : String :=
  e.filePath "functions/api" stem ".ts"

/-- The comment in front of a function, if there is something to say. -/
def functionComment (e : Endpoint) : List String :=
  let summary := commentText e.summary
  if summary = "" && !e.deprecated then []
  else ["/**"] ++ (if summary = "" then [] else [" * " ++ summary])
    ++ (if e.deprecated then [" * @deprecated"] else []) ++ [" */"]

/-- The lines of the call function of an endpoint. -/
def functionLines (e : Endpoint) (client : Import.Client) (builder modelBase : String)
    (package : Bool) : List String :=
  client.lines ++ [importOf e.builderName builder]
    ++ TypeText.importLines e.mentionedTypes modelBase package ++ [""] ++ functionComment e
    ++ ["export async function " ++ e.exportName ++ "("]
    ++ (if e.hasInput then ["  input: " ++ e.inputType ++ ","] else [])
    ++ ["  options?: PerCallOptions",
        "): Promise<" ++ e.outputType ++ "> \x7b",
        "  return " ++ client.call ++ ".execute<" ++ e.outputType ++ ">(" ++ e.builderName ++ "("
          ++ builderArguments e ++ "), " ++ e.callOptions ++ ");",
        "\x7d"]

/-- The call function of an endpoint. -/
def functionFile (a : Api) (e : Endpoint) (path builder : String) : PlannedFile :=
  ⟨path, fileText (functionLines e (Import.client a.clientImport) (builderSource path builder)
    (a.modelBase path) (Import.fromPackage a.modelImport))⟩

/-- The two files of an endpoint. -/
def functionFiles (a : Api) (e : Endpoint) : List PlannedFile :=
  let stem := Endpoint.stem a.endpoints e
  let builder := builderPath e stem
  [builderFile a e builder, functionFile a e (functionPath e stem) builder]

/-- Builders and call functions of all endpoints. -/
def functions (a : Api) : RenderOutput :=
  ⟨a.endpoints.flatMap (functionFiles a), a.endpoints.flatMap Endpoint.typeWarnings⟩

end Render
end ApiScribe

/-! One untyped script with a function for every endpoint, each making its request by itself. -/
namespace ApiScribe
namespace Render

/-- The settings of a request. -/
def requestSettings (e : Endpoint) : List String :=
  ["url: " ++ e.url true, "method: \"" ++ Text.lower e.method ++ "\""]
    ++ ((e.body? true).map ("data: " ++ ·)).toList
    ++ ((e.query? true).map ("params: " ++ ·)).toList

/-- The lines of a function, with a blank line in front. -/
def scriptFunction (e : Endpoint) : List String :=
  let summary := commentText e.summary
  [""] ++ (if summary = "" then [] else ["/** " ++ summary ++ " */"])
    ++ ["export function " ++ e.exportName ++ "(" ++ builderArguments e ++ ") \x7b",
        "  return axios.request(\x7b",
        "    " ++ ",\n    ".intercalate (requestSettings e),
        "  \x7d);",
        "\x7d"]

/-- The script of all endpoints. -/
def script (a : Api) : RenderOutput :=
  ⟨[⟨"index.js", fileText ("import axios from \"axios\";" :: a.endpoints.flatMap scriptFunction)⟩],
   []⟩

end Render
end ApiScribe
