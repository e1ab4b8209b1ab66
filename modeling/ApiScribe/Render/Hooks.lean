import ApiScribe.Naming
import ApiScribe.Render.Builder

/-! Hooks: for every endpoint that counts as a query a query hook, for every one that counts as a
mutation a mutation hook, and the request builder that they share. The libraries of hooks differ
only in names. -/
namespace ApiScribe
namespace Render

/-- A library of hooks. -/
structure HookLibrary where
  directory : String
  package : String
  queryFactory : String
  mutationFactory : String
  deriving Repr, DecidableEq

/-- The hooks for React. -/
def reactHooks : HookLibrary :=
  ⟨"react-query", "@aptx/react-query", "createReactQueryHooks", "createReactMutationHooks"⟩

/-- The hooks for Vue. -/
def vueHooks : HookLibrary :=
  ⟨"vue-query", "@aptx/vue-query", "createVueQueryHooks", "createVueMutationHooks"⟩

/-- The two kinds of hooks. -/
inductive HookKind
  | query
  | mutation
  deriving Repr, DecidableEq

namespace HookKind

/-- The word for a kind in names. -/
def word : HookKind → String
  | query => "Query"
  | mutation => "Mutation"

/-- The ending of the files of a kind. -/
def ending : HookKind → String
  | query => ".query.ts"
  | mutation => ".mutation.ts"

/-- The function of a library that makes hooks of a kind. -/
def factory (library : HookLibrary) : HookKind → String
  | query => library.queryFactory
  | mutation => library.mutationFactory

/-- The kinds of hooks that an endpoint gets. -/
def ofEndpoint (e : Endpoint) : List HookKind :=
  (if e.supportsQuery then [query] else []) ++ (if e.supportsMutation then [mutation] else [])

end HookKind

/-- The path of a hook. -/
def hookPath (library : HookLibrary) (kind : HookKind) (e : Endpoint) (stem : String) : String :=
  e.filePath library.directory stem kind.ending

/-- The scope and the operation name as literals, in front of a query's key. -/
def keyLiterals (e : Endpoint) : String :=
  ", ".intercalate ((e.scope ++ [e.operationName]).map fun part => "\"" ++ part ++ "\"")

/-- The name of a hook. -/
def hookName (kind : HookKind) (e : Endpoint) : String :=
  "use" ++ Naming.pascal e.exportName ++ kind.word

/-- The name of the definition behind a hook. -/
def definitionName (kind : HookKind) (e : Endpoint) : String := e.exportName ++ kind.word ++ "Def"

/-- The imports of a hook and the blank line after them. -/
def hookImports (library : HookLibrary) (kind : HookKind) (e : Endpoint) (client : Import.Client)
    (builder modelBase : String) (package : Bool) : List String :=
  [importOf (kind.factory library) library.package] ++ client.lines
    ++ [importOf e.builderName builder]
    ++ TypeText.importLines e.mentionedTypes modelBase package ++ [""]

/-- The line that opens a definition. -/
def definitionHead (kind : HookKind) (e : Endpoint) : String :=
  "export const " ++ definitionName kind e ++ " = create" ++ kind.word ++ "Definition<"
    ++ e.inputType ++ ", " ++ e.outputType ++ ">(\x7b"

/-- The line that names the builder in a definition. -/
def buildLine (e : Endpoint) : String :=
  if e.hasInput then "  buildSpec: " ++ e.builderName ++ ","
  else "  buildSpec: () => " ++ e.builderName ++ "(),"

/-- The line that exports a hook. -/
def hookLine (library : HookLibrary) (kind : HookKind) (e : Endpoint) : String :=
  "export const \x7b useAptx" ++ kind.word ++ ": " ++ hookName kind e ++ " \x7d = "
    ++ kind.factory library ++ "(" ++ definitionName kind e ++ ");"

/-- The lines that export a query's key. -/
def keyLines (e : Endpoint) : List String :=
  let name := "export const " ++ e.exportName ++ "Key = "
  let lead := definitionName .query e ++ ".keyPrefix"
  if e.hasInput then
    [name ++ "(input: " ++ e.inputType ++ ") =>",
     "  [..." ++ lead ++ ", normalizeInput(input)] as const;"]
  else [name ++ "() =>", "  " ++ lead ++ ";"]

/-- The lines of a query hook. -/
def queryLines (library : HookLibrary) (e : Endpoint) (client : Import.Client)
    (builder modelBase : String) (package : Bool) : List String :=
  [importOf "createQueryDefinition" "@aptx/api-query-adapter",
   "import type \x7b QueryAdapterContext \x7d from \"@aptx/api-query-adapter\";"]
    ++ hookImports library .query e client builder modelBase package
    ++ (if e.hasInput then
          ["const normalizeInput = (input: " ++ e.inputType
            ++ ") => JSON.stringify(input ?? null);", ""]
        else [])
    ++ [definitionHead .query e,
        "  keyPrefix: [" ++ keyLiterals e ++ "] as const,",
        buildLine e,
        "  execute: (spec: ReturnType<typeof " ++ e.builderName
          ++ ">, options: PerCallOptions | undefined, "
          ++ "queryContext: QueryAdapterContext | undefined) =>",
        "    " ++ client.call ++ ".execute(spec, \x7b",
        "      ...(options ?? \x7b\x7d),"]
    ++ (if Endpoint.isFlagged e.flags Endpoint.skipRefreshFlag then
          ["      skipAuthRefresh: true,"] else [])
    ++ ["      signal: queryContext?.signal,",
        "      meta: \x7b",
        "        ...(options?.meta ?? \x7b\x7d),",
        "        __query: queryContext?.meta,",
        "      \x7d,",
        "    \x7d),",
        "\x7d);",
        ""]
    ++ keyLines e ++ ["", hookLine library .query e]

/-- The lines of a mutation hook. -/
def mutationLines (library : HookLibrary) (e : Endpoint) (client : Import.Client)
    (builder modelBase : String) (package : Bool) : List String :=
  [importOf "createMutationDefinition" "@aptx/api-query-adapter"]
    ++ hookImports library .mutation e client builder modelBase package
    ++ [definitionHead .mutation e,
        buildLine e,
        "  execute: (spec: ReturnType<typeof " ++ e.builderName
          ++ ">, options?: PerCallOptions) =>",
        "    " ++ client.call ++ ".execute(spec, " ++ e.callOptions ++ "),",
        "\x7d);",
        "",
        hookLine library .mutation e]

/-- The lines of a hook. -/
def hookLines (library : HookLibrary) (kind : HookKind) (e : Endpoint) (client : Import.Client)
    (builder modelBase : String) (package : Bool) : List String :=
  match kind with
  | .query => queryLines library e client builder modelBase package
  | .mutation => mutationLines library e client builder modelBase package

/-- A hook of an endpoint. -/
def hookFile (library : HookLibrary) (a : Api) (e : Endpoint) (stem builder : String)
    (kind : HookKind) : PlannedFile :=
  let path := hookPath library kind e stem
  ⟨path, fileText (hookLines library kind e (Import.client a.clientImport)
    (builderSource path builder) (a.modelBase path) (Import.fromPackage a.modelImport))⟩

/-- The files of an endpoint: none if it is neither a query nor a mutation. -/
def hookFiles (library : HookLibrary) (a : Api) (e : Endpoint) : List PlannedFile :=
  let stem := Endpoint.stem a.endpoints e
  let builder := builderPath e stem
  match HookKind.ofEndpoint e with
  | [] => []
  | kinds => builderFile a e builder :: kinds.map (hookFile library a e stem builder)

/-- Whether an endpoint gets hooks. -/
def hasHooks (e : Endpoint) : Bool := e.supportsQuery || e.supportsMutation

/-- Builders and hooks of all endpoints. -/
def hooks (library : HookLibrary) (a : Api) : RenderOutput :=
  ⟨a.endpoints.flatMap (hookFiles library a),
   (a.endpoints.filter hasHooks).flatMap Endpoint.typeWarnings⟩

end Render
end ApiScribe
