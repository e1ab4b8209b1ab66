import ApiScribe.Proofs.Endpoint.Types
import ApiScribe.Proofs.Pipeline.Kept
import ApiScribe.Proofs.Reference
import ApiScribe.Proofs.Render.ServiceFiles
import ApiScribe.Proofs.Schema.Reading
import ApiScribe.Proofs.Text.Lines
import ApiScribe.Proofs.TypeText.Names

/-! The types that generated files import. A file imports the names that its types mention, and
besides them only the types of the packages that it is written against. -/
namespace ApiScribe
namespace Render

/-- The type that a line imports, if it imports one. -/
def importedType? (line : String) : Option String :=
  (Text.after? "import type \x7b ".toList line.toList).map fun cs =>
    String.ofList (cs.takeWhile (· ≠ ' '))

/-- The types that lines import, in order. -/
def importedTypes (lines : List String) : List String := lines.filterMap importedType?

@[simp] theorem importedTypes_append (ls ms : List String) :
    importedTypes (ls ++ ms) = importedTypes ls ++ importedTypes ms := List.filterMap_append

theorem importedType?_importLine {n : String} (h : ' ' ∉ n.toList) (source : String) :
    importedType? (TypeText.importLine n source) = some n := by
  have hafter : Text.after? "import type \x7b ".toList (TypeText.importLine n source).toList =
      some (n.toList ++ ' ' :: ("\x7d from \"" ++ source ++ "\";").toList) := by
    refine Text.after?_eq_some_iff.2 ?_
    unfold TypeText.importLine
    simp
  rw [importedType?, hafter, Option.map_some, Text.takeWhile_ne_append_cons h, String.ofList_toList]

@[simp] theorem importedType?_importOf (name source : String) :
    importedType? (importOf name source) = none := by
  simp [importedType?, importOf, Text.after?]

@[simp] theorem importedTypes_importOf (name source : String) :
    importedTypes [importOf name source] = [] :=
  List.filterMap_cons_none (importedType?_importOf name source)

/-- Lines that do not start like an import. -/
def IsNoImport (ls : List String) : Prop := ∀ l ∈ ls, l.toList.head? ≠ some 'i'

theorem importedTypes_append_of_isNoImport {ms : List String} (h : IsNoImport ms)
    (ls : List String) : importedTypes (ls ++ ms) = importedTypes ls := by
  have hnone : importedTypes ms = [] := by
    refine List.filterMap_eq_nil_iff.2 fun l hl => ?_
    have hhead := h l hl
    rw [importedType?, Option.map_eq_none_iff]
    cases hl : l.toList with
    | nil => rfl
    | cons c cs =>
      have hc : 'i' ≠ c := by
        rintro rfl
        exact hhead (by rw [hl]; rfl)
      simp [Text.after?, hc]
  rw [importedTypes_append, hnone, List.append_nil]

/-- Import lines bring in the names of types. -/
theorem importedTypes_importLines (types : List String) (base : String) (package : Bool) :
    importedTypes (TypeText.importLines types base package) = TypeText.allNames types := by
  have hname : ∀ n ∈ TypeText.allNames types, ' ' ∉ n.toList := by
    intro n hn hblank
    obtain ⟨t, -, ht⟩ := List.mem_flatMap.1 (List.mem_eraseDups.1 hn)
    exact absurd (TypeText.isWordChar_of_mem_names ht ' ' hblank) (by decide)
  rw [importedTypes, TypeText.importLines, List.filterMap_map]
  exact (List.filterMap_congr fun n hn => importedType?_importLine (hname n hn) _).trans
    List.filterMap_some

/-- The types that generated files import besides those of the document. -/
def optionsType : String := "PerCallOptions"

def contextType : String := "QueryAdapterContext"

theorem importedTypes_client (settings : Option ClientImport) :
    importedTypes (Import.client settings).lines = [optionsType] := by
  have hlines : ∀ name types client, importedTypes (Import.clientLines name types client) =
      [optionsType] := by
    intro name types client
    have hoptions : importedType?
        ("import type \x7b PerCallOptions \x7d from \"" ++ types ++ "\";") = some optionsType :=
      importedType?_importLine (n := optionsType) (by decide) types
    have hclient : importedType? ("import \x7b " ++ name ++ " \x7d from \"" ++ client ++ "\";") =
        none := importedType?_importOf name client
    rw [importedTypes, Import.clientLines, List.filterMap_cons_some hoptions,
      List.filterMap_cons_none hclient, List.filterMap_nil]
  unfold Import.client
  dsimp only
  split
  · exact hlines _ _ _
  · exact hlines _ _ _
  · exact hlines _ _ _

theorem importedTypes_builderLines (e : Endpoint) (modelBase : String) (package : Bool) :
    importedTypes (builderLines e modelBase package) =
      TypeText.allNames (if e.hasInput then [e.inputType] else []) := by
  have hfield : ∀ name value, IsNoImport (fieldLine name value) := by
    intro name value l hl
    obtain ⟨v, -, -, rfl⟩ := mem_fieldLine.1 hl
    simp
  have hempty : ∀ ls : List String, IsNoImport (if ls.isEmpty then [] else [""]) := by
    intro ls
    split
    · simp [IsNoImport]
    · simp [IsNoImport]
  unfold builderLines
  dsimp only
  rw [importedTypes_append_of_isNoImport (by simp [IsNoImport]),
    importedTypes_append_of_isNoImport (hfield _ _),
    importedTypes_append_of_isNoImport (hfield _ _),
    importedTypes_append_of_isNoImport (by simp [IsNoImport]),
    importedTypes_append_of_isNoImport (hempty _), importedTypes_importLines]

theorem isNoImport_functionComment (e : Endpoint) : IsNoImport (functionComment e) := by
  unfold functionComment
  dsimp only
  split
  · simp [IsNoImport]
  · split <;> split <;> simp [IsNoImport]

theorem importedTypes_functionLines (e : Endpoint) (settings : Option ClientImport)
    (builder modelBase : String) (package : Bool) :
    importedTypes (functionLines e (Import.client settings) builder modelBase package) =
      [optionsType] ++ TypeText.allNames e.mentionedTypes := by
  have hinput : IsNoImport (if e.hasInput then ["  input: " ++ e.inputType ++ ","] else []) := by
    split <;> simp [IsNoImport]
  unfold functionLines
  rw [importedTypes_append_of_isNoImport (by simp [IsNoImport]),
    importedTypes_append_of_isNoImport hinput,
    importedTypes_append_of_isNoImport (by simp [IsNoImport]),
    importedTypes_append_of_isNoImport (isNoImport_functionComment e),
    importedTypes_append_of_isNoImport (by simp [IsNoImport]), importedTypes_append,
    importedTypes_append, importedTypes_client, importedTypes_importOf, importedTypes_importLines,
    List.append_nil]

theorem importedTypes_hookImports (library : HookLibrary) (kind : HookKind) (e : Endpoint)
    (settings : Option ClientImport) (builder modelBase : String) (package : Bool) :
    importedTypes (hookImports library kind e (Import.client settings) builder modelBase package) =
      [optionsType] ++ TypeText.allNames e.mentionedTypes := by
  unfold hookImports
  rw [importedTypes_append_of_isNoImport (by simp [IsNoImport]), importedTypes_append,
    importedTypes_append, importedTypes_append, importedTypes_client, importedTypes_importOf,
    importedTypes_importOf, importedTypes_importLines, List.append_nil, List.nil_append]

theorem head?_hookLine (library : HookLibrary) (kind : HookKind) (e : Endpoint) :
    (hookLine library kind e).toList.head? ≠ some 'i' := by
  unfold hookLine
  simp

theorem head?_definitionHead (kind : HookKind) (e : Endpoint) :
    (definitionHead kind e).toList.head? ≠ some 'i' := by
  unfold definitionHead
  simp

theorem head?_buildLine (e : Endpoint) : (buildLine e).toList.head? ≠ some 'i' := by
  unfold buildLine
  split <;> simp

theorem isNoImport_keyLines (e : Endpoint) : IsNoImport (keyLines e) := by
  unfold keyLines
  dsimp only
  split
  · simp [IsNoImport]
  · simp [IsNoImport]

theorem importedTypes_mutationLines (library : HookLibrary) (e : Endpoint)
    (settings : Option ClientImport) (builder modelBase : String) (package : Bool) :
    importedTypes (mutationLines library e (Import.client settings) builder modelBase package) =
      [optionsType] ++ TypeText.allNames e.mentionedTypes := by
  unfold mutationLines
  rw [importedTypes_append_of_isNoImport, importedTypes_append, importedTypes_importOf,
    importedTypes_hookImports, List.nil_append]
  simp only [IsNoImport, List.forall_mem_cons]
  exact ⟨head?_definitionHead _ _, head?_buildLine e, by simp, by simp, by simp, by simp,
    head?_hookLine _ _ _, by simp⟩

theorem importedTypes_queryLines (library : HookLibrary) (e : Endpoint)
    (settings : Option ClientImport) (builder modelBase : String) (package : Bool) :
    importedTypes (queryLines library e (Import.client settings) builder modelBase package) =
      [contextType] ++ ([optionsType] ++ TypeText.allNames e.mentionedTypes) := by
  have hnormalize : IsNoImport (if e.hasInput then
      ["const normalizeInput = (input: " ++ e.inputType ++ ") => JSON.stringify(input ?? null);", ""]
      else []) := by
    split <;> simp [IsNoImport]
  have hskip : IsNoImport (if Endpoint.isFlagged e.flags Endpoint.skipRefreshFlag then
      ["      skipAuthRefresh: true,"] else []) := by
    split <;> simp [IsNoImport]
  have hcontext : importedType?
      "import type \x7b QueryAdapterContext \x7d from \"@aptx/api-query-adapter\";" =
        some contextType :=
    importedType?_importLine (n := contextType) (by decide) "@aptx/api-query-adapter"
  have hhead : importedTypes [importOf "createQueryDefinition" "@aptx/api-query-adapter",
      "import type \x7b QueryAdapterContext \x7d from \"@aptx/api-query-adapter\";"] =
        [contextType] := by
    rw [importedTypes, List.filterMap_cons_none (importedType?_importOf _ _),
      List.filterMap_cons_some hcontext, List.filterMap_nil]
  have hend : IsNoImport ["", hookLine library .query e] :=
    List.forall_mem_cons.2 ⟨by simp, List.forall_mem_singleton.2 (head?_hookLine _ _ _)⟩
  have hdefinition : IsNoImport [definitionHead .query e,
      "  keyPrefix: [" ++ keyLiterals e ++ "] as const,", buildLine e,
      "  execute: (spec: ReturnType<typeof " ++ e.builderName
        ++ ">, options: PerCallOptions | undefined, "
        ++ "queryContext: QueryAdapterContext | undefined) =>",
      "    " ++ (Import.client settings).call ++ ".execute(spec, \x7b",
      "      ...(options ?? \x7b\x7d),"] := by
    simp only [IsNoImport, List.forall_mem_cons]
    exact ⟨head?_definitionHead _ _, by simp, head?_buildLine e, by simp, by simp, by simp, by simp⟩
  unfold queryLines
  rw [importedTypes_append_of_isNoImport hend,
    importedTypes_append_of_isNoImport (isNoImport_keyLines e),
    importedTypes_append_of_isNoImport (by simp [IsNoImport]),
    importedTypes_append_of_isNoImport hskip, importedTypes_append_of_isNoImport hdefinition,
    importedTypes_append_of_isNoImport hnormalize, importedTypes_append, hhead,
    importedTypes_hookImports]

theorem isNoImport_methodLines (style : CallStyle) (name : String) (e : Endpoint) :
    IsNoImport (methodLines style name e) := by
  unfold methodLines
  dsimp only
  split
  · simp [IsNoImport]
  · simp [IsNoImport]

theorem isNoImport_methodsLines (style : CallStyle) (named : List (String × Endpoint)) :
    IsNoImport (methodsLines style named) := by
  unfold methodsLines
  induction named with
  | nil => simp [IsNoImport, List.intercalate]
  | cons p named ih =>
    have hmethod := isNoImport_methodLines style p.1 p.2
    cases named with
    | nil => simpa [List.intercalate] using hmethod
    | cons q named =>
      have hblank : IsNoImport [""] := by simp [IsNoImport]
      rw [List.map_cons, List.map_cons, List.intercalate_cons_cons]
      exact List.forall_mem_append.2 ⟨List.forall_mem_append.2 ⟨hmethod, hblank⟩, ih⟩

theorem importedTypes_classLines (style : CallStyle) (group : String) (es : List Endpoint)
    (modelBase : String) (package : Bool) :
    importedTypes (classLines style group es modelBase package) =
      TypeText.allNames (es.flatMap Endpoint.mentionedTypes) := by
  have hhead : importedTypes [importOf "singleton" "tsyringe",
      importOf "BaseService" "./BaseService"] = [] := by
    rw [importedTypes, List.filterMap_cons_none (importedType?_importOf _ _),
      List.filterMap_cons_none (importedType?_importOf _ _), List.filterMap_nil]
  unfold classLines
  rw [importedTypes_append_of_isNoImport (by simp [IsNoImport]),
    importedTypes_append_of_isNoImport (isNoImport_methodsLines style _),
    importedTypes_append_of_isNoImport (by simp [IsNoImport]), importedTypes_append, hhead,
    importedTypes_importLines, List.nil_append]

/-- The files with types that renderers plan. -/
inductive TypedFile
  | builder (e : Endpoint) (path : String)
  | call (e : Endpoint) (path builder : String)
  | hook (library : HookLibrary) (kind : HookKind) (e : Endpoint) (stem builder : String)
  | service (style : CallStyle) (group : String) (es : List Endpoint)

namespace TypedFile

def file (a : Api) : TypedFile → PlannedFile
  | builder e path => builderFile a e path
  | call e path source => functionFile a e path source
  | hook library kind e stem source => hookFile library a e stem source kind
  | service style group es => classFile style a group es

/-- The lines of a file. -/
def lines (a : Api) : TypedFile → List String
  | builder e path => builderLines e (a.modelBase path) (Import.fromPackage a.modelImport)
  | call e path source => functionLines e (Import.client a.clientImport) (builderSource path source)
      (a.modelBase path) (Import.fromPackage a.modelImport)
  | hook library kind e stem source =>
    let path := hookPath library kind e stem
    hookLines library kind e (Import.client a.clientImport) (builderSource path source)
      (a.modelBase path) (Import.fromPackage a.modelImport)
  | service style group es => classLines style group es (a.modelBase (className group ++ ".ts"))
      (Import.fromPackage a.modelImport)

theorem content_file (a : Api) (t : TypedFile) : (t.file a).content = fileText (t.lines a) := by
  cases t <;> simp only [file, builderFile, functionFile, hookFile, classFile, lines]

/-- The types of the packages that a file is written against. -/
def packageTypes : TypedFile → List String
  | call _ _ _ => [optionsType]
  | hook _ .query _ _ _ => [contextType, optionsType]
  | hook _ .mutation _ _ _ => [optionsType]
  | _ => []

/-- The endpoints that a file is about. -/
def endpoints : TypedFile → List Endpoint
  | builder e _ | call e _ _ | hook _ _ e _ _ => [e]
  | service _ _ es => es

/-- The types that a file mentions. -/
def mentionedTypes : TypedFile → List String
  | builder e _ => if e.hasInput then [e.inputType] else []
  | t => t.endpoints.flatMap Endpoint.mentionedTypes

theorem exists_of_mem_mentionedTypes {t : TypedFile} {type : String} (h : type ∈ t.mentionedTypes) :
    ∃ e ∈ t.endpoints, type = e.inputType ∨ type = e.outputType := by
  have hall : (∃ e ∈ t.endpoints, type ∈ e.mentionedTypes) →
      ∃ e ∈ t.endpoints, type = e.inputType ∨ type = e.outputType := by
    rintro ⟨e, he, hmem⟩
    refine ⟨e, he, ?_⟩
    unfold Endpoint.mentionedTypes at hmem
    split at hmem
    · simpa using hmem
    · exact .inr (List.mem_singleton.1 hmem)
  cases t with
  | builder e path =>
    simp only [mentionedTypes] at h
    split at h
    · exact ⟨e, List.mem_singleton_self e, .inl (List.mem_singleton.1 h)⟩
    · cases h
  | call e path source => exact hall (List.mem_flatMap.1 h)
  | hook library kind e stem source => exact hall (List.mem_flatMap.1 h)
  | service style group es => exact hall (List.mem_flatMap.1 h)

/-- A file imports types of packages and the names that its types mention, and nothing else. -/
theorem importedTypes_lines (a : Api) (t : TypedFile) :
    importedTypes (t.lines a) = t.packageTypes ++ TypeText.allNames t.mentionedTypes := by
  cases t with
  | builder e path =>
    simp only [lines, importedTypes_builderLines, packageTypes, mentionedTypes, List.nil_append]
  | call e path source =>
    simp [lines, importedTypes_functionLines, packageTypes, mentionedTypes, endpoints]
  | hook library kind e stem source =>
    cases kind with
    | query =>
      simp [lines, hookLines, importedTypes_queryLines, packageTypes, mentionedTypes, endpoints]
    | mutation =>
      simp [lines, hookLines, importedTypes_mutationLines, packageTypes, mentionedTypes, endpoints]
  | service style group es =>
    simp [lines, importedTypes_classLines, packageTypes, mentionedTypes, endpoints]

end TypedFile

/-- The names of the renderers that plan files with types. -/
def typedRenderers : List String := endpointRenderers ++ ["axios-ts", "uniapp"]

/-- What these renderers plan are files with types, about endpoints of the document. -/
theorem exists_typedFile {id : String} {r : Renderer} (hid : id ∈ typedRenderers)
    (hr : Registry.builtin.create id = .ok r) {a : Api} {f : PlannedFile}
    (hf : f ∈ (r.render a).files) :
    ∃ t : TypedFile, f = t.file a ∧ ∀ e ∈ t.endpoints, e ∈ a.endpoints := by
  rcases List.mem_append.1 hid with hid | hid
  · rcases files_of_endpointRenderer hid hr a with hfiles | ⟨library, -, hfiles⟩
    · rw [hfiles] at hf
      obtain ⟨e, he, hf⟩ := List.mem_flatMap.1 hf
      rcases List.mem_pair.1 hf with rfl | rfl
      · exact ⟨.builder e _, rfl, List.forall_mem_singleton.2 he⟩
      · exact ⟨.call e _ _, rfl, List.forall_mem_singleton.2 he⟩
    · rw [hfiles] at hf
      obtain ⟨e, he, hf⟩ := List.mem_flatMap.1 hf
      obtain ⟨-, rfl | ⟨kind, rfl⟩⟩ := hookFiles_cases hf
      · exact ⟨.builder e _, rfl, List.forall_mem_singleton.2 he⟩
      · exact ⟨.hook library kind e _ _, rfl, List.forall_mem_singleton.2 he⟩
  · have hservices : ∃ style, (r.render a).files = (services style a).files := by
      simp only [List.mem_cons, List.not_mem_nil, or_false] at hid
      rcases hid with rfl | rfl
      · cases hr
        exact ⟨.positional, rfl⟩
      · cases hr
        exact ⟨.compact, rfl⟩
    obtain ⟨style, hfiles⟩ := hservices
    rw [hfiles] at hf
    obtain ⟨g, hg, rfl⟩ := List.mem_map.1 hf
    refine ⟨.service style g.1 g.2, rfl, fun e he => ?_⟩
    rw [TypedFile.endpoints, (areGroupsOf_groups a.endpoints).members g hg] at he
    exact (List.mem_filter.1 he).1

end Render
end ApiScribe

/-! Type imports of a run. A generated file imports types of the packages that it is written
against, and named schemas of the document. That holds if the references of the document end with
names of schemas, and these names and those of properties are words; names that are none are taken
for several. -/
namespace ApiScribe

namespace Schema

/-- A reference that ends with the name of a schema is written as this name, or it is no type. -/
theorem targetName_mem_names {document : Value} {ref : String}
    (h : endsInName document ref = true) (hforeign : isForeign (Reference.targetName ref) = false) :
    Reference.targetName ref ∈ names document := by
  obtain ⟨name, hname, hkey⟩ := endsInName_iff.1 h
  have htilde : '~' ∉ (Reference.targetName ref).toList := by
    intro hmem
    have hchar : isForeign (Reference.targetName ref) = true :=
      List.any_eq_true.2 ⟨'~', hmem, by decide⟩
    rw [hforeign] at hchar
    cases hchar
  rwa [Reference.targetName_of_lastKey? hkey htilde]

end Schema

namespace Pipeline

open Endpoint Schema Render

/-- Every type that a planned file imports is one of the packages that the file is written against,
or a named schema of the document. -/
theorem imported_types_named (p : Pipeline) {document : Value} {a : Api}
    (h : p.transformed document = .ok a)
    (hrefs : ∀ v ∈ schemas document, ∀ ref ∈ refs v, endsInName document ref = true)
    (hnames : ∀ v ∈ schemas document, HasWordNames v)
    {id : String} {r : Renderer} (hid : id ∈ typedRenderers)
    (hr : Registry.builtin.create id = .ok r) :
    ∀ f ∈ (r.render a).files, ∃ t : TypedFile, f = t.file a ∧ f.content = fileText (t.lines a) ∧
      ∀ n ∈ importedTypes (t.lines a), n ∈ t.packageTypes ∨ n ∈ names document := by
  intro f hf
  obtain ⟨t, rfl, hendpoints⟩ := exists_typedFile hid hr hf
  refine ⟨t, rfl, t.content_file a, fun n hn => ?_⟩
  rw [TypedFile.importedTypes_lines, List.mem_append] at hn
  refine hn.imp_right fun hn => ?_
  obtain ⟨type, htype, hn⟩ := List.mem_flatMap.1 (List.mem_eraseDups.1 hn)
  obtain ⟨e, he, htype⟩ := TypedFile.exists_of_mem_mentionedTypes htype
  have hmentions := mentions_transformed (A := (· ∈ names document)) h (fun v hv t ht =>
    mentions_typeText (hnames v hv)
      (fun ref href hforeign => targetName_mem_names (hrefs v hv ref href) hforeign) ht)
    e (hendpoints e he)
  rcases htype with rfl | rfl
  · exact hmentions.1.names_normalize n hn
  · exact hmentions.2.names_normalize n hn

/-- A document with one operation, and with empty schemas of some names. -/
def oneOperation (method : String) (operation : List (String × Value)) (names : List String) :
    Value :=
  .record [("paths", .record [("/a", .record [(method, .record operation)])]),
    ("definitions", .record (names.map fun name => (name, .record [])))]

/-- An answer of a type. -/
def answer (schema : Value) : String × Value :=
  ("responses", .record [("200", .record [("schema", schema)])])

/-- An object with one property. -/
def objectWith (name : String) (schema : Value) : Value :=
  .record [("type", .str "object"), ("properties", .record [(name, schema)])]

/-- A pet that is added with an owner. -/
def petDocument : Value :=
  oneOperation "post" [("operationId", .str "add"), answer (refTo "Pet"),
    ("requestBody", .record [("content", .record [("application/json",
      .record [("schema", objectWith "owner" (refTo "Owner"))])])])] ["Pet", "Owner"]

theorem imported_types_petDocument : names petDocument = ["Pet", "Owner"] ∧
    ∃ a, ({} : Pipeline).transformed petDocument = .ok a ∧
      ∀ f ∈ (Render.functions a).files, ∃ t : TypedFile, f = t.file a ∧
        f.content = fileText (t.lines a) ∧
        ∀ n ∈ importedTypes (t.lines a), n ∈ t.packageTypes ∨ n ∈ names petDocument := by
  have hrefs : ∀ v ∈ schemas petDocument, ∀ ref ∈ refs v, endsInName petDocument ref = true := by
    decide +kernel
  have hwords : ∀ v ∈ schemas petDocument,
      (∀ ref ∈ refs v, isOneWord (Reference.targetName ref) = true ∨
        isForeign (Reference.targetName ref) = true) ∧
      ∀ name ∈ propertyNames v, isWords name = true ∨ isForeign name = true := by
    decide +kernel
  have hok : (({} : Pipeline).transformed petDocument).isOk = true := by decide +kernel
  cases ha : ({} : Pipeline).transformed petDocument with
  | error e =>
    rw [ha] at hok
    cases hok
  | ok a =>
    have hid : "functions" ∈ typedRenderers := by decide
    exact ⟨by decide +kernel, a, rfl, imported_types_named {} ha hrefs
      (fun v hv => ⟨(hwords v hv).1, (hwords v hv).2⟩) hid rfl⟩

/-- A renderer imports a type with no schema of its name, though every reference of the document
points to a named schema. -/
def ImportsUnnamed (document : Value) (id n : String) : Prop :=
  (∀ v ∈ schemas document, ∀ ref ∈ refs v, endsInName document ref = true ∧
    (Reference.resolve document ref).isOk = true) ∧
  ∃ a r, ({} : Pipeline).transformed document = .ok a ∧ Registry.builtin.create id = .ok r ∧
    ∃ t : TypedFile, t.file a ∈ (r.render a).files ∧ n ∈ importedTypes (t.lines a) ∧
      n ≠ optionsType ∧ n ∉ names document

/-- A function file imports what the types of its endpoint mention. -/
theorem importsUnnamed_of_mentioned {document : Value} {n : String}
    (hrefs : ∀ v ∈ schemas document, ∀ ref ∈ refs v, endsInName document ref = true ∧
      (Reference.resolve document ref).isOk = true)
    (hmentioned : (({} : Pipeline).transformed document).map (fun a =>
      a.endpoints.map fun e => TypeText.allNames e.mentionedTypes) = .ok [[n]])
    (hoptions : n ≠ optionsType) (hn : n ∉ names document) :
    ImportsUnnamed document "functions" n := by
  obtain ⟨a, ha, heq⟩ := Outcome.map_eq_ok.1 hmentioned
  have hnames : [n] ∈ a.endpoints.map fun e => TypeText.allNames e.mentionedTypes := by
    rw [heq]
    exact List.mem_singleton_self [n]
  obtain ⟨e, he, hnames⟩ := List.mem_map.1 hnames
  refine ⟨hrefs, a, _, ha, rfl, .call e (functionPath e (stem a.endpoints e))
    (builderPath e (stem a.endpoints e)), List.mem_flatMap.2 ⟨e, he, ?_⟩, ?_, hoptions, hn⟩
  · exact List.mem_cons_of_mem _ (List.mem_singleton_self _)
  · rw [TypedFile.importedTypes_lines]
    refine List.mem_append_right _ ?_
    simp [TypedFile.mentionedTypes, TypedFile.endpoints, hnames]

/-- A query hook imports the type of its context. -/
theorem importsUnnamed_of_query {document : Value}
    (hrefs : ∀ v ∈ schemas document, ∀ ref ∈ refs v, endsInName document ref = true ∧
      (Reference.resolve document ref).isOk = true)
    (hquery : (({} : Pipeline).transformed document).map (fun a =>
      a.endpoints.map HookKind.ofEndpoint) = .ok [[.query]])
    (hn : contextType ∉ names document) : ImportsUnnamed document "react-query" contextType := by
  obtain ⟨a, ha, heq⟩ := Outcome.map_eq_ok.1 hquery
  have hkinds : [HookKind.query] ∈ a.endpoints.map HookKind.ofEndpoint := by
    rw [heq]
    exact List.mem_singleton_self _
  obtain ⟨e, he, hkinds⟩ := List.mem_map.1 hkinds
  refine ⟨hrefs, a, _, ha, rfl, .hook reactHooks .query e (stem a.endpoints e)
    (builderPath e (stem a.endpoints e)), List.mem_flatMap.2 ⟨e, he, ?_⟩, ?_, by decide, hn⟩
  · unfold hookFiles
    dsimp only
    rw [hkinds]
    exact List.mem_cons_of_mem _ (List.mem_singleton_self _)
  · rw [TypedFile.importedTypes_lines]
    exact List.mem_append_left _ List.mem_cons_self

/-- A query hook imports the type of its context, and names that are no words are taken for
others: `first-name`, `Foo.Bar` and `1st` bring in `first`, `Foo` and `st`. -/
theorem imports_unnamed :
    ImportsUnnamed (oneOperation "get" [("operationId", .str "list")] []) "react-query"
      "QueryAdapterContext" ∧
    ImportsUnnamed (oneOperation "get" [("operationId", .str "list"),
      answer (objectWith "first-name" (.record [("type", .str "string")]))] [])
      "functions" "first" ∧
    ImportsUnnamed (oneOperation "get" [("operationId", .str "list"), answer (refTo "Foo.Bar")]
      ["Foo.Bar"]) "functions" "Foo" ∧
    ImportsUnnamed (oneOperation "get" [("operationId", .str "list"), answer (refTo "1st")]
      ["1st"]) "functions" "st" := by
  refine ⟨?_, ?_, ?_, ?_⟩
  · exact importsUnnamed_of_query (by decide +kernel) (by decide +kernel) (by decide +kernel)
  · exact importsUnnamed_of_mentioned (by decide +kernel) (by decide +kernel) (by decide)
      (by decide +kernel)
  · exact importsUnnamed_of_mentioned (by decide +kernel) (by decide +kernel) (by decide)
      (by decide +kernel)
  · exact importsUnnamed_of_mentioned (by decide +kernel) (by decide +kernel) (by decide)
      (by decide +kernel)

end Pipeline
end ApiScribe
