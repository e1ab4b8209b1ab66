import ApiScribe.Proofs.Code.Requests
import ApiScribe.Proofs.Path
import ApiScribe.Proofs.Render.TypeImports
import ApiScribe.Proofs.Text.Comment

/-! Generated files are closed code: reading one to its end leaves nothing open, and comes by no use
of the argument outside a function that declares it. Every line of a builder, of a call function, of
a class and of the script leads from one place of the code to another, whatever the endpoint, and the
lines of a file lead back to where they started. -/
namespace ApiScribe
namespace Render

open Code Endpoint
open TypeText (isWordChar)

variable {places next outer : List Code.Place} {line : String} {lines : List String}
  {e : Endpoint}

theorem leads_fileText_cons {last : List Code.Place} (hline : Leads (line.toList ++ ['\n']) places next)
    (hlines : Leads (fileText lines).toList next last) :
    Leads (fileText (line :: lines)).toList places last := by
  rw [toList_fileText, List.map_cons, List.flatMap_cons, ← toList_fileText]
  exact hline.append hlines

theorem leads_fileText_append {more : List String} {last : List Code.Place}
    (hlines : Leads (fileText lines).toList places next)
    (hmore : Leads (fileText more).toList next last) :
    Leads (fileText (lines ++ more)).toList places last := by
  rw [toList_fileText, List.map_append, List.flatMap_append, ← toList_fileText, ← toList_fileText]
  exact hlines.append hmore

theorem leads_fileText_nil : Leads (fileText []).toList places places := .nil places

/-- Lines that lead nowhere. -/
theorem leads_fileText_of_forall (h : ∀ line ∈ lines, Leads (line.toList ++ ['\n']) places places) :
    Leads (fileText lines).toList places places := by
  induction lines with
  | nil => exact leads_fileText_nil
  | cons line lines ih =>
    obtain ⟨hline, hlines⟩ := List.forall_mem_cons.1 h
    exact leads_fileText_cons hline (ih hlines)

theorem leads_fileText_ite {c : Prop} [Decidable c] {more : List String}
    (hlines : c → Leads (fileText lines).toList places next)
    (hmore : ¬ c → Leads (fileText more).toList places next) :
    Leads (fileText (if c then lines else more)).toList places next := by
  split
  · next h => exact hlines h
  · next h => exact hmore h

/-- The words that every generated file has, and where they lead. -/
structure WordsLead : Prop where
  typeImport : Leads "import type \x7b ".toList [] [.imports]
  valueImport : Leads "import \x7b ".toList [] [.imports]
  clientImport : Leads ("import axios from \"axios\";".toList ++ ['\n']) [] []
  singleton : Leads ("@singleton()".toList ++ ['\n']) [] []
  exportFunction : Leads "export function ".toList [] [.head]
  exportAsync : Leads "export async function ".toList [] [.head]
  exportClass : Leads "export class ".toList [] [.classHead]
  extending : Leads (" extends BaseService \x7b".toList ++ ['\n']) [.classHead] [.members]
  typedInput : Leads "  input: ".toList [.parameters (some []) false] [.parameters none true]
  onlyInput : Leads "input) \x7b\n".toList [.parameters (some []) false] [.body true]
  options : ∀ d, Leads ("  options?: PerCallOptions".toList ++ ['\n']) [.parameters (some []) d]
    [.parameters none d]
  promise : ∀ d, Leads "): Promise<".toList [.parameters none d] [.type '>', .result d]
  returnObject : ∀ d, Leads ("  return \x7b".toList ++ ['\n']) [.body d] [.bracket '}', .body d]
  returnCall : ∀ d, Leads "  return ".toList [.body d] [.body d]
  returnMethod : ∀ d, Leads ("    return ".toList ++ "this.".toList) [.body d, .members]
    [.dot false, .body d, .members]
  returnRequest : ∀ d, Leads ("  return axios.request(\x7b".toList ++ ['\n']) [.body d]
    [.bracket '}', .bracket ')', .body d]
  execute : ∀ d, Leads ".execute<".toList [.body d] [.type '>', .body d]
  skipped : ∀ d, Leads "\x7b ...options, skipAuthRefresh: true \x7d".toList [.bracket ')', .body d]
    [.bracket ')', .body d]
  method : ∀ d, Leads "    method: \"".toList [.bracket '}', .body d]
    [.literal '"' false, .bracket '}', .body d]
  path : ∀ d, Leads "    path: ".toList [.bracket '}', .body d] [.bracket '}', .body d]
  field : ∀ d, ∀ name ∈ ["query", "body"], Leads ("    " ++ name ++ ": ").toList
    [.bracket '}', .body d] [.bracket '}', .body d]
  requestMethod : ∀ d, Leads "method: \"".toList [.bracket '}', .bracket ')', .body d]
    [.literal '"' false, .bracket '}', .bracket ')', .body d]
  requestField : ∀ d, ∀ label ∈ ["url: ", "data: ", "params: "], Leads label.toList
    [.bracket '}', .bracket ')', .body d] [.bracket '}', .bracket ')', .body d]

theorem wordsLead : WordsLead := by
  constructor <;> decide +kernel

/-- A source that stands between quotes as it is. -/
def IsPlainSource (source : String) : Prop := ∀ c ∈ source.toList, c ≠ '"' ∧ c ≠ '\\'

instance (source : String) : Decidable (IsPlainSource source) :=
  List.decidableBAll (fun c => c ≠ '"' ∧ c ≠ '\\') source.toList

theorem IsPlainSource.append {s t : String} (hs : IsPlainSource s) (ht : IsPlainSource t) :
    IsPlainSource (s ++ t) := by
  rw [IsPlainSource, String.toList_append, List.forall_mem_append]
  exact ⟨hs, ht⟩

theorem isPlainSource_iff {source : String} :
    IsPlainSource source ↔ '"' ∉ source.toList ∧ '\\' ∉ source.toList := by
  rw [IsPlainSource, forall₂_and]
  simp only [ne_eq, List.forall_mem_ne']

theorem IsPlainSource.intercalate {sep : String} {ss : List String} (hsep : IsPlainSource sep)
    (h : ∀ s ∈ ss, IsPlainSource s) : IsPlainSource (sep.intercalate ss) := by
  rw [isPlainSource_iff] at hsep ⊢
  exact ⟨Text.not_mem_intercalate sep hsep.1 fun s hs => (isPlainSource_iff.1 (h s hs)).1,
    Text.not_mem_intercalate sep hsep.2 fun s hs => (isPlainSource_iff.1 (h s hs)).2⟩

theorem IsPlainSource.source {path : String} (h : IsPlainSource path) :
    IsPlainSource (Import.source path) := by
  unfold Import.source
  split
  · decide
  · split
    · exact h
    · exact IsPlainSource.append (by decide) h

/-- The source of a builder is plain if the path of the builder is. -/
theorem isPlainSource_builderSource {path : String} (h : IsPlainSource path) (importing : String) :
    IsPlainSource (builderSource importing path) := by
  have hsteps : ∀ s ∈ Path.rooted (Path.withoutSuffix path), IsPlainSource s := by
    intro s hs
    rcases Path.mem_rooted hs with hs | hs
    · have hbase : ∀ s ∈ Path.base, IsPlainSource s := by decide
      exact hbase s hs
    · exact fun c hc => h c (Path.mem_of_mem_withoutSuffix (Path.mem_of_mem_steps hs hc))
  unfold builderSource Import.relative? Path.relative?
  split
  · decide
  · simp only [Option.map_some, Option.getD_some]
    refine IsPlainSource.source ?_
    split
    · decide
    · exact IsPlainSource.intercalate (by decide) (Path.forall_mem_between (by decide) hsteps)

/-- An import is closed. -/
theorem leads_import {front name source : String} (hfront : Leads front.toList [] [.imports])
    (hname : ∀ c ∈ name.toList, isWordChar c = true) (hsource : IsPlainSource source) :
    Leads ((front ++ name ++ " \x7d from \"" ++ source ++ "\";").toList ++ ['\n']) [] [] := by
  have hword : ∀ c ∈ name.toList, c ∉ ['"', '\'', ';'] := by
    intro c hc hmem
    have hsign : ∀ d ∈ ['"', '\'', ';'], (!isWordChar d) = true := List.all_eq_true.1 (by decide)
    have hchar := hsign c hmem
    rw [hname c hc] at hchar
    cases hchar
  simp only [String.toList_append, List.append_assoc]
  refine hfront.append ((leads_imports hword).append ?_)
  have hopen : Leads " \x7d from \"".toList [.imports] [.literal '"' false, .imports] := rfl
  exact hopen.append ((leads_literal hsource).append rfl)

/-- Behind the type of the argument its parameters end, or another one comes. -/
theorem step_close (name : Option (List Char)) : step (.parameters name true :: outer) ')' =
    some (.result true :: outer) := by
  rcases name with - | - | ⟨c, chars⟩ <;> rfl

theorem step_comma (name : Option (List Char)) : step (.parameters name true :: outer) ',' =
    some (.parameters (some []) true :: outer) := by
  rcases name with - | - | ⟨c, chars⟩ <;> rfl

/-- The parameters of a generated function declare the argument if there is one. -/
theorem leads_signature (e : Endpoint) : Leads ((signature e).toList ++ [')'])
    (.parameters (some []) false :: outer) (.result e.hasInput :: outer) := by
  unfold signature
  split
  · next hinput =>
    obtain ⟨name, hleads⟩ := @exists_leads_parameters outer none e.declaredInput
    have hname : Leads "input: ".toList (.parameters (some []) false :: outer)
        (.parameters none true :: outer) := rfl
    rw [String.toList_append, List.append_assoc, hinput]
    exact hname.append (hleads.append (.cons (step_close name) (.nil _)))
  · next hinput =>
    rw [Bool.not_eq_true] at hinput
    rw [hinput]
    rfl

/-- What makes the parts of an endpoint that stand in code readable: it has a method, its function
and its builder are called by words, and its path stays in its literal. -/
structure IsReadable (e : Endpoint) : Prop where
  method : ∃ m : Method, e.method = m.name
  exported : ∀ c ∈ e.exportName.toList, isWordChar c = true
  built : ∀ c ∈ e.builderName.toList, isWordChar c = true
  apart : e.builderName.toList ≠ argument ∧ keyword? e.builderName.toList = none
  path : KeepsPath e

theorem leads_fieldLine {name : String} {value : Option String}
    (hname : Leads ("    " ++ name ++ ": ").toList places places)
    (hend : Leads [',', '\n'] places places) (hvalue : ∀ v ∈ value, Passes v.toList places) :
    Leads (fileText (fieldLine name value)).toList places places := by
  unfold fieldLine
  split
  · next v =>
    split
    · exact leads_fileText_nil
    · refine leads_fileText_cons ?_ leads_fileText_nil
      rw [String.toList_append, String.toList_append, List.append_assoc, List.append_assoc]
      exact hname.append ((hvalue v rfl).leads (by decide) hend)
  · exact leads_fileText_nil

theorem forall_mem_name (m : Method) : ∀ c ∈ m.name.toList, isWordChar c = true := by
  cases m <;> exact List.all_eq_true.1 (by decide)

theorem isPlainSource_of_words {s : String} (h : ∀ c ∈ s.toList, isWordChar c = true) :
    IsPlainSource s := by
  intro c hc
  constructor
  · rintro rfl
    cases h _ hc
  · rintro rfl
    cases h _ hc

theorem not_mem_of_words {s : String} (h : ∀ c ∈ s.toList, isWordChar c = true) : '(' ∉ s.toList := by
  intro hmem
  cases h _ hmem

/-- The imports of types are closed. -/
theorem leads_importLines (types : List String) {base : String} (hbase : IsPlainSource base)
    (package : Bool) : Leads (fileText (TypeText.importLines types base package)).toList [] [] := by
  refine leads_fileText_of_forall fun line hline => ?_
  obtain ⟨n, hn, rfl⟩ := List.mem_map.1 hline
  obtain ⟨t, -, ht⟩ := List.mem_flatMap.1 (List.mem_eraseDups.1 hn)
  have hword := TypeText.isWordChar_of_mem_names ht
  refine leads_import wordsLead.typeImport hword ?_
  split
  · exact hbase
  · exact (hbase.append (by decide)).append (isPlainSource_of_words hword)

theorem leads_importOf {name source : String} (hname : ∀ c ∈ name.toList, isWordChar c = true)
    (hsource : IsPlainSource source) :
    Leads ((importOf name source).toList ++ ['\n']) [] [] :=
  leads_import wordsLead.valueImport hname hsource

/-- The head of a generated function leads into its body. -/
theorem leads_functionHead {name : String} (hname : ∀ c ∈ name.toList, isWordChar c = true)
    (e : Endpoint) : Leads (("export function " ++ name ++ "(" ++ signature e ++ ") \x7b").toList ++
      ['\n']) [] [.body e.hasInput] := by
  have hopen : Leads "(".toList [.head] [.parameters (some []) false] := rfl
  have hbody : Leads [' ', '{', '\n'] [.result e.hasInput] [.body e.hasInput] := rfl
  simp only [String.toList_append, List.append_assoc]
  refine wordsLead.exportFunction.append ((leads_head (not_mem_of_words hname)).append
    (hopen.append ?_))
  simpa using (leads_signature e).append hbody

/-- The builder of an endpoint is closed. -/
theorem leads_builderLines (h : IsReadable e) {modelBase : String} (hbase : IsPlainSource modelBase)
    (package : Bool) : Leads (fileText (builderLines e modelBase package)).toList [] [] := by
  have hblank : ∀ lines : List String,
      Leads (fileText (if lines.isEmpty then [] else [""])).toList [] [] := by
    intro lines
    exact leads_fileText_ite (fun _ => leads_fileText_nil) fun _ =>
      leads_fileText_cons rfl leads_fileText_nil
  have hcomma : Leads [',', '\n'] [.bracket '}', .body e.hasInput] [.bracket '}', .body e.hasInput] :=
    rfl
  have hquote : Leads ['"', ',', '\n'] [.literal '"' false, .bracket '}', .body e.hasInput]
      [.bracket '}', .body e.hasInput] := rfl
  have hreturned : Leads ("  \x7d;".toList ++ ['\n']) [.bracket '}', .body e.hasInput]
      [.body e.hasInput] := rfl
  have hend : Leads (fileText ["  \x7d;", "\x7d"]).toList [.bracket '}', .body e.hasInput] [] :=
    leads_fileText_cons hreturned (leads_fileText_cons rfl leads_fileText_nil)
  have hname : IsPlainSource e.method := by
    obtain ⟨m, hm⟩ := h.method
    exact isPlainSource_of_words (hm ▸ forall_mem_name m)
  have hcode : isCode [.bracket '}', .body e.hasInput] = true := rfl
  have hdeclared : e.hasInput = true → declared [.bracket '}', .body e.hasInput] = true := by
    simp [Code.declared]
  have hmethodLine : Leads (("    method: \"" ++ e.method ++ "\",").toList ++ ['\n'])
      [.bracket '}', .body e.hasInput] [.bracket '}', .body e.hasInput] := by
    simpa using (wordsLead.method e.hasInput).append ((leads_literal hname).append hquote)
  have hpathLine : Leads (("    path: " ++ e.url false ++ ",").toList ++ ['\n'])
      [.bracket '}', .body e.hasInput] [.bracket '}', .body e.hasInput] := by
    simpa using (wordsLead.path e.hasInput).append
      ((leads_url hcode hdeclared h.path false).append hcomma)
  have hhead : Leads (fileText
      ["export function " ++ e.builderName ++ "(" ++ signature e ++ ") \x7b", "  return \x7b",
        "    method: \"" ++ e.method ++ "\",", "    path: " ++ e.url false ++ ","]).toList []
      [.bracket '}', .body e.hasInput] := by
    have h1 := leads_fileText_cons hpathLine leads_fileText_nil
    have h2 := leads_fileText_cons hmethodLine h1
    have h3 := leads_fileText_cons (wordsLead.returnObject _) h2
    have h4 := leads_fileText_cons (leads_functionHead h.built e) h3
    exact h4
  have hquery : Leads (fileText (fieldLine "query" (e.query? false))).toList
      [.bracket '}', .body e.hasInput] [.bracket '}', .body e.hasInput] :=
    leads_fieldLine (wordsLead.field _ _ (by simp)) hcomma fun q hq =>
      (leads_query hcode hdeclared hq).passes
  have hbody : Leads (fileText (fieldLine "body" (if e.hasInput then e.body? false else none))).toList
      [.bracket '}', .body e.hasInput] [.bracket '}', .body e.hasInput] := by
    refine leads_fieldLine (wordsLead.field e.hasInput "body" (by simp)) hcomma ?_
    intro b hb
    split at hb
    · exact passes_body hcode hdeclared hb
    · cases hb
  unfold builderLines
  extract_lets imports
  exact leads_fileText_append (leads_fileText_append (leads_fileText_append (leads_fileText_append
    (leads_fileText_append (leads_importLines _ hbase package) (hblank imports)) hhead) hquery) hbody)
    hend

/-- A comment on one line leads nowhere, in code and among the members of a class. -/
theorem leads_comment {front back : String} {opened : List Code.Place}
    (hfront : Leads front.toList places (.comment false :: opened))
    (hback : ∀ star, Leads (back.toList ++ ['\n']) (.comment star :: opened) next)
    (text : Option String) :
    Leads ((front ++ commentText text ++ back).toList ++ ['\n']) places next := by
  obtain ⟨star, hleads⟩ := @exists_leads_comment opened _ (not_infix_commentText text)
  rw [String.toList_append, String.toList_append, List.append_assoc, List.append_assoc]
  exact hfront.append (hleads.append (hback star))

theorem leads_functionComment (e : Endpoint) :
    Leads (fileText (functionComment e)).toList [] [] := by
  have hopen : Leads (fileText ["/**"]).toList [] [.comment false] :=
    leads_fileText_cons rfl leads_fileText_nil
  have hfront : Leads " * ".toList [.comment false] [.comment false] := rfl
  have hback : ∀ star, Leads ("".toList ++ ['\n']) [.comment star] [.comment false] := by
    rintro ⟨⟩ <;> rfl
  have hline : Leads ((" * " ++ commentText e.summary ++ "").toList ++ ['\n']) [.comment false]
      [.comment false] := leads_comment hfront hback e.summary
  have hsummary : Leads (fileText (if commentText e.summary = "" then []
      else [" * " ++ commentText e.summary])).toList [.comment false] [.comment false] := by
    rw [String.append_empty] at hline
    exact leads_fileText_ite (fun _ => leads_fileText_nil)
      fun _ => leads_fileText_cons hline leads_fileText_nil
  have hdeprecated : Leads (fileText (if e.deprecated then [" * @deprecated"] else [])).toList
      [.comment false] [.comment false] := by
    exact leads_fileText_ite (fun _ => leads_fileText_cons rfl leads_fileText_nil) fun _ =>
      leads_fileText_nil
  have hclose : Leads (fileText [" */"]).toList [.comment false] [] :=
    leads_fileText_cons rfl leads_fileText_nil
  have hcomment := leads_fileText_append
    (leads_fileText_append (leads_fileText_append hopen hsummary) hdeprecated) hclose
  unfold functionComment
  exact leads_fileText_ite (fun _ => leads_fileText_nil) fun _ => hcomment

/-- A client that stands in code as what it is: its imports are closed, and the expression that gets
it does without the argument. -/
structure IsPlainClient (client : Import.Client) : Prop where
  lines : ∀ line ∈ client.lines, Leads (line.toList ++ ['\n']) [] []
  call : ∀ d, Passes client.call.toList [.body d]

theorem isPlainClient_clientLines {name types source : String}
    (hname : ∀ c ∈ name.toList, isWordChar c = true)
    (hargument : name.toList ≠ argument) (hkey : keyword? name.toList = none)
    (htypes : IsPlainSource types) (hsource : IsPlainSource source) :
    IsPlainClient ⟨Import.clientLines name types source, name ++ "()"⟩ where
  lines := by
    have htypesLine := @leads_import _ "PerCallOptions" _ wordsLead.typeImport
      (List.all_eq_true.1 (by decide)) htypes
    simp only [Import.clientLines, List.forall_mem_cons]
    refine ⟨?_, ?_, by simp⟩
    · simpa using htypesLine
    · exact leads_importOf hname hsource
  call := by
    intro d
    have hcalled : Leads "()".toList [.body d] [.body d] := rfl
    rw [String.toList_append]
    refine (passes_word rfl hname (fun h => absurd h hargument) hkey).append hcalled.passes ?_
    simp [isWordChar]

theorem passes_builderArguments (hcode : isCode places = true)
    (hdeclared : e.hasInput = true → declared places = true) :
    Passes (builderArguments e).toList places := by
  unfold builderArguments
  split
  · next hinput => exact passes_argument hcode (hdeclared hinput)
  · exact (Leads.nil places).passes

theorem passes_callOptions (e : Endpoint) (d : Bool) :
    Passes e.callOptions.toList [.bracket ')', .body d] := by
  unfold callOptions
  split
  · exact (wordsLead.skipped d).passes
  · have hne : "options".toList ≠ argument := by decide
    exact passes_word rfl (List.all_eq_true.1 (by decide)) (fun h => absurd h hne) (by decide)

/-- The line that hands a request to the client. -/
theorem leads_callLine (h : IsReadable e) {client : Import.Client} (hclient : IsPlainClient client) :
    Leads (("  return " ++ client.call ++ ".execute<" ++ e.outputType ++ ">("
      ++ e.builderName ++ "(" ++ builderArguments e ++ "), " ++ e.callOptions ++ ");").toList
      ++ ['\n']) [.body e.hasInput] [.body e.hasInput] := by
  have hopen : Leads ">(".toList [.type '>', .body e.hasInput] [.bracket ')', .body e.hasInput] := rfl
  have hcalled : Leads (client.call.toList ++ ".execute<".toList) [.body e.hasInput]
      [.type '>', .body e.hasInput] :=
      (hclient.call e.hasInput).leads (by decide) (wordsLead.execute _)
  have hbuilder : Leads (e.builderName.toList ++ ['(']) [.bracket ')', .body e.hasInput]
      [.bracket ')', .bracket ')', .body e.hasInput] :=
    (passes_word rfl h.built (fun harg => absurd harg h.apart.1) h.apart.2).leads (by decide)
      rfl
  have harguments : Leads ((builderArguments e).toList ++ [')', ',', ' '])
      [.bracket ')', .bracket ')', .body e.hasInput] [.bracket ')', .body e.hasInput] :=
    (passes_builderArguments rfl (by simp [Code.declared])).leads (by decide) rfl
  have hoptions : Leads (e.callOptions.toList ++ [')', ';', '\n']) [.bracket ')', .body e.hasInput]
      [.body e.hasInput] := (passes_callOptions e e.hasInput).leads (by decide) rfl
  have hline := (wordsLead.returnCall e.hasInput).append (hcalled.append
    ((leads_normalize e.outputTypeName).append (hopen.append (hbuilder.append
      (harguments.append hoptions)))))
  simpa [Endpoint.outputType] using hline

/-- The call function of an endpoint is closed. -/
theorem leads_functionLines (h : IsReadable e) {client : Import.Client} (hclient : IsPlainClient client)
    {builder modelBase : String} (hbuilder : IsPlainSource builder)
    (hbase : IsPlainSource modelBase) (package : Bool) :
    Leads (fileText (functionLines e client builder modelBase package)).toList [] [] := by
  have hblank : Leads (fileText [""]).toList [] [] := leads_fileText_cons rfl leads_fileText_nil
  have himports : Leads (fileText (client.lines ++ [importOf e.builderName builder]
      ++ TypeText.importLines e.mentionedTypes modelBase package ++ [""] ++ functionComment e)).toList
      [] [] :=
    leads_fileText_append (leads_fileText_append (leads_fileText_append (leads_fileText_append
      (leads_fileText_of_forall hclient.lines)
      (leads_fileText_cons (leads_importOf h.built hbuilder) leads_fileText_nil))
      (leads_importLines _ hbase package)) hblank) (leads_functionComment e)
  have hhead : Leads (fileText ["export async function " ++ e.exportName ++ "("]).toList []
      [.parameters (some []) false] := by
    have hopen : Leads ("(".toList ++ ['\n']) [.head] [.parameters (some []) false] := rfl
    have hline := wordsLead.exportAsync.append ((leads_head (not_mem_of_words h.exported)).append hopen)
    exact leads_fileText_cons (by simpa using hline) leads_fileText_nil
  have hinput : Leads (fileText
      (if e.hasInput then ["  input: " ++ e.inputType ++ ","] else [])).toList
      [.parameters (some []) false] [.parameters (some []) e.hasInput] := by
    refine leads_fileText_ite (fun hinput => ?_) fun hinput => ?_
    · obtain ⟨name, hleads⟩ := @exists_leads_parameters [] none e.declaredInput
      have hcomma : Leads [',', '\n'] [.parameters name true] [.parameters (some []) true] :=
        .cons (step_comma name) rfl
      have hline : Leads (("  input: " ++ e.inputType ++ ",").toList ++ ['\n'])
          [.parameters (some []) false] [.parameters (some []) true] := by
        simpa [Endpoint.inputType] using wordsLead.typedInput.append (hleads.append hcomma)
      rw [hinput]
      exact leads_fileText_cons hline leads_fileText_nil
    · rw [Bool.not_eq_true] at hinput
      rw [hinput]
      exact leads_fileText_nil
  have hresult : Leads (("): Promise<" ++ e.outputType ++ "> \x7b").toList ++ ['\n'])
      [.parameters none e.hasInput] [.body e.hasInput] := by
    have hclose : Leads ("> \x7b".toList ++ ['\n']) [.type '>', .result e.hasInput]
        [.body e.hasInput] := rfl
    have hline := (wordsLead.promise e.hasInput).append
      ((leads_normalize e.outputTypeName).append hclose)
    simpa [Endpoint.outputType] using hline
  have hcall := leads_callLine h hclient
  have hend : Leads (fileText ["\x7d"]).toList [.body e.hasInput] [] :=
    leads_fileText_cons rfl leads_fileText_nil
  have hbody := leads_fileText_cons (wordsLead.options e.hasInput)
    (leads_fileText_cons hresult (leads_fileText_cons hcall hend))
  unfold functionLines
  exact leads_fileText_append (leads_fileText_append (leads_fileText_append himports hhead) hinput)
    hbody

/-- The settings of a call lead nowhere. -/
theorem leads_callSettings (hcode : isCode places = true)
    (hdeclared : e.hasInput = true → declared places = true) {settings : String}
    (h : callSettings? e = some settings) : Leads settings.toList places places := by
  obtain ⟨q, hq, rfl⟩ := Option.map_eq_some_iff.1 h
  have hopen : Leads "\x7b params: ".toList places (.bracket '}' :: places) := by
    obtain rfl | ⟨outer, rfl | rfl | rfl | ⟨declares, rfl⟩ | rfl⟩ := isCode_cases hcode <;> rfl
  have hinside : e.hasInput = true → declared (.bracket '}' :: places) = true := hdeclared
  have hquery : Leads q.toList (.bracket '}' :: places) (.bracket '}' :: places) :=
    leads_query rfl hinside hq
  rw [String.toList_append, String.toList_append, List.append_assoc]
  exact hopen.append (hquery.append rfl)

/-- The arguments of a call pass. -/
theorem passes_callArguments (hcode : isCode places = true)
    (hdeclared : e.hasInput = true → declared places = true) (hpath : KeepsPath e)
    (style : CallStyle) : ∀ t ∈ callArguments style e, Passes t.toList places := by
  have hurl := (leads_url hcode hdeclared hpath false).passes
  have hsettings : ∀ t ∈ (callSettings? e).toList, Passes t.toList places := fun t ht =>
    (leads_callSettings hcode hdeclared (Option.mem_toList.1 ht)).passes
  have hbody : ∀ t ∈ (e.body? false).toList, Passes t.toList places := fun t ht =>
    passes_body hcode hdeclared (Option.mem_toList.1 ht)
  have hnull : Passes "null".toList places := by
    have hne : "null".toList ≠ argument := by decide
    exact passes_word hcode (List.all_eq_true.1 (by decide)) (fun h => absurd h hne) (by decide)
  have hplace : Passes (nonEmptyOr "null" ((e.body? false).getD "")).toList places := by
    unfold nonEmptyOr
    split
    · exact hnull
    · next hne =>
      cases hb : e.body? false with
      | none => simp [hb] at hne
      | some b => exact hbody b (by simp [hb])
  unfold callArguments
  cases style with
  | compact =>
    simp only [List.cons_append, List.forall_mem_cons, List.forall_mem_append]
    exact ⟨hurl, hbody, hsettings⟩
  | positional =>
    dsimp only
    split
    · simp only [List.cons_append, List.forall_mem_cons, List.forall_mem_append]
      refine ⟨hurl, ?_, hsettings⟩
      split
      · exact hbody
      · exact List.forall_mem_singleton.2 hplace
    · exact List.forall_mem_cons.2 ⟨hurl, hsettings⟩

theorem lower_name (m : Method) : (Text.lower m.name).toList ≠ [] ∧
    ∀ c ∈ (Text.lower m.name).toList, isWordChar c = true := by
  cases m <;> exact ⟨by decide, List.all_eq_true.1 (by decide)⟩

/-- The call that a method returns leads nowhere. -/
theorem leads_serviceCall (h : IsReadable e) (style : CallStyle) :
    Leads (("    return " ++ serviceCall style e ++ ";").toList ++ ['\n'])
      [.body e.hasInput, .members] [.body e.hasInput, .members] := by
  have hopen : Leads ">(".toList [.type '>', .body e.hasInput, .members]
      [.bracket ')', .body e.hasInput, .members] := rfl
  have hmethod : Leads ((Text.lower e.method).toList ++ ['<']) [.dot false, .body e.hasInput, .members]
      [.type '>', .body e.hasInput, .members] := by
    obtain ⟨m, hm⟩ := h.method
    obtain ⟨hne, hword⟩ := lower_name m
    rw [hm]
    exact (read_member rfl hword hne [] (by decide)).trans rfl
  have harguments : Leads (List.intercalate [',', ' '] ((callArguments style e).map String.toList) ++
      [')', ';', '\n']) [.bracket ')', .body e.hasInput, .members] [.body e.hasInput, .members] := by
    have hcomma : Leads [',', ' '] [.bracket ')', .body e.hasInput, .members]
        [.bracket ')', .body e.hasInput, .members] := rfl
    refine (passes_intercalate (by decide) hcomma ?_).leads (by decide) rfl
    refine List.forall_mem_map.2 (passes_callArguments rfl ?_ h.path style)
    simp [Code.declared]
  have hline := (wordsLead.returnMethod e.hasInput).append (hmethod.append
    ((leads_normalize e.outputTypeName).append (hopen.append harguments)))
  have hsep : ", ".toList = [',', ' '] := by decide
  simpa [serviceCall, Endpoint.outputType, String.toList_intercalate] using hline

/-- A method of a class leads nowhere among its members. -/
theorem leads_methodLines (h : IsReadable e) (style : CallStyle) {name : String}
    (hname : ∀ c ∈ name.toList, isWordChar c = true) :
    Leads (fileText (methodLines style name e)).toList [.members] [.members] := by
  have hcomment : Leads (fileText (if commentText e.summary = "" then []
      else ["  /** " ++ commentText e.summary ++ " */"])).toList [.members] [.members] := by
    have hfront : Leads "  /** ".toList [.members] [.comment false, .members] := rfl
    have hback : ∀ star, Leads (" */".toList ++ ['\n']) [.comment star, .members] [.members] := by
      rintro ⟨⟩ <;> rfl
    exact leads_fileText_ite (fun _ => leads_fileText_nil) fun _ =>
      leads_fileText_cons (leads_comment hfront hback e.summary) leads_fileText_nil
  have hhead : Leads (("  " ++ name ++ "(" ++ signature e ++ ") \x7b").toList ++ ['\n']) [.members]
      [.body e.hasInput, .members] := by
    have hindent : Leads "  ".toList [.members] [.members] := rfl
    have hopen : Leads ['('] [.members] [.parameters (some []) false, .members] := rfl
    have hbody : Leads [' ', '{', '\n'] [.result e.hasInput, .members] [.body e.hasInput, .members] :=
      rfl
    have hline := hindent.append ((leads_members hname).append (hopen.append
      ((leads_signature e).append hbody)))
    simpa using hline
  have hend : Leads (fileText ["  \x7d"]).toList [.body e.hasInput, .members] [.members] :=
    leads_fileText_cons rfl leads_fileText_nil
  exact leads_fileText_append hcomment (leads_fileText_cons hhead
    (leads_fileText_cons (leads_serviceCall h style) hend))

theorem isWordChar_pascal (s : String) : ∀ c ∈ (Naming.pascal s).toList, isWordChar c = true := by
  intro c hc
  have hchar := isWordText_pascal s c hc
  rw [Naming.isWordChar_eq_isAlphanum] at hchar
  simp [isWordChar, hchar]

theorem isWordChar_nonEmptyOr {default text : String}
    (hdefault : ∀ c ∈ default.toList, isWordChar c = true)
    (htext : ∀ c ∈ text.toList, isWordChar c = true) :
    ∀ c ∈ (nonEmptyOr default text).toList, isWordChar c = true := by
  unfold nonEmptyOr
  split
  · exact hdefault
  · exact htext

theorem isWordChar_className (group : String) :
    ∀ c ∈ (className group).toList, isWordChar c = true := by
  rw [className, String.toList_append, List.forall_mem_append]
  exact ⟨isWordChar_nonEmptyOr (List.all_eq_true.1 (by decide)) (isWordChar_pascal group),
    List.all_eq_true.1 (by decide)⟩

/-- The methods of a class lead nowhere among its members. -/
theorem leads_methodsLines (style : CallStyle) {named : List (String × Endpoint)}
    (h : ∀ p ∈ named, (∀ c ∈ p.1.toList, isWordChar c = true) ∧ IsReadable p.2) :
    Leads (fileText (methodsLines style named)).toList [.members] [.members] := by
  have hblank : Leads (fileText [""]).toList [.members] [.members] :=
    leads_fileText_cons rfl leads_fileText_nil
  unfold methodsLines
  induction named with
  | nil => exact leads_fileText_nil
  | cons p named ih =>
    obtain ⟨⟨hname, hreadable⟩, hnamed⟩ := List.forall_mem_cons.1 h
    have hmethod := leads_methodLines hreadable style hname
    cases named with
    | nil => simpa using hmethod
    | cons q named =>
      rw [List.map_cons, List.map_cons, List.intercalate_cons_cons]
      exact leads_fileText_append (leads_fileText_append hmethod hblank) (ih hnamed)

/-- The class of a group is closed. -/
theorem leads_classLines (style : CallStyle) (group : String) {es : List Endpoint}
    (h : ∀ e ∈ es, IsReadable e) {modelBase : String} (hbase : IsPlainSource modelBase)
    (package : Bool) : Leads (fileText (classLines style group es modelBase package)).toList [] [] := by
  have himports : Leads (fileText [importOf "singleton" "tsyringe",
      importOf "BaseService" "./BaseService"]).toList [] [] :=
    leads_fileText_cons (leads_importOf (List.all_eq_true.1 (by decide)) (by decide))
      (leads_fileText_cons (leads_importOf (List.all_eq_true.1 (by decide)) (by decide))
        leads_fileText_nil)
  have hclass : Leads (("export class " ++ className group ++ " extends BaseService \x7b").toList ++
      ['\n']) [] [.members] := by
    have hname : '{' ∉ (className group).toList := by
      intro hmem
      cases isWordChar_className group _ hmem
    rw [String.toList_append, String.toList_append, List.append_assoc, List.append_assoc]
    exact wordsLead.exportClass.append ((leads_classHead hname).append wordsLead.extending)
  have hmethods : Leads (fileText (methodsLines style ((methodNames es).zip es))).toList [.members]
      [.members] := by
    refine leads_methodsLines style fun p hp => ?_
    obtain ⟨hname, he⟩ := List.of_mem_zip hp
    refine ⟨?_, h p.2 he⟩
    refine Naming.forall_mem_uniqueNames (p := fun s => ∀ c ∈ s.toList, isWordChar c = true) ?_ ?_ []
      p.1 hname
    · intro s n hs
      rw [String.toList_append, List.forall_mem_append]
      refine ⟨hs, fun c hc => ?_⟩
      have hdigit := Naming.isDigit_of_mem_toString hc
      simp [isWordChar, Char.isAlphanum, hdigit]
    · intro s hs
      obtain ⟨e, -, rfl⟩ := List.mem_map.1 hs
      exact isWordChar_nonEmptyOr (List.all_eq_true.1 (by decide)) (isWordChar_pascal _)
  have hend : Leads (fileText ["\x7d"]).toList [.members] [] :=
    leads_fileText_cons rfl leads_fileText_nil
  have hhead : Leads (fileText ["", "@singleton()", "export class " ++ className group ++
      " extends BaseService \x7b"]).toList [] [.members] :=
    leads_fileText_cons rfl (leads_fileText_cons wordsLead.singleton
      (leads_fileText_cons hclass leads_fileText_nil))
  unfold classLines
  exact leads_fileText_append (leads_fileText_append (leads_fileText_append
    (leads_fileText_append himports (leads_importLines _ hbase package)) hhead) hmethods) hend

/-- The settings of a request pass. -/
theorem passes_requestSettings (h : IsReadable e) : ∀ t ∈ requestSettings e,
    Passes t.toList [.bracket '}', .bracket ')', .body e.hasInput] := by
  have hcode : isCode [.bracket '}', .bracket ')', .body e.hasInput] = true := rfl
  have hdeclared : e.hasInput = true →
      declared [.bracket '}', .bracket ')', .body e.hasInput] = true := by simp [Code.declared]
  have hclose : Leads "\"".toList [.literal '"' false, .bracket '}', .bracket ')', .body e.hasInput]
      [.bracket '}', .bracket ')', .body e.hasInput] := rfl
  have hurl := (wordsLead.requestField e.hasInput "url: " (by decide)).append
    (leads_url hcode hdeclared h.path true)
  have hmethod : Leads ("method: \"" ++ Text.lower e.method ++ "\"").toList
      [.bracket '}', .bracket ')', .body e.hasInput]
      [.bracket '}', .bracket ')', .body e.hasInput] := by
    obtain ⟨m, hm⟩ := h.method
    have hplain := isPlainSource_of_words (hm ▸ (lower_name m).2)
    rw [String.toList_append, String.toList_append, List.append_assoc]
    exact (wordsLead.requestMethod _).append ((leads_literal hplain).append hclose)
  simp only [requestSettings, List.cons_append, List.nil_append, List.forall_mem_cons,
    List.forall_mem_append]
  refine ⟨?_, hmethod.passes, ?_, ?_⟩
  · rw [String.toList_append]
    exact hurl.passes
  · intro t ht
    obtain ⟨b, hb, rfl⟩ := Option.map_eq_some_iff.1 (Option.mem_toList.1 ht)
    rw [String.toList_append]
    exact (wordsLead.requestField e.hasInput "data: " (by decide)).append_passes
      (passes_body hcode hdeclared hb)
  · intro t ht
    obtain ⟨q, hq, rfl⟩ := Option.map_eq_some_iff.1 (Option.mem_toList.1 ht)
    rw [String.toList_append]
    exact ((wordsLead.requestField e.hasInput "params: " (by decide)).append
      (leads_query hcode hdeclared hq)).passes

/-- The function of an endpoint in the script is closed. -/
theorem leads_scriptFunction (h : IsReadable e) : Leads (fileText (scriptFunction e)).toList [] [] := by
  have hblank : Leads (fileText [""]).toList [] [] := leads_fileText_cons rfl leads_fileText_nil
  have hcomment : Leads (fileText (if commentText e.summary = "" then []
      else ["/** " ++ commentText e.summary ++ " */"])).toList [] [] := by
    have hfront : Leads "/** ".toList [] [.comment false] := rfl
    have hback : ∀ star, Leads (" */".toList ++ ['\n']) [.comment star] [] := by
      rintro ⟨⟩ <;> rfl
    exact leads_fileText_ite (fun _ => leads_fileText_nil) fun _ =>
      leads_fileText_cons (leads_comment hfront hback e.summary) leads_fileText_nil
  have hhead : Leads (("export function " ++ e.exportName ++ "(" ++ builderArguments e ++
      ") \x7b").toList ++ ['\n']) [] [.body e.hasInput] := by
    have hopen : Leads ['('] [.head] [.parameters (some []) false] := rfl
    have hnone : Leads ") \x7b\n".toList [.parameters (some []) false] [.body false] := rfl
    have harguments : Leads ((builderArguments e).toList ++ ") \x7b\n".toList)
        [.parameters (some []) false] [.body e.hasInput] := by
      unfold builderArguments
      cases e.hasInput
      · simpa using hnone
      · simpa using wordsLead.onlyInput
    have hline := wordsLead.exportFunction.append ((leads_head (not_mem_of_words h.exported)).append
      (hopen.append harguments))
    simpa using hline
  have hsettings : Leads (("    " ++ ",\n    ".intercalate (requestSettings e)).toList ++ ['\n'])
      [.bracket '}', .bracket ')', .body e.hasInput]
      [.bracket '}', .bracket ')', .body e.hasInput] := by
    have hindent : Leads "    ".toList [.bracket '}', .bracket ')', .body e.hasInput]
        [.bracket '}', .bracket ')', .body e.hasInput] := rfl
    have hsep : Leads ",\n    ".toList [.bracket '}', .bracket ')', .body e.hasInput]
        [.bracket '}', .bracket ')', .body e.hasInput] := rfl
    have hrow := passes_intercalate (c := ',') (by decide) hsep
      (List.forall_mem_map.2 (passes_requestSettings h))
    rw [String.toList_append, String.toList_intercalate, List.append_assoc]
    exact hindent.append (hrow.leads (by decide) rfl)
  have hreturned : Leads ("  \x7d);".toList ++ ['\n']) [.bracket '}', .bracket ')', .body e.hasInput]
      [.body e.hasInput] := rfl
  have hend : Leads (fileText ["  \x7d);", "\x7d"]).toList
      [.bracket '}', .bracket ')', .body e.hasInput] [] :=
    leads_fileText_cons hreturned (leads_fileText_cons rfl leads_fileText_nil)
  have hfunction := leads_fileText_cons hhead (leads_fileText_cons (wordsLead.returnRequest _)
    (leads_fileText_cons hsettings hend))
  unfold scriptFunction
  exact leads_fileText_append (leads_fileText_append hblank hcomment) hfunction

/-- What stands in the code of all endpoints as what it is: the client, and the sources of types. -/
structure HasPlainImports (a : Api) : Prop where
  client : IsPlainClient (Import.client a.clientImport)
  models : ∀ path, IsPlainSource (a.modelBase path)

/-- The names of the renderers that plan functions of one argument. -/
def inputRenderers : List String := ["functions", "axios-ts", "uniapp", "axios-js"]

theorem isClosed_script {a : Api} (h : ∀ e ∈ a.endpoints, IsReadable e) {f : PlannedFile}
    (hf : f ∈ (script a).files) : IsClosed f.content := by
  obtain rfl := List.mem_singleton.1 hf
  refine leads_fileText_cons wordsLead.clientImport ?_
  generalize a.endpoints = es at h
  induction es with
  | nil => exact leads_fileText_nil
  | cons e es ih =>
    obtain ⟨he, hes⟩ := List.forall_mem_cons.1 h
    rw [List.flatMap_cons]
    exact leads_fileText_append (leads_scriptFunction he) (ih hes)

theorem isClosed_builderFile {a : Api} {e : Endpoint} (h : IsReadable e) (himports : HasPlainImports a)
    (path : String) : IsClosed (builderFile a e path).content := by
  simp only [builderFile, isClosed_iff_leads]
  exact leads_builderLines h (himports.models path) (Import.fromPackage a.modelImport)

theorem isClosed_functionFile {a : Api} {e : Endpoint} (h : IsReadable e)
    (himports : HasPlainImports a) (path : String) {builder : String}
    (hbuilder : IsPlainSource builder) : IsClosed (functionFile a e path builder).content :=
  leads_functionLines h himports.client (isPlainSource_builderSource hbuilder path)
    (himports.models path) (Import.fromPackage a.modelImport)

theorem isClosed_classFile {a : Api} (style : CallStyle) (group : String) {es : List Endpoint}
    (h : ∀ e ∈ es, IsReadable e) (himports : HasPlainImports a) :
    IsClosed (classFile style a group es).content :=
  leads_classLines style group h (himports.models (className group ++ ".ts"))
    (Import.fromPackage a.modelImport)

/-- The files of a document with readable endpoints are closed. -/
theorem isClosed_of_mem_render {a : Api} (hreadable : ∀ e ∈ a.endpoints, IsReadable e)
    (himports : HasPlainImports a)
    (hpaths : ∀ e ∈ a.endpoints, IsPlainSource (builderPath e (stem a.endpoints e)))
    {id : String} (hid : id ∈ inputRenderers) {r : Renderer}
    (hr : Registry.builtin.create id = .ok r) {f : PlannedFile} (hf : f ∈ (r.render a).files) :
    IsClosed f.content := by
  have hservices : ∀ style, f ∈ (services style a).files → IsClosed f.content := by
    intro style hf
    obtain ⟨g, hg, rfl⟩ := List.mem_map.1 hf
    refine isClosed_classFile style g.1 (fun e he => ?_) himports
    rw [(areGroupsOf_groups a.endpoints).members g hg] at he
    exact hreadable e (List.mem_filter.1 he).1
  have hfunctions : f ∈ a.endpoints.flatMap (functionFiles a) → IsClosed f.content := by
    intro hf
    obtain ⟨e, he, hf⟩ := List.mem_flatMap.1 hf
    rcases List.mem_pair.1 hf with rfl | rfl
    · exact isClosed_builderFile (hreadable e he) himports _
    · exact isClosed_functionFile (hreadable e he) himports _ (hpaths e he)
  simp only [inputRenderers, List.mem_cons, List.not_mem_nil, or_false] at hid
  rcases hid with rfl | rfl | rfl | rfl
  · cases hr
    exact hfunctions hf
  · cases hr
    exact hservices .positional hf
  · cases hr
    exact hservices .compact hf
  · cases hr
    exact isClosed_script hreadable hf

end Render
end ApiScribe
