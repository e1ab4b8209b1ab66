import ApiScribe.Proofs.Endpoint.Slots
import ApiScribe.Proofs.Endpoint.Url
import ApiScribe.Proofs.Entries
import ApiScribe.Proofs.Naming.Unique
import ApiScribe.Proofs.Text.Standing
import ApiScribe.Render.Functions
import ApiScribe.Render.Services

/-! Requests in generated code. Four dialects write the same request in their own places. Each of
them writes the expression for every path field, every query field and the body, except that
positional calls have a place for a body only behind the methods that take one. -/
namespace ApiScribe

namespace Endpoint

/-- What stands in a text stands behind a front in which it cannot start. -/
theorem infix_of_infix_append {p : Char} {ps as bs : List Char} (h : p ∉ as)
    (hin : p :: ps <:+: as ++ bs) : p :: ps <:+: bs := by
  induction as with
  | nil => exact hin
  | cons a as ih =>
    rw [List.mem_cons, not_or] at h
    rcases List.infix_cons_iff.1 hin with hstart | hrest
    · exact absurd (List.cons_prefix_cons.1 hstart).1 h.1
    · exact ih h.2 hrest

/-- A mark in a path is a piece of it. -/
theorem field_mem_pieces {fields : List String} (hplain : ∀ f ∈ fields, IsPlainName f.toList)
    {f : String} (hf : f ∈ fields) {cs : List Char} (h : (placeholder f).toList <:+: cs) :
    .field f ∈ piecesFrom fields 0 cs := by
  induction cs using pieces_induction fields with
  | nil =>
    rw [placeholder_toList] at h
    cases List.infix_nil.1 h
  | field g hg rest ih =>
    rw [pieces_placeholder hplain hg]
    rcases List.infix_cons_iff.1 (placeholder_toList g ▸ h) with hstart | hrest
    · have hmark : Text.startsWith (placeholder f).toList
          ((placeholder g).toList ++ rest) = true := by
        rw [Text.startsWith_iff, placeholder_toList g]
        exact hstart
      rw [eq_of_startsWith_placeholder (hplain f hf) (hplain g hg) hmark]
      exact List.mem_cons_self
    · have hopen : '{' ∉ g.toList ++ ['}'] := by
        simpa using (hplain g hg).open_not_mem
      rw [placeholder_toList f] at hrest ih
      exact List.mem_cons_of_mem _ (ih (infix_of_infix_append hopen hrest))
  | char c cs hnone ih =>
    rw [pieces_char hnone]
    rcases List.infix_cons_iff.1 h with hstart | hrest
    · have hmark := hnone f hf
      rw [Text.startsWith_iff.2 hstart] at hmark
      cases hmark
    · exact List.mem_cons_of_mem _ (ih hrest)

/-- The substitution for a field of the path stands in the path of the request. -/
theorem substitution_standsIn_url {e : Endpoint} {guarded : Bool} (hinput : e.hasInput = true)
    (hmarks : e.HasMarks guarded) {f : String} (hf : f ∈ e.pathFields)
    (hpath : StandsIn (placeholder f) e.path) :
    StandsIn ("$" ++ placeholder (e.accessor f guarded)) (e.url guarded) := by
  have hpiece : .field f ∈ e.pieces := field_mem_pieces hmarks.plain hf hpath
  have htext : ("$" ++ placeholder (e.accessor f guarded)).toList =
      Piece.text (e.accessor · guarded) (.field f) := by
    rw [String.toList_append, placeholder_toList]
    rfl
  rw [StandsIn, htext, url_eq_texts (List.ne_nil_of_mem hf) hinput hmarks]
  exact List.IsInfix.trans (List.infix_of_mem_flatten (List.mem_map_of_mem hpiece))
    ⟨['\x60'], ['\x60'], rfl⟩

/-- The entry for a field of the query stands in the object of the query. -/
theorem exists_query_of_mem {e : Endpoint} (guarded : Bool) (hinput : e.hasInput = true)
    {f : String} (hf : f ∈ e.queryFields) :
    ∃ q, e.query? guarded = some q ∧
      StandsIn (objectKey f ++ ": " ++ e.accessor f guarded) q := by
  have hmem : objectKey f ++ ": " ++ e.accessor f guarded ∈
      e.queryFields.map fun f => objectKey f ++ ": " ++ e.accessor f guarded :=
    List.mem_map_of_mem hf
  refine ⟨_, if_neg (by simp [hinput, List.ne_nil_of_mem hf]), ?_⟩
  exact ((standsIn_intercalate ", " hmem).append_left _).append_right _

theorem body?_eq {e : Endpoint} (guarded : Bool) (hinput : e.hasInput = true) :
    e.body? guarded = e.requestBodyField.map (e.accessor · guarded) := by
  simp [body?, hinput]

/-- An expression for a field starts with the argument. -/
theorem head?_accessor (e : Endpoint) (f : String) (guarded : Bool) :
    (e.accessor f guarded).toList.head? = some 'i' := by
  unfold accessor
  repeat' split
  all_goals simp

theorem accessor_ne_empty (e : Endpoint) (f : String) (guarded : Bool) :
    e.accessor f guarded ≠ "" := by
  intro hempty
  have hfirst := e.head?_accessor f guarded
  rw [hempty] at hfirst
  cases hfirst

/-- The path of a request starts with a quote. -/
theorem head?_url_ne (e : Endpoint) (guarded : Bool) :
    (e.url guarded).toList.head? ≠ some 'i' := by
  unfold url
  split
  · simp [Json.quoted, Json.quotedChars]
  · simp

end Endpoint

namespace Render

/-- A dialect of requests: what it plans, whether the input may be absent, the parts of a request
(lines, arguments or settings) and the text they stand in, and how the path, the query and the body
are written as parts. -/
structure Dialect where
  output : Api → RenderOutput
  guarded : Bool
  parts : Api → Endpoint → List String
  text : Api → Endpoint → String
  path : String → String
  query : String → String
  body : String → String

namespace Dialect

/-- The lines of the builder of an endpoint in its file. -/
def ownLines (a : Api) (e : Endpoint) : List String :=
  builderLines e (a.modelBase (builderPath e (Endpoint.stem a.endpoints e)))
    (Import.fromPackage a.modelImport)

/-- Descriptions of requests. -/
def builder : Dialect where
  output := functions
  guarded := false
  parts := ownLines
  text a e := fileText (ownLines a e)
  path t := "    path: " ++ t ++ ","
  query t := "    query: " ++ t ++ ","
  body t := "    body: " ++ t ++ ","

/-- Calls in methods of service classes. -/
def service (style : CallStyle) : Dialect where
  output := services style
  guarded := false
  parts _ e := callArguments style e
  text _ e := serviceCall style e
  path t := t
  query t := "\x7b params: " ++ t ++ " \x7d"
  body t := t

/-- Settings of requests in a script. -/
def script : Dialect where
  output := Render.script
  guarded := true
  parts _ e := requestSettings e
  text _ e := ",\n    ".intercalate (requestSettings e)
  path t := "url: " ++ t
  query t := "params: " ++ t
  body t := "data: " ++ t

/-- The request of an endpoint is planned, and carries the fields of its path and its query. -/
structure CarriesFields (d : Dialect) (a : Api) (e : Endpoint) : Prop where
  planned : ∃ file ∈ (d.output a).files, StandsIn (d.text a e) file.content
  parts : ∀ part ∈ d.parts a e, StandsIn part (d.text a e)
  url : d.path (e.url d.guarded) ∈ d.parts a e
  path : ∀ f ∈ e.pathFields,
    StandsIn ("$" ++ Endpoint.placeholder (e.accessor f d.guarded)) (e.url d.guarded)
  query : ∀ f ∈ e.queryFields, ∃ q, d.query q ∈ d.parts a e ∧
    StandsIn (Endpoint.objectKey f ++ ": " ++ e.accessor f d.guarded) q

/-- The request of an endpoint carries the body, if there is one. -/
def CarriesBody (d : Dialect) (a : Api) (e : Endpoint) : Prop :=
  ∀ b ∈ e.requestBodyField, d.body (e.accessor b d.guarded) ∈ d.parts a e

section
variable {a : Api} {e : Endpoint}

/-- A dialect carries the fields if it plans the request and has a place for the path and the
query. -/
theorem carriesFields_of_parts {d : Dialect} (hinput : e.hasInput = true)
    (hpath : ∀ f ∈ e.pathFields, StandsIn (Endpoint.placeholder f) e.path)
    (hmarks : e.HasMarks d.guarded)
    (hplanned : ∃ file ∈ (d.output a).files, StandsIn (d.text a e) file.content)
    (hparts : ∀ part ∈ d.parts a e, StandsIn part (d.text a e))
    (hurl : d.path (e.url d.guarded) ∈ d.parts a e)
    (hquery : ∀ q ∈ e.query? d.guarded, q ≠ "" → d.query q ∈ d.parts a e) :
    d.CarriesFields a e where
  planned := hplanned
  parts := hparts
  url := hurl
  path f hf := Endpoint.substitution_standsIn_url hinput hmarks hf (hpath f hf)
  query f hf := by
    obtain ⟨q, hq, hentry⟩ := Endpoint.exists_query_of_mem d.guarded hinput hf
    refine ⟨q, hquery q hq ?_, hentry⟩
    rintro rfl
    simpa using List.infix_nil.1 hentry

end

end Dialect

namespace Dialect
variable {a : Api} {e : Endpoint}

theorem mem_ownLines {line : String}
    (h : line = "    path: " ++ e.url false ++ "," ∨ line ∈ fieldLine "query" (e.query? false) ∨
      line ∈ fieldLine "body" (if e.hasInput then e.body? false else none)) :
    line ∈ ownLines a e := by
  unfold ownLines builderLines
  extract_lets imports
  simp only [List.mem_append]
  rcases h with rfl | h | h
  · exact .inl (.inl (.inl (.inr (by simp))))
  · exact .inl (.inl (.inr h))
  · exact .inl (.inr h)

theorem builder_carries (he : e ∈ a.endpoints) (hinput : e.hasInput = true)
    (hpath : ∀ f ∈ e.pathFields, StandsIn (Endpoint.placeholder f) e.path)
    (hmarks : e.HasMarks false) : builder.CarriesFields a e ∧ builder.CarriesBody a e := by
  unfold builder
  refine ⟨carriesFields_of_parts hinput hpath hmarks ?_ ?_ ?_ ?_, ?_⟩
  · refine ⟨builderFile a e (builderPath e (Endpoint.stem a.endpoints e)), ?_, StandsIn.refl _⟩
    exact List.mem_flatMap.2 ⟨e, he, List.mem_cons_self⟩
  · intro part hpart
    dsimp only at hpart ⊢
    exact standsIn_fileText hpart
  · exact mem_ownLines (.inl rfl)
  · intro q hq hne
    exact mem_ownLines (.inr (.inl (mem_fieldLine.2 ⟨q, hq, hne, rfl⟩)))
  · intro b hb
    refine mem_ownLines (.inr (.inr (mem_fieldLine.2 ⟨_, ?_, e.accessor_ne_empty b false, rfl⟩)))
    rw [if_pos hinput, Endpoint.body?_eq false hinput, Option.mem_def.1 hb, Option.map_some]

/-- The settings of a request stand in the script. -/
theorem script_carries (he : e ∈ a.endpoints) (hinput : e.hasInput = true)
    (hpath : ∀ f ∈ e.pathFields, StandsIn (Endpoint.placeholder f) e.path)
    (hmarks : e.HasMarks true) : script.CarriesFields a e ∧ script.CarriesBody a e := by
  unfold script
  refine ⟨carriesFields_of_parts hinput hpath hmarks ?_ ?_ ?_ ?_, ?_⟩
  · refine ⟨_, List.mem_singleton.2 rfl, ?_⟩
    have hline : "    " ++ ",\n    ".intercalate (requestSettings e) ∈ scriptFunction e := by
      simp [scriptFunction]
    refine ((StandsIn.refl _).append_left "    ").trans (standsIn_fileText ?_)
    exact List.mem_cons_of_mem _ (List.mem_flatMap.2 ⟨e, he, hline⟩)
  · exact fun part hpart => standsIn_intercalate _ hpart
  · exact List.mem_append_left _ (List.mem_append_left _ List.mem_cons_self)
  · intro q hq _
    refine List.mem_append_right _ ?_
    rw [Option.mem_def.1 hq]
    exact List.mem_singleton.2 rfl
  · intro b hb
    refine List.mem_append_left _ (List.mem_append_right _ ?_)
    rw [Endpoint.body?_eq true hinput, Option.mem_def.1 hb]
    exact List.mem_singleton.2 rfl

end Dialect

/-- A call passes the path first and the settings last. -/
theorem exists_callArguments (style : CallStyle) (e : Endpoint) :
    ∃ body, callArguments style e = e.url false :: (body ++ (callSettings? e).toList) := by
  unfold callArguments
  cases style
  · dsimp only
    split
    · exact ⟨_, rfl⟩
    · exact ⟨[], rfl⟩
  · exact ⟨_, rfl⟩

/-- Every endpoint is in its group. -/
theorem exists_group {es : List Endpoint} {e : Endpoint} (he : e ∈ es) :
    ∃ g ∈ groups es, e ∈ g.2 := by
  have hgroups := Entries.areGroups_foldl_push (es.map fun e => (groupOf e, e))
  rw [List.foldl_map] at hgroups
  have hpair : (groupOf e, e) ∈ es.map fun e => (groupOf e, e) := List.mem_map_of_mem he
  obtain ⟨g, hg, hkey⟩ := List.mem_map.1 ((hgroups.mem_keys (groupOf e)).2 ⟨e, hpair⟩)
  refine ⟨g, List.mem_mergeSort.2 hg, ?_⟩
  rw [hgroups.values g hg, hkey]
  exact Entries.mem_valuesOf.2 hpair

theorem mem_intercalate {α : Type} {x : α} {l : List α} (sep : List α) {ls : List (List α)}
    (hl : l ∈ ls) (hx : x ∈ l) : x ∈ sep.intercalate ls := by
  induction ls with
  | nil => cases hl
  | cons k ls ih =>
    cases ls with
    | nil => simpa [List.mem_singleton.1 hl] using hx
    | cons j ls =>
      rw [List.intercalate_cons_cons, List.mem_append, List.mem_append]
      rcases List.mem_cons.1 hl with rfl | hl
      · exact .inl (.inl hx)
      · exact .inr (ih hl)

/-- The call for an endpoint of a group stands in the class of the group. -/
theorem serviceCall_standsIn_classFile (style : CallStyle) (a : Api) (group : String)
    {es : List Endpoint} {e : Endpoint} (he : e ∈ es) :
    StandsIn (serviceCall style e) (classFile style a group es).content := by
  have hlength : es.length ≤ (methodNames es).length := by simp [methodNames]
  rw [← List.map_snd_zip hlength] at he
  obtain ⟨⟨name, e⟩, hnamed, rfl⟩ := List.mem_map.1 he
  have hline : "    return " ++ serviceCall style e ++ ";" ∈ methodLines style name e := by
    simp [methodLines]
  have hmethods : "    return " ++ serviceCall style e ++ ";" ∈
      methodsLines style ((methodNames es).zip es) :=
    mem_intercalate _ (List.mem_map_of_mem hnamed) hline
  refine (((StandsIn.refl _).append_left "    return ").append_right ";").trans
    (standsIn_fileText ?_)
  unfold classLines
  exact List.mem_append_left _ (List.mem_append_right _ hmethods)

namespace Dialect
variable {a : Api} {e : Endpoint}

theorem service_carriesFields (style : CallStyle) (he : e ∈ a.endpoints)
    (hinput : e.hasInput = true)
    (hpath : ∀ f ∈ e.pathFields, StandsIn (Endpoint.placeholder f) e.path)
    (hmarks : e.HasMarks false) : (service style).CarriesFields a e := by
  unfold service
  refine carriesFields_of_parts hinput hpath hmarks ?_ ?_ ?_ ?_
  · obtain ⟨g, hg, hmem⟩ := exists_group he
    refine ⟨classFile style a g.1 g.2, List.mem_map_of_mem hg, ?_⟩
    exact serviceCall_standsIn_classFile style a g.1 hmem
  · exact fun part hpart => ((standsIn_intercalate ", " hpart).append_left _).append_right _
  · obtain ⟨body, hbody⟩ := exists_callArguments style e
    dsimp only
    rw [hbody]
    exact List.mem_cons_self
  · intro q hq _
    obtain ⟨body, hbody⟩ := exists_callArguments style e
    dsimp only
    rw [hbody, callSettings?, Option.mem_def.1 hq]
    exact List.mem_cons_of_mem _ (List.mem_append_right _ (List.mem_singleton.2 rfl))

/-- A compact call carries the body behind every method. -/
theorem service_compact_carriesBody (hinput : e.hasInput = true) :
    (service .compact).CarriesBody a e := by
  intro b hb
  refine List.mem_append_left _ (List.mem_cons_of_mem _ ?_)
  rw [Endpoint.body?_eq false hinput, Option.mem_def.1 hb]
  exact List.mem_singleton.2 rfl

/-- A positional call carries the body behind the methods that take one, and behind no other. -/
theorem service_positional_carriesBody_iff (hinput : e.hasInput = true) :
    (service .positional).CarriesBody a e ↔
      e.requestBodyField = none ∨ bodyMethods.contains (Text.lower e.method) = true := by
  constructor
  · intro h
    by_contra hlost
    rw [not_or] at hlost
    obtain ⟨b, hb⟩ := Option.ne_none_iff_exists'.1 hlost.1
    have hmem : e.accessor b false ∈ callArguments .positional e := h b hb
    unfold callArguments at hmem
    dsimp only at hmem
    rw [if_neg hlost.2] at hmem
    have hfirst : (e.accessor b false).toList.head? = some 'i' := e.head?_accessor b false
    rcases List.mem_cons.1 hmem with hurl | hsettings
    · rw [hurl] at hfirst
      exact absurd hfirst (e.head?_url_ne false)
    · obtain ⟨q, -, hq⟩ := Option.map_eq_some_iff.1 (Option.mem_toList.1 hsettings)
      rw [← hq] at hfirst
      simp at hfirst
  · rintro (hnone | hmethod) b hb
    · rw [hnone] at hb
      cases hb
    · have hbody := Endpoint.body?_eq false hinput
      rw [Option.mem_def.1 hb, Option.map_some] at hbody
      show e.accessor b false ∈ callArguments .positional e
      unfold callArguments
      dsimp only
      rw [if_pos hmethod, hbody]
      refine List.mem_append_left _ (List.mem_cons_of_mem _ ?_)
      split
      · exact List.mem_singleton.2 rfl
      · rw [Option.getD_some, nonEmptyOr, if_neg (e.accessor_ne_empty b false)]
        exact List.mem_singleton.2 rfl

end Dialect

theorem bodyMethods_contains_iff (m : Method) :
    bodyMethods.contains (Text.lower m.name) = true ↔ m.name ∈ ["POST", "PUT", "PATCH"] := by
  cases m <;> decide

/-- No input of an endpoint is lost. Its request is planned in every dialect, with the expression of
every path field in its path and an entry for every query field. All dialects but that of positional
calls carry the body behind every method; positional calls have a place for it behind `POST`, `PUT`
and `PATCH`, and behind no other method. -/
theorem carries_inputs {document : Value} {a : Api} (h : Endpoint.ofDocument document = .ok a)
    {e : Endpoint} (he : e ∈ a.endpoints) (hinput : e.hasInput = true)
    (hpath : ∀ f ∈ e.pathFields, StandsIn (Endpoint.placeholder f) e.path)
    (hmarks : ∀ guarded, e.HasMarks guarded) :
    (∀ d ∈ [Dialect.builder, .service .compact, .script],
      d.CarriesFields a e ∧ d.CarriesBody a e) ∧
    (Dialect.service .positional).CarriesFields a e ∧
    ((Dialect.service .positional).CarriesBody a e ↔
      e.requestBodyField = none ∨ e.method ∈ ["POST", "PUT", "PATCH"]) := by
  obtain ⟨m, hmethod⟩ : ∃ m : Method, e.method = m.name := by
    obtain ⟨d, name, path, method, item, operation, rfl, hbuild⟩ :=
      Endpoint.exists_build_of_mem h he
    exact ⟨method, (Endpoint.build_eq_ok hbuild).1⟩
  have hservice (style : CallStyle) : (Dialect.service style).CarriesFields a e :=
    Dialect.service_carriesFields style he hinput hpath (hmarks false)
  refine ⟨?_, hservice .positional, ?_⟩
  · simp only [List.forall_mem_cons, List.not_mem_nil, false_implies, implies_true, and_true]
    exact ⟨Dialect.builder_carries he hinput hpath (hmarks false),
      ⟨hservice .compact, Dialect.service_compact_carriesBody hinput⟩,
      Dialect.script_carries he hinput hpath (hmarks true)⟩
  · rw [Dialect.service_positional_carriesBody_iff hinput, hmethod, bodyMethods_contains_iff]

/-- One endpoint, which changes an order. -/
def changedOrders : Api := { endpoints := [Endpoint.changedOrder] }

/-- The order is changed by all its inputs in every dialect. -/
theorem carries_changedOrder :
    (Dialect.builder.CarriesFields changedOrders Endpoint.changedOrder ∧
        Dialect.builder.CarriesBody changedOrders Endpoint.changedOrder) ∧
      ((Dialect.service .positional).CarriesFields changedOrders Endpoint.changedOrder ∧
        (Dialect.service .positional).CarriesBody changedOrders Endpoint.changedOrder) ∧
      ((Dialect.service .compact).CarriesFields changedOrders Endpoint.changedOrder ∧
        (Dialect.service .compact).CarriesBody changedOrders Endpoint.changedOrder) ∧
      Dialect.script.CarriesFields changedOrders Endpoint.changedOrder ∧
        Dialect.script.CarriesBody changedOrders Endpoint.changedOrder := by
  have hpath : ∀ f ∈ Endpoint.changedOrder.pathFields,
      StandsIn (Endpoint.placeholder f) Endpoint.changedOrder.path := by
    intro f hf
    rw [List.mem_singleton.1 hf]
    exact ⟨"/orders/".toList, [], by decide⟩
  have hmarks : ∀ guarded, Endpoint.changedOrder.HasMarks guarded := by
    intro guarded
    exact ⟨by decide, by cases guarded <;> decide⟩
  have hofDocument : Endpoint.ofDocument Endpoint.changeOrder = .ok changedOrders :=
    Endpoint.ofDocument_changeOrder
  obtain ⟨hothers, hfields, hbody⟩ := carries_inputs hofDocument
    (List.mem_singleton_self Endpoint.changedOrder) (by decide) hpath hmarks
  exact ⟨hothers _ (by simp), ⟨hfields, hbody.2 (.inr (by decide))⟩, hothers _ (by simp),
    hothers _ (by simp)⟩

/-- Orders that are removed by a body. -/
def removeOrders : Value :=
  Endpoint.oneOperation "/orders" "delete" [("requestBody", .record [])]

def removedOrders : Endpoint :=
  { operationName := "order", exportName := "defaultOrder",
    builderName := "buildDefaultOrderSpec", method := "DELETE", path := "/orders",
    inputTypeName := "unknown", requestBodyField := some "body" }

/-- The positional call that removes orders passes no body. -/
theorem not_carriesBody_removedOrders :
    Endpoint.ofDocument removeOrders = .ok { endpoints := [removedOrders] } ∧
      removedOrders.hasInput = true ∧ removedOrders.accessor "body" false = "input" ∧
      serviceCall .positional removedOrders = "this.delete<void>(\"/orders\")" ∧
      ¬ (Dialect.service .positional).CarriesBody { endpoints := [removedOrders] }
        removedOrders := by
  refine ⟨by decide +kernel, by decide, by decide, by decide +kernel, fun h => ?_⟩
  have hmem : "input" ∈ callArguments .positional removedOrders := h "body" rfl
  exact absurd hmem (by decide)

end Render
end ApiScribe
