import ApiScribe.Proofs.Endpoint.Marks
import ApiScribe.Proofs.Endpoint.Slots
import ApiScribe.Proofs.Reference
import ApiScribe.Proofs.Schema.Mentions

/-! The types of endpoints. The input and the output of an endpoint are put together from the types
of the schemas of its operation, so they mention what these mention. -/
namespace ApiScribe
namespace Endpoint

open Schema TypeText

/-- The schemas that the output type of an operation can come from. -/
def responseSchemas (document responses : Value) : List Value :=
  match responses with
  | .map m => successStatuses.flatMap fun status =>
    match Reference.deref document (Value.field m status) with
    | .ok (.map response) =>
      (pickMedia (Value.field response "content")).toOption.toList ++ [Value.field response "schema"]
    | _ => []
  | _ => []

/-- The schemas of an operation: those of its parameters, of its body and of its responses. -/
def operationSchemas (document : Value) (item operation : List (Scalar × Value)) : List Value :=
  ((parametersOf document item operation).toOption.getD []).map Parameter.schema
    ++ (bodySchema document (Value.field operation "requestBody")).toOption.toList
    ++ responseSchemas document (Value.field operation "responses")

/-- The schemas of all operations of a document. -/
def schemas (document : Value) : List Value :=
  match document.entries?.map (Value.field · "paths") with
  | some (.map paths) => paths.flatMap fun p =>
    match Reference.deref document p.2 with
    | .ok (.map item) => (operations item).flatMap fun o => operationSchemas document item o.2
    | _ => []
  | _ => []

theorem operationSchemas_subset {document : Value} {item operation : List (Scalar × Value)}
    (h : IsOperation document item operation) :
    operationSchemas document item operation ⊆ schemas document := by
  obtain ⟨root, paths, path, node, method, hroot, hpaths, hpath, hnode, hoperation⟩ := h
  intro v hv
  rw [schemas, hroot, Option.map_some, hpaths]
  refine List.mem_flatMap.2 ⟨(path, node), hpath, ?_⟩
  rw [hnode]
  exact List.mem_flatMap.2 ⟨(method, operation), hoperation, hv⟩

variable {A : String → Prop} {document : Value} {item operation : List (Scalar × Value)}

theorem mentions_void : Mentions A "void".toList := mentions_word (by decide) (.inl (by decide))

/-- The output type is that of a response, or there is none. -/
theorem mentions_responseType {responses : Value}
    (h : ∀ v ∈ responseSchemas document responses, ∀ t, typeText v = .ok t → Mentions A t.toList)
    {t : String} (ht : responseType document responses = .ok t) : Mentions A t.toList := by
  unfold responseType at ht
  split at ht
  · next m =>
    have hall : ∀ statuses ⊆ successStatuses, responseTypeOf document m statuses = .ok t →
        Mentions A t.toList := by
      intro statuses
      induction statuses with
      | nil =>
        rintro - ⟨⟩
        exact mentions_void
      | cons status statuses ih =>
        intro hsub hstatus
        obtain ⟨hmem, hsub⟩ := List.cons_subset.1 hsub
        rw [responseTypeOf] at hstatus
        obtain ⟨node, hnode, hstatus⟩ := Outcome.bind_eq_ok.1 hstatus
        split at hstatus
        · next response =>
          obtain ⟨picked, hpicked, hstatus⟩ := Outcome.bind_eq_ok.1 hstatus
          have hschema : (if picked.isNull = true then Value.field response "schema" else picked) ∈
              responseSchemas document (.map m) := by
            refine List.mem_flatMap.2 ⟨status, hmem, ?_⟩
            rw [hnode]
            dsimp only
            rw [hpicked]
            split <;> simp [Except.toOption]
          dsimp only at hstatus
          generalize (if picked.isNull = true then Value.field response "schema" else picked) =
            schema at hschema hstatus
          split at hstatus
          · exact h schema hschema t hstatus
          · cases hstatus
            exact mentions_void
        · exact ih hsub hstatus
    exact hall successStatuses (List.Subset.refl _) ht
  · cases ht
    exact mentions_void

theorem words_of_isMemberKey {name : String} (h : isMemberKey name = true) :
    ∃ w lead, (∀ c ∈ w, TypeText.isWordChar c = true) ∧ (lead = [] ∨ lead = ['\n']) ∧
      name.toList = w ++ lead := by
  unfold isMemberKey at h
  split at h
  · cases h
  · next c cs hname =>
    simp only [Bool.and_eq_true, List.all_eq_true] at h
    have hstart : TypeText.isWordChar c = true := isWordChar_of_isWordStart h.1
    have hwords := h.2
    split at hwords
    · next hlast =>
      obtain ⟨front, rfl⟩ := List.getLast?_eq_some_iff.1 hlast
      rw [List.dropLast_concat] at hwords
      exact ⟨c :: front, ['\n'], List.forall_mem_cons.2 ⟨hstart, hwords⟩, .inr rfl, by simp [hname]⟩
    · exact ⟨c :: cs, [], List.forall_mem_cons.2 ⟨hstart, hwords⟩, .inl rfl, by simp [hname]⟩

/-- A member of the input mentions what its type mentions, whatever its name. -/
theorem mentions_member (name : String) {mark : String} (hmark : mark = "" ∨ mark = "?")
    {t : String} (ht : Mentions A t.toList) :
    Mentions A (memberKey name ++ mark ++ ": " ++ t).toList := by
  have htail : Mentions A (mark.toList ++ (": ".toList ++ t.toList)) := by
    refine .separators_append ?_ (.separators_append (by decide) ht)
    rcases hmark with rfl | rfl <;> decide
  have hends : EndsWord (mark.toList ++ (": ".toList ++ t.toList)) := by
    rcases hmark with rfl | rfl <;> exact endsWord_cons (by decide)
  simp only [String.toList_append, List.append_assoc]
  unfold memberKey
  split
  · next hkey =>
    obtain ⟨w, lead, hw, hlead, hname⟩ := words_of_isMemberKey hkey
    rw [hname, List.append_assoc]
    refine .key hw ?_ (fun rest => ?_) (.separators_append ?_ htail)
    · rcases hlead with rfl | rfl
      · exact hends
      · exact endsWord_cons (by decide)
    · rcases hlead with rfl | rfl <;> rcases hmark with rfl | rfl <;> rfl
    · rcases hlead with rfl | rfl <;> decide
  · exact (Mentions.quoted name).append htail hends

/-- The input object mentions what the types of its members mention. -/
theorem mentions_inputShapeText {ofPath ofQuery : List Parameter} {body : Option String}
    (hparameters : ∀ p ∈ ofPath ++ ofQuery, ∀ t, typeText p.schema = .ok t → Mentions A t.toList)
    (hbody : ∀ t ∈ body, Mentions A t.toList) {t : String}
    (ht : inputShapeText ofPath ofQuery body = .ok t) : Mentions A t.toList := by
  unfold inputShapeText at ht
  obtain ⟨path, hpath, ht⟩ := Outcome.bind_eq_ok.1 ht
  obtain ⟨query, hquery, ht⟩ := Outcome.bind_eq_ok.1 ht
  obtain rfl := Outcome.pure_eq_ok.1 ht
  refine mentions_objectText fun member hmember => ?_
  rcases List.mem_append.1 hmember with hmember | hmember
  · rcases List.mem_append.1 hmember with hmember | hmember
    · obtain ⟨p, hp, hmember⟩ := Outcome.exists_of_mem_mapM hpath hmember
      obtain ⟨name, -, hmember⟩ := Outcome.bind_eq_ok.1 hmember
      obtain ⟨u, hu, hmember⟩ := Outcome.bind_eq_ok.1 hmember
      obtain rfl := Outcome.pure_eq_ok.1 hmember
      have hu := hparameters p (List.mem_append_left _ hp) u hu
      simpa using mentions_member name (.inl rfl) hu
    · obtain ⟨p, hp, hmember⟩ := Outcome.exists_of_mem_mapM hquery hmember
      obtain ⟨name, -, hmember⟩ := Outcome.bind_eq_ok.1 hmember
      obtain ⟨u, hu, hmember⟩ := Outcome.bind_eq_ok.1 hmember
      obtain rfl := Outcome.pure_eq_ok.1 hmember
      have hu := hparameters p (List.mem_append_right _ hp) u hu
      refine mentions_member name ?_ hu
      split
      · exact .inl rfl
      · exact .inr rfl
  · obtain ⟨u, hu, rfl⟩ := Option.map_eq_some_iff.1 (Option.mem_toList.1 hmember)
    exact mentions_fieldText (k := ⟨"body", false⟩) (.inl (by decide)) (hbody u hu)

theorem ne_empty_of_inputShapeText {ofPath ofQuery : List Parameter} {body : Option String}
    {t : String} (ht : inputShapeText ofPath ofQuery body = .ok t) : t ≠ "" := by
  unfold inputShapeText at ht
  obtain ⟨path, -, ht⟩ := Outcome.bind_eq_ok.1 ht
  obtain ⟨query, -, ht⟩ := Outcome.bind_eq_ok.1 ht
  rw [← Outcome.pure_eq_ok.1 ht, objectText, Ne, ← String.toList_inj]
  simp

/-- The types of an endpoint mention what the types of the schemas of its operation mention. -/
theorem mentions_of_build {path : Scalar} {method : Method} {e : Endpoint}
    (h : build document path method item operation = .ok e)
    (hA : ∀ v ∈ operationSchemas document item operation, ∀ t, typeText v = .ok t →
      Mentions A t.toList) :
    Mentions A e.declaredInput.toList ∧ Mentions A e.outputTypeName.toList := by
  obtain ⟨_, _, parameters, bodyType, _, _, e₀, -, hassemble, -, -, -, -, -, -, hparameters,
    htypes⟩ := exists_of_build h
  obtain ⟨_, _, _, _, -, -, -, rfl⟩ := assemble_eq_ok hassemble
  have hparameter : ∀ p ∈ parameters, ∀ t, typeText p.schema = .ok t → Mentions A t.toList := by
    intro p hp
    refine hA p.schema (List.mem_append_left _ (List.mem_append_left _ ?_))
    rw [hparameters]
    exact List.mem_map_of_mem hp
  have hbody : ∀ t ∈ bodyType, Mentions A t.toList := by
    intro t ht
    obtain ⟨schema, hschema, htext⟩ := htypes.body t ht
    refine hA schema (List.mem_append_left _ (List.mem_append_right _ ?_)) t htext
    rw [hschema]
    exact List.mem_singleton_self schema
  have hname : e₀.inputShape = none → Mentions A e₀.inputTypeName.toList := by
    intro hnone
    rcases htypes.input hnone with hvoid | hsingle | ⟨p, hp, htext⟩
    · rw [hvoid]
      exact mentions_void
    · exact hbody _ hsingle
    · exact hparameter p hp _ htext
  refine ⟨?_, mentions_responseType (fun v hv => hA v (List.mem_append_right _ hv)) htypes.output⟩
  show Mentions A (declaredInput e₀).toList
  unfold declaredInput
  cases hshape : e₀.inputShape with
  | none => exact hname hshape
  | some shape =>
    have htext := htypes.shape shape hshape
    have hmembers : Mentions A shape.toList := by
      refine mentions_inputShapeText (fun p hp => ?_) hbody htext
      rcases List.mem_append.1 hp with hp | hp
      · exact hparameter p (List.mem_filter.1 hp).1
      · exact hparameter p (List.mem_filter.1 hp).1
    simpa [ne_empty_of_inputShapeText htext] using hmembers

theorem references_of_pickMedia {content v : Value} (h : pickMedia content = .ok v) :
    v.references ⊆ content.references := by
  have hmedia : ∀ {media}, mediaSchema media = .ok v → v.references ⊆ media.references := by
    intro media h r hr
    unfold mediaSchema at h
    split at h
    · obtain ⟨m, hm, rfl⟩ := Outcome.map_eq_ok.1 h
      rw [Value.entries?_eq_some.1 (Outcome.expect_eq_ok.1 hm)]
      exact Value.mem_references_of_field hr
    · cases h
      cases hr
  unfold pickMedia at h
  split at h
  · next key first m =>
    split at h
    · next media hfound =>
      obtain ⟨t, -, ht⟩ := List.exists_of_findSome?_eq_some hfound
      exact fun r hr => Value.mem_references_of_get? ht (hmedia h hr)
    · intro r hr
      rw [Value.references, List.mem_append, Value.mem_referencesOfEntries]
      exact .inr ⟨(key, first), List.mem_cons_self, hmedia h hr⟩
  · cases h
    exact List.nil_subset _

/-- What a value lists has no references that the value lacks. -/
theorem references_of_members? {v : Value} {xs : List Value} (h : v.members? = some xs) :
    ∀ x ∈ xs, x.references ⊆ v.references := by
  have hscalars : ∀ {α : Type} {f : α → Scalar} {l : List α}, xs = l.map (fun y => .scalar (f y)) →
      ∀ x ∈ xs, x.references ⊆ v.references := by
    rintro α f l rfl x hx
    obtain ⟨y, -, rfl⟩ := List.mem_map.1 hx
    exact List.nil_subset _
  unfold Value.members? at h
  split at h
  · cases h
    exact fun x hx r hr => Value.mem_references_of_mem hx hr
  · cases h
    simp [Value.references]
  · exact hscalars (Option.some.inj h).symm
  · exact hscalars (Option.some.inj h).symm
  · exact hscalars (Option.some.inj h).symm
  · exact hscalars (Option.some.inj h).symm
  · cases h

/-- The schema of a parameter has no references that the parameter lacks. -/
theorem references_schema (p : Parameter) :
    p.schema.references ⊆ (Value.map p.fields).references := by
  intro r hr
  unfold Parameter.schema at hr
  split at hr
  · next m hm =>
    exact Value.mem_references_of_field (hm ▸ hr)
  · rw [Value.references, List.mem_append, Value.mem_referencesOfEntries] at hr
    have hnone : Value.field (["type", "items", "enum"].filterMap fun key =>
        (Entries.get? p.fields (.str key)).map fun v => (.str key, v)) "$ref" = .null := by
      simp only [List.filterMap_cons, List.filterMap_nil]
      cases Entries.get? p.fields (.str "type") <;>
        cases Entries.get? p.fields (.str "items") <;>
        cases Entries.get? p.fields (.str "enum") <;> rfl
    rcases hr with hr | ⟨q, hq, hr⟩
    · rw [hnone] at hr
      cases hr
    · obtain ⟨key, -, hq⟩ := List.mem_filterMap.1 hq
      obtain ⟨w, hw, rfl⟩ := Option.map_eq_some_iff.1 hq
      exact Value.mem_references_of_get? hw hr

theorem references_of_parameter? {raw : Value} {p : Parameter}
    (h : parameter? document raw = .ok (some p)) (hraw : raw.references ⊆ document.references) :
    (Value.map p.fields).references ⊆ document.references := by
  obtain ⟨hderef, -⟩ := exists_of_parameter? h
  exact Reference.references_of_deref hderef hraw

/-- The parameters of an operation have no references that the document lacks. -/
theorem references_of_parametersOf {ps : List Parameter}
    (hitem : (Value.map item).references ⊆ document.references)
    (hoperation : (Value.map operation).references ⊆ document.references)
    (h : parametersOf document item operation = .ok ps) :
    ∀ p ∈ ps, (Value.map p.fields).references ⊆ document.references := by
  have hlist : ∀ {m : List (Scalar × Value)} {raws : List Value},
      (Value.map m).references ⊆ document.references →
      parameterList (Value.field m "parameters") = .ok raws →
      ∀ raw ∈ raws, raw.references ⊆ document.references := by
    intro m raws hm hraws raw hraw r hr
    unfold parameterList at hraws
    split at hraws
    · exact hm (Value.mem_references_of_field
        (references_of_members? (Outcome.expect_eq_ok.1 hraws) raw hraw hr))
    · cases hraws
      cases hraw
  obtain ⟨ofPath, hofPath, h⟩ := Outcome.bind_eq_ok.1 h
  obtain ⟨ofOperation, hofOperation, h⟩ := Outcome.bind_eq_ok.1 h
  have hraws : ∀ raw ∈ ofPath ++ ofOperation, raw.references ⊆ document.references := by
    intro raw hraw
    rcases List.mem_append.1 hraw with hraw | hraw
    · exact hlist hitem hofPath raw hraw
    · exact hlist hoperation hofOperation raw hraw
  refine mergeParameters_induction (P := fun ps => ∀ p ∈ ps,
    (Value.map p.fields).references ⊆ document.references) (by simp) ?_ h
  intro merged raw hraw p hfound hmerged q hq
  rcases mem_putParameter hq with rfl | hq
  · exact references_of_parameter? hfound (hraws raw hraw)
  · exact hmerged q hq

/-- An operation of a document has no references that the document lacks. -/
theorem references_of_isOperation (h : IsOperation document item operation) :
    (Value.map item).references ⊆ document.references ∧
      (Value.map operation).references ⊆ document.references := by
  obtain ⟨root, paths, path, node, method, hroot, hpaths, hpath, hnode, hoperation⟩ := h
  rw [Value.entries?_eq_some.1 hroot] at hnode ⊢
  have hitem : (Value.map item).references ⊆ (Value.map root).references := by
    refine Reference.references_of_deref hnode fun r hr => ?_
    refine @Value.mem_references_of_field r "paths" root ?_
    rw [hpaths, Value.references, List.mem_append, Value.mem_referencesOfEntries]
    exact .inr ⟨_, hpath, hr⟩
  refine ⟨hitem, fun r hr => hitem ?_⟩
  obtain ⟨m, -, hm⟩ := List.mem_filterMap.1 hoperation
  obtain ⟨o, ho, hmo⟩ := Option.map_eq_some_iff.1 hm
  cases hmo
  refine @Value.mem_references_of_field r method.key item ?_
  rwa [Value.entries?_eq_some.1 ho]

theorem references_of_bodySchema {body v : Value} (h : bodySchema document body = .ok v)
    (hbody : body.references ⊆ document.references) : v.references ⊆ document.references := by
  obtain ⟨w, hw, h⟩ := Outcome.bind_eq_ok.1 h
  have hderef := Reference.references_of_deref hw hbody
  split at h
  · exact fun r hr => hderef (Value.mem_references_of_field (references_of_pickMedia h hr))
  · cases h
    exact List.nil_subset _

/-- The input type of an endpoint is made of the types of its slots, each of them the type of a
parameter or of the body, and with several slots its input has a shape. -/
theorem exists_slotTypes_of_build {path : Scalar} {method : Method} {e : Endpoint}
    (h : build document path method item operation = .ok e) :
    ∃ parameters types name, parametersOf document item operation = .ok parameters ∧
      (∀ t ∈ types, (∃ p ∈ parameters, typeText p.schema = .ok t) ∨
        ∃ schema, bodySchema document (Value.field operation "requestBody") = .ok schema ∧
          typeText schema = .ok t) ∧
      types.length = e.inputSlots ∧ e.inputTypeName = inputTypeOf name types ∧
      (e.inputShape.isSome = true ↔ 2 ≤ e.inputSlots) := by
  obtain ⟨_, _, parameters, bodyType, _, _, e₀, -, hassemble, -, -, -, -, hbody, -, hparameters,
    htypes⟩ := exists_of_build h
  obtain ⟨_, _, query, fields, -, hquery, hpath, he⟩ := assemble_eq_ok hassemble
  rw [List.forall₂_map_left_iff] at hquery hpath
  obtain ⟨slots, hslots, htype, hshape⟩ := htypes.slots
  have hlength := (Outcome.mapM_eq_ok.1 hslots).length_eq
  rw [List.length_append, hpath.length_eq, hquery.length_eq] at hlength
  have hcount : (slots ++ bodyType.toList).length = e.inputSlots := by
    rw [he, inputSlots, hbody, List.length_append, ← hlength]
    cases bodyType <;> simp
  refine ⟨parameters, slots ++ bodyType.toList, e₀.operationName, hparameters, fun t ht => ?_,
    hcount, ?_, ?_⟩
  rotate_left
  · rw [he, htype]
  · rw [← hcount, he, hshape]
  rcases List.mem_append.1 ht with ht | ht
  · obtain ⟨p, hp, hpt⟩ := Outcome.exists_of_mem_mapM hslots ht
    rcases List.mem_append.1 hp with hp | hp
    · exact .inl ⟨p, (List.mem_filter.1 hp).1, hpt⟩
    · exact .inl ⟨p, (List.mem_filter.1 hp).1, hpt⟩
  · exact .inr (htypes.body t (Option.mem_toList.1 ht))

/-- No input type but that of no slots is the mark of no input. -/
theorem trimmed_inputTypeOf_eq_iff {name : String} {slots : List String}
    (h : ∀ t ∈ slots, Text.trimmed t ≠ "void") :
    Text.trimmed (inputTypeOf name slots) = "void" ↔ slots = [] := by
  match slots, h with
  | [], _ =>
    have hvoid : Text.trimmed "void" = "void" := by decide
    exact iff_of_true hvoid rfl
  | [t], h => exact iff_of_false (h t (List.mem_singleton_self t)) (by simp)
  | _ :: _ :: _, _ =>
    refine iff_of_false ?_ (by simp)
    exact trimmed_ne_of_mem (c := 't') (by simp [inputTypeOf]) (by decide) (by decide)

/-- If no reference of a document names what it refers to by the mark of no input, then an endpoint
takes an input exactly if it has slots, and its input has a shape exactly if there are several. -/
theorem hasInput_iff_of_build {path : Scalar} {method : Method} {e : Endpoint}
    (h : build document path method item operation = .ok e)
    (hoperation : IsOperation document item operation)
    (hrefs : ∀ ref ∈ document.references, Text.trimmed (Reference.targetName ref) ≠ "void") :
    (e.hasInput = true ↔ 0 < e.inputSlots) ∧ (e.inputShape.isSome = true ↔ 2 ≤ e.inputSlots) := by
  obtain ⟨parameters, types, name, hparameters, htypes, hcount, htype, hshape⟩ :=
    exists_slotTypes_of_build h
  obtain ⟨hitem, hown⟩ := references_of_isOperation hoperation
  -- a slot without a type of its own name would be the name of a reference
  have hslot : ∀ {v : Value} {t}, v.references ⊆ document.references → typeText v = .ok t →
      Text.trimmed t ≠ "void" := by
    intro v t hv ht hvoid
    obtain ⟨ref, href, htarget⟩ := exists_ref_of_typeText (by decide) (by decide) ht hvoid
    exact hrefs ref (hv href) htarget
  have hplain : ∀ t ∈ types, Text.trimmed t ≠ "void" := by
    intro t ht
    rcases htypes t ht with ⟨p, hp, htext⟩ | ⟨schema, hschema, htext⟩
    · have hfields := references_of_parametersOf hitem hown hparameters p hp
      exact hslot (fun r hr => hfields (references_schema p hr)) htext
    · refine hslot (references_of_bodySchema hschema fun r hr => ?_) htext
      exact hown (Value.mem_references_of_field hr)
  refine ⟨?_, hshape⟩
  show decide (Text.trimmed e.inputTypeName ≠ "void") = true ↔ 0 < e.inputSlots
  rw [decide_eq_true_iff, htype, Ne, trimmed_inputTypeOf_eq_iff hplain, ← hcount,
    List.length_pos_iff]

end Endpoint

namespace Pass

open Endpoint

/-- A pass leaves all else of endpoints as it is. -/
theorem unmarked_apply {p : Pass} {es fs : List Endpoint} (h : p.apply es = (fs, none)) :
    ∀ f ∈ fs, ∃ e ∈ es, e.unmarked = f.unmarked := by
  intro f hf
  cases p with
  | normalize =>
    rw [normalizeEach_eq h] at hf
    obtain ⟨e, he, rfl⟩ := List.mem_map.1 hf
    exact ⟨e, List.mem_mergeSort.1 he, by simp⟩
  | classifyQueries =>
    obtain ⟨rfl, -⟩ := Prod.mk.inj h
    obtain ⟨e, he, rfl⟩ := List.mem_map.1 hf
    exact ⟨e, he, by simp⟩
  | markRefreshToken =>
    obtain ⟨rfl, -⟩ := Prod.mk.inj h
    obtain ⟨e, he, rfl⟩ := List.mem_map.1 hf
    exact ⟨e, he, by simp⟩

theorem unmarked_applyAll {ps : List Pass} {es fs : List Endpoint}
    (h : applyAll ps es = .ok fs) : ∀ f ∈ fs, ∃ e ∈ es, e.unmarked = f.unmarked := by
  induction ps generalizing es with
  | nil =>
    cases h
    exact fun f hf => ⟨f, hf, rfl⟩
  | cons p ps ih =>
    rw [applyAll] at h
    split at h
    · next ds hds =>
      intro f hf
      obtain ⟨d, hd, hdf⟩ := ih h f hf
      obtain ⟨e, he, hed⟩ := unmarked_apply hds d hd
      exact ⟨e, he, hed.trans hdf⟩
    · exact absurd h Outcome.fail_ne_ok

end Pass

namespace Pipeline

open Endpoint Schema TypeText

/-- However a pipeline transforms the endpoints of a document, each is one that is built from an
operation of the document and named, but for what passes change. -/
theorem exists_operation_of_transformed {p : Pipeline} {document : Value} {a : Api}
    (h : p.transformed document = .ok a) {e : Endpoint} (he : e ∈ a.endpoints) :
    ∃ d name path method item operation, (d.withName name).unmarked = e.unmarked ∧
      build document path method item operation = .ok d ∧ IsOperation document item operation := by
  obtain ⟨c, es, hc, hes, rfl⟩ := transformed_eq_ok.1 h
  obtain ⟨d, hd, hrest⟩ := Pass.unmarked_applyAll hes e he
  obtain ⟨b, name, path, method, item, operation, rfl, hbuild, hoperation⟩ :=
    exists_operation_of_mem hc hd
  exact ⟨b, name, path, method, item, operation, hrest, hbuild, hoperation⟩

/-- However a pipeline transforms the endpoints of a document, their types mention what the types of
the document's schemas mention. -/
theorem mentions_transformed {A : String → Prop} {p : Pipeline} {document : Value} {a : Api}
    (h : p.transformed document = .ok a)
    (hA : ∀ v ∈ schemas document, ∀ t, typeText v = .ok t → Mentions A t.toList) :
    ∀ e ∈ a.endpoints, Mentions A e.declaredInput.toList ∧ Mentions A e.outputTypeName.toList := by
  intro e he
  obtain ⟨b, name, _, _, item, operation, hrest, hbuild, hoperation⟩ :=
    exists_operation_of_transformed h he
  have hinput : e.declaredInput = b.declaredInput := (congrArg declaredInput hrest).symm
  have houtput : e.outputTypeName = b.outputTypeName := (congrArg outputTypeName hrest).symm
  rw [hinput, houtput]
  exact mentions_of_build hbuild fun v hv => hA v (operationSchemas_subset hoperation hv)

theorem hasInput_iff_transformed {p : Pipeline} {document : Value} {a : Api}
    (h : p.transformed document = .ok a)
    (hrefs : ∀ ref ∈ document.references, Text.trimmed (Reference.targetName ref) ≠ "void") :
    ∀ e ∈ a.endpoints,
      (e.hasInput = true ↔ 0 < e.inputSlots) ∧ (e.inputShape.isSome = true ↔ 2 ≤ e.inputSlots) := by
  intro e he
  obtain ⟨b, name, _, _, item, operation, hrest, hbuild, hoperation⟩ :=
    exists_operation_of_transformed h he
  have hinput : e.hasInput = b.hasInput := (congrArg hasInput hrest).symm
  have hslots : e.inputSlots = b.inputSlots := (congrArg inputSlots hrest).symm
  have hshape : e.inputShape = b.inputShape := (congrArg inputShape hrest).symm
  rw [hinput, hslots, hshape]
  exact hasInput_iff_of_build hbuild hoperation hrefs

end Pipeline
end ApiScribe
