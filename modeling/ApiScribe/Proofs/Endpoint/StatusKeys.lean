import ApiScribe.Proofs.Endpoint.Alike
import ApiScribe.Proofs.Value.StatusKeys

/-! Endpoints of documents whose status codes are numbers. Responses are looked up under texts, so a
status code that was read as a number is not found. With texts for those keys a document gives the
same endpoints but for their output types, and the same output types as well if no number among the
keys is a status that gives one. -/
namespace ApiScribe
namespace Endpoint

open Schema

theorem readsAlike_withTextStatuses (document : Value) :
    ReadsAlike Value.Respelled Value.Respelled document document.withTextStatuses where
  null := .same .null
  finer _ _ := id
  alike _ _ := Value.Respelled.alike
  alike_below _ _ := Value.Respelled.alike
  schema _ _ := Value.Respelled.matches
  below key hkey _ _ h := h.get? key (Value.not_spelled hkey)
  resolve := Value.resolve_withTextStatuses document
  media m n h := by
    rcases h.field_inside "content" (by decide) (by decide) (by decide) with heq | heq
    · rw [heq]
      exact .refl .same _
    · rw [heq]
      exact Value.pickMedia_withTextStatuses _
  tags m n h := by
    have heq : Value.field n "tags" = Value.field m "tags" := by
      unfold Value.field
      rcases h.get?_eq "tags" (Value.not_spelled (by decide)) with heq | heq
      · rw [heq]
      · rw [heq]
        cases Entries.get? m (.str "tags") <;> rfl
    exact .of_eq (by rw [heq])

theorem pathsAlike_textStatusEntries (root : List (Scalar × Value)) :
    PathsAlike Value.Respelled root (Value.textStatusEntries root) := by
  intro m hm
  refine ⟨Value.textStatusEntries m, ?_, ?_⟩
  · unfold Value.field at hm ⊢
    rw [Value.get?_textStatusEntries]
    cases hget : Entries.get? root (.str "paths") with
    | none =>
      rw [hget] at hm
      cases hm
    | some v =>
      rw [hget] at hm
      obtain rfl : v = .map m := hm
      rfl
  · intro sorted hsorted
    refine ⟨Value.textStatusEntries sorted, ?_, Value.textStatusEntries_alike sorted⟩
    rw [Value.textStatusEntries_eq, Value.textStatusEntries_eq, Scalar.sortOn_map]
    exact Outcome.map_eq_ok.2 ⟨sorted, hsorted, rfl⟩

theorem title_textStatusEntries (root : List (Scalar × Value)) :
    Outcome.Refines Value.Respelled (title root) (title (Value.textStatusEntries root)) := by
  have hroot : Value.Respelled (.map root) (.map (Value.textStatusEntries root)) := .inside _
  have hinfo := Value.alike_getD (.same .null)
    (hroot.get? "info" (Value.not_spelled (by decide)))
  unfold title
  dsimp only
  rw [← show (Value.field root "info").isSet = (Value.field (Value.textStatusEntries root) "info").isSet
    from hinfo.alike.isSet_eq]
  split
  · refine (Outcome.Refines.expect (R := fun m n => Value.Respelled (.map m) (.map n)) ?_).map
      fun m n hmn => Value.alike_getD (.same .null) (hmn.get? "title"
        (Value.not_spelled (by decide)))
    revert hinfo
    show Value.Respelled (Value.field root "info") (Value.field _ "info") → _
    generalize Value.field root "info" = v
    generalize Value.field (Value.textStatusEntries root) "info" = w
    intro hvw
    cases hvw.alike with
    | map _ => exact .some hvw
    | _ => exact .none
  · exact .ok (.same .null)

/-- The responses that give an output type are under texts: no number among the keys of responses is
such a status. -/
def HasTextStatuses (document : Value) : Prop :=
  ∀ os, declared document = .ok os → ∀ o ∈ os, ∀ responses,
    Value.field o.operation "responses" = .map responses →
    ∀ n v, (.int n, v) ∈ responses → toString n ∉ successStatuses

/-- With texts for status codes a document gives the same endpoints with the output types that its
responses then give, and it gives the very same endpoints if no number among its status codes is one
that gives an output type. -/
theorem ofDocument_withTextStatuses {document : Value} {a : Api}
    (h : ofDocument document = .ok a) :
    (∀ b, ofDocument document.withTextStatuses = .ok b ↔
      ∃ types, outputTypes document.withTextStatuses = .ok types ∧ b = a.withOutputTypes types) ∧
    (HasTextStatuses document → ofDocument document.withTextStatuses = .ok a) := by
  have hreads := readsAlike_withTextStatuses document
  obtain ⟨root, -, -, hroot, -⟩ := ofDocument_eq_ok_iff.1 h
  obtain rfl : document = .map root := by
    cases document <;> simp_all [Value.entries?]
  have hiff := ofDocument_eq_ok_iff_withOutputTypes hreads hroot rfl
    (pathsAlike_textStatusEntries root) (title_textStatusEntries root) h
  refine ⟨hiff, fun htexts => (hiff a).2 ⟨a.outputTypes, ?_, a.withOutputTypes_self.symm⟩⟩
  refine (outputTypes_refines hreads hroot rfl (pathsAlike_textStatusEntries root) ?_).eq_ok
    (outputTypes_of_ofDocument h)
  intro os hos o ho p hop
  have hresponses := Value.alike_getD (.same .null)
    (hop.operation.get? "responses" (Value.not_spelled (by decide)))
  refine responseType_refines hreads hresponses ?_
  intro m n hm hn status hstatus
  have hmn : Value.Respelled (.map m) (.map n) := hm ▸ hn ▸ hresponses
  refine Value.alike_getD (.same .null) (hmn.get? status ?_)
  rintro i rfl ⟨v, hv⟩
  exact absurd hstatus (htexts os hos o ho m hm i v hv)

/-- A document with one operation, whose responses are of the given types. -/
def statusDocument (responses : List (Scalar × String)) : Value :=
  .record [("paths", .record [("/pets", .record [("get", .record [("responses",
    .map (responses.map fun p => (p.1, .record [("schema", .record [("type", .str p.2)])])))])])])]

/-- What such a document gives. -/
def statusApi (output : String) : Api :=
  { endpoints := [{ operationName := "getPets", exportName := "defaultGetPets",
                    builderName := "buildDefaultGetPetsSpec", method := "GET", path := "/pets",
                    outputTypeName := output, supportsQuery := true, supportsMutation := false }] }

/-- A number that gives no output type may be spelled as a text. -/
theorem ofDocument_textStatuses_not_found :
    let document := statusDocument [(.str "200", "string"), (.int 404, "number")]
    ofDocument document = .ok (statusApi "string") ∧ HasTextStatuses document ∧
      ofDocument document.withTextStatuses = .ok (statusApi "string") := by
  intro document
  have hdocument : ofDocument document = .ok (statusApi "string") := by decide +kernel
  have htexts : HasTextStatuses document := by
    intro os hos o ho responses hresponses n v hmem
    cases hos
    rw [List.mem_singleton.1 ho] at hresponses
    cases hresponses
    simp only [List.map_cons, List.map_nil, List.mem_cons, Prod.mk.injEq, reduceCtorEq, false_and,
      Scalar.int.injEq, List.not_mem_nil, or_false, false_or] at hmem
    rw [hmem.1]
    decide
  exact ⟨hdocument, htexts, (ofDocument_withTextStatuses hdocument).2 htexts⟩

/-- A status code that was read as a number is not found, though it is found as a text. -/
theorem ofDocument_number_status_ne :
    let document := statusDocument [(.int 200, "string")]
    document.withTextStatuses = statusDocument [(.str "200", "string")] ∧
      ofDocument document = .ok (statusApi "void") ∧
      ofDocument document.withTextStatuses = .ok (statusApi "string") := by
  intro document
  exact ⟨rfl, by decide +kernel, by decide +kernel⟩

end Endpoint
end ApiScribe
