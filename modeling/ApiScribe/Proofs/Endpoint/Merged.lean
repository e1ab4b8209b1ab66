import ApiScribe.Proofs.Endpoint.Slots
import ApiScribe.Proofs.Entries

/-! The parameters of an operation. The entries of its path and its own make one list; of the entries
that declare one name and place the last one wins, and it stands where the first one was. -/
namespace ApiScribe
namespace Endpoint

/-- Whether the references of a list entry lead somewhere, and its name and place are texts if it
has them. -/
def isTextual (document raw : Value) : Bool :=
  match Reference.deref document raw with
  | .ok (.map m) => ["name", "in"].all fun key =>
      (Entries.get? m (.str key)).all (·.str?.isSome)
  | .ok _ => true
  | .error _ => false

/-- What a list entry declares: a name and a place, and the fields. Without a name it declares
nothing, and without a place it is in the empty one. -/
def declared? (document raw : Value) : Option ((String × String) × List (Scalar × Value)) :=
  match Reference.deref document raw with
  | .ok (.map m) => (Value.field m "name").str?.map fun name =>
      ((name, (Value.field m "in").str?.getD ""), m)
  | _ => none

/-- What the entries of a list declare, in order. -/
def declarations (document : Value) (raws : List Value) :
    List ((String × String) × List (Scalar × Value)) :=
  raws.filterMap (declared? document)

/-- The parameter of a name and place with the given fields. -/
def Parameter.ofEntry (p : (String × String) × List (Scalar × Value)) : Parameter :=
  ⟨.str p.1.1, .str p.1.2, p.2⟩

/-- An entry with texts gives the parameter that it declares. -/
theorem parameter?_of_isTextual {document raw : Value} (h : isTextual document raw = true) :
    parameter? document raw = .ok ((declared? document raw).map Parameter.ofEntry) := by
  unfold isTextual at h
  split at h
  · next m hv =>
    have htext : ∀ key ∈ ["name", "in"], ∀ w ∈ Entries.get? m (.str key), ∃ s, w = .str s := by
      intro key hkey w hw
      have hall := List.all_eq_true.1 h key hkey
      rw [Option.mem_def.1 hw, Option.all_some] at hall
      obtain ⟨s, hs⟩ := Option.isSome_iff_exists.1 hall
      exact ⟨s, Value.str?_eq_some.1 hs⟩
    rw [declared?, hv]
    refine Outcome.bind_eq_ok.2 ⟨_, hv, ?_⟩
    dsimp only [Value.field]
    cases hn : Entries.get? m (.str "name") with
    | none => rfl
    | some w =>
      obtain ⟨name, rfl⟩ := htext "name" (by simp) w hn
      cases hp : Entries.get? m (.str "in") with
      | none => rfl
      | some u =>
        obtain ⟨place, rfl⟩ := htext "in" (by simp) u hp
        rfl
  · next v hother hv =>
    rw [declared?, hv]
    refine Outcome.bind_eq_ok.2 ⟨v, hv, ?_⟩
    cases v with
    | map m => exact absurd rfl (hother m)
    | _ => rfl
  · cases h

/-- Parameters with texts are put where their name and place are, as in a map. -/
theorem putParameter_ofEntry (p : (String × String) × List (Scalar × Value))
    (m : Entries (String × String) (List (Scalar × Value))) :
    putParameter (.ofEntry p) (m.map .ofEntry) = (Entries.put p.1 p.2 m).map .ofEntry := by
  induction m with
  | nil => rfl
  | cons q m ih =>
    have hsame : ((Parameter.ofEntry q).name == (Parameter.ofEntry p).name &&
        (Parameter.ofEntry q).place == (Parameter.ofEntry p).place) = (q.1 == p.1) := rfl
    rw [List.map_cons, putParameter, Entries.put, hsame]
    split
    · next heq => rw [List.map_cons, eq_of_beq heq]
    · rw [ih, List.map_cons]

/-- A run over entries with texts, with a step that puts what an entry declares, goes like the run
over what they declare. -/
theorem foldlM_of_isTextual {document : Value}
    {step : List Parameter → Value → Outcome (List Parameter)}
    (hstep : ∀ ps raw p?, parameter? document raw = .ok p? →
      step ps raw = .ok (p?.elim ps (putParameter · ps)))
    {raws : List Value} (h : ∀ raw ∈ raws, isTextual document raw = true)
    (m : Entries (String × String) (List (Scalar × Value))) :
    raws.foldlM step (m.map .ofEntry) =
      .ok (((declarations document raws).foldl (fun m p => Entries.put p.1 p.2 m) m).map
        .ofEntry) := by
  induction raws generalizing m with
  | nil => rfl
  | cons raw raws ih =>
    obtain ⟨hraw, hraws⟩ := List.forall_mem_cons.1 h
    rw [List.foldlM_cons, hstep _ _ _ (parameter?_of_isTextual hraw), declarations,
      List.filterMap_cons]
    cases declared? document raw with
    | none => exact ih hraws m
    | some p =>
      have hrest := ih hraws (Entries.put p.1 p.2 m)
      rw [← putParameter_ofEntry] at hrest
      exact hrest

/-- Entries with texts are all read, and their parameters are a map of what they declare. -/
theorem mergeParameters_eq_ofList {document : Value} {ofPath ofOperation : List Value}
    (h : ∀ raw ∈ ofPath ++ ofOperation, isTextual document raw = true) :
    mergeParameters document ofPath ofOperation =
      .ok ((Entries.ofList (declarations document (ofPath ++ ofOperation))).map .ofEntry) := by
  refine foldlM_of_isTextual (fun ps raw p? hp => Outcome.bind_eq_ok.2 ⟨p?, hp, ?_⟩) h []
  cases p? <;> rfl

/-- The fields of an endpoint in one place are different: with two or more of them all are texts,
so no two parameters of the place have one name. -/
theorem nodup_fields_of_build {document : Value} {path : Scalar} {method : Method}
    {item operation : List (Scalar × Value)} {e : Endpoint}
    (h : build document path method item operation = .ok e) :
    e.queryFields.Nodup ∧ e.pathFields.Nodup := by
  obtain ⟨_, _, ps, bodyType, hmerge, hinputs⟩ := hasInputs_of_build h
  by_cases hslots : 2 ≤ e.inputSlots
  · obtain ⟨shape, -, hshape⟩ := hinputs.shape hslots
    obtain ⟨hpath, hquery, -⟩ := members_of_inputShapeText hinputs hshape
    have hmerged := areMerged_mergeParameters hmerge
    exact ⟨nodup_fields hmerged hquery, nodup_fields hmerged hpath⟩
  · have hfew : ∀ fields : List String, fields.length ≤ 1 → fields.Nodup := by
      rintro (_ | ⟨f, _ | ⟨g, fs⟩⟩) hlength
      · exact List.nodup_nil
      · exact List.nodup_singleton f
      · simp at hlength
    rw [inputSlots] at hslots
    exact ⟨hfew _ (by omega), hfew _ (by omega)⟩

/-- Merging the parameters of a path and of an operation, with texts for names and places, gives
exactly the names and places that are declared. Each comes once, in the order in which they are
first declared, and with its last declaration, which is one of the operation if the operation has
any. So no endpoint of a document has a query field or a path field twice. -/
theorem mergeParameters_isLastOf_and_nodup_fields :
    (∀ (document : Value) (ofPath ofOperation : List Value),
      (∀ raw ∈ ofPath ++ ofOperation, isTextual document raw = true) →
      ∃ m, mergeParameters document ofPath ofOperation = .ok (m.map Parameter.ofEntry) ∧
        Entries.IsLastOf (declarations document ofPath ++ declarations document ofOperation) m ∧
        ∀ p ∈ m, p.1 ∈ Entries.keys (declarations document ofOperation) →
          ∃ before after, declarations document ofOperation = before ++ p :: after ∧
            p.1 ∉ Entries.keys after) ∧
    ∀ (document : Value) (a : Api), ofDocument document = .ok a →
      ∀ e ∈ a.endpoints, e.queryFields.Nodup ∧ e.pathFields.Nodup := by
  refine ⟨fun document ofPath ofOperation h => ?_, fun document a h e he => ?_⟩
  · obtain ⟨m, hm, hlast⟩ : ∃ m, mergeParameters document ofPath ofOperation =
          .ok (m.map Parameter.ofEntry) ∧
        Entries.IsLastOf (declarations document (ofPath ++ ofOperation)) m :=
      ⟨_, mergeParameters_eq_ofList h, Entries.isLastOf_ofList _⟩
    rw [declarations, List.filterMap_append] at hlast
    exact ⟨m, hm, hlast, fun p hp hkey => hlast.last_of_append hp hkey⟩
  · obtain ⟨d, _, _, _, _, _, rfl, hbuild⟩ := exists_build_of_mem h he
    have hnodup : d.queryFields.Nodup ∧ d.pathFields.Nodup := nodup_fields_of_build hbuild
    exact hnodup

def queryParameter (name type : String) : Value :=
  .record [("name", .str name), ("in", .str "query"), ("schema", .record [("type", .str type)])]

/-- The parameters of all operations on orders. -/
def ordersParameters : List Value := [queryParameter "page" "string"]

/-- The parameters of the listing. It says again what a page is, and its size twice. -/
def listingParameters : List Value :=
  [.record [("$ref", .str "#/components/parameters/Size")],
    queryParameter "page" "integer", queryParameter "size" "integer"]

def listOrders : Value :=
  .record [
    ("components", .record [("parameters", .record [("Size", queryParameter "size" "string")])]),
    ("paths", .record [("/orders", .record [
      ("parameters", .list ordersParameters),
      ("get", .record [("operationId", .str "list"),
        ("parameters", .list listingParameters)])])])]

def listedOrders : Endpoint :=
  { operationName := "list", exportName := "defaultList", builderName := "buildDefaultListSpec",
    method := "GET", path := "/orders", inputTypeName := "ListInput",
    inputShape := some "\x7b page?: number; size?: number \x7d",
    queryFields := ["page", "size"], supportsQuery := true, supportsMutation := false }

/-- Page and size are listed once each, with the types that are said last. -/
theorem nodup_fields_listedOrders :
    (∀ raw ∈ ordersParameters ++ listingParameters, isTextual listOrders raw = true) ∧
      (∃ ps, mergeParameters listOrders ordersParameters listingParameters = .ok ps ∧
        keys ps = [("page", "query"), ("size", "query")]) ∧
      ofDocument listOrders = .ok { endpoints := [listedOrders] } ∧
      listedOrders.queryFields.Nodup := by
  obtain ⟨hmerge, hnodup⟩ := mergeParameters_isLastOf_and_nodup_fields
  have htexts : ∀ raw ∈ ordersParameters ++ listingParameters, isTextual listOrders raw = true := by
    decide +kernel
  have hdocument : ofDocument listOrders = .ok { endpoints := [listedOrders] } := by
    decide +kernel
  refine ⟨htexts, ?_, hdocument, (hnodup _ _ hdocument _ (List.mem_singleton_self _)).1⟩
  obtain ⟨m, hm, -⟩ := hmerge _ _ _ htexts
  have hkeys : (mergeParameters listOrders ordersParameters listingParameters).toOption.map keys =
      some [("page", "query"), ("size", "query")] := by decide +kernel
  rw [hm] at hkeys
  exact ⟨_, hm, Option.some.inj hkeys⟩

end Endpoint
end ApiScribe
