import ApiScribe.Proofs.Endpoint.Drafts
import ApiScribe.Proofs.Render.ServiceFiles
import ApiScribe.Proofs.Endpoint.Operations
import ApiScribe.Proofs.Text.Standing
import ApiScribe.Proofs.Value.Basic

/-! Operation names that are empty. A name has the letters and digits of the part of an id that it
is made from: all of the id, or what follows a start that repeats method and scope. An id of signs
only gives an empty name, and so does one with signs only behind such a start: they are not blank,
so the rest of the id is taken, and nothing of it is left in camel case. The name of an operation
without an id is never empty. So normalizing accepts exactly the documents without such ids. -/
namespace ApiScribe
namespace Naming

/-- A text with an ASCII letter or digit. -/
def HasWord (s : String) : Prop := ∃ c ∈ s.toList, isWordChar c = true

theorem camel_ne_empty_iff {s : String} : camel s ≠ "" ↔ HasWord s := by
  rw [camel, ne_eq, String.ofList_eq_empty_iff, ← List.length_eq_zero_iff, length_camelChars,
    ← ne_eq, ← Nat.pos_iff_ne_zero, List.countP_pos_iff, HasWord]

theorem not_hasWord_of_blank {s : String} (h : Text.blank s = true) : ¬ HasWord s := by
  rintro ⟨c, hc, hword⟩
  rw [not_isWordChar_of_isBlank (List.all_eq_true.1 h c hc)] at hword
  exact absurd hword Bool.false_ne_true

theorem hasWord_of_isWordText {s : String} (h : IsWordText s.toList) (hne : s ≠ "") :
    HasWord s := by
  obtain ⟨c, cs, hcs⟩ := List.exists_cons_of_ne_nil (mt String.toList_eq_nil_iff.1 hne)
  exact ⟨c, hcs ▸ List.mem_cons_self, h c (hcs ▸ List.mem_cons_self)⟩

/-- No name in camel case starts with a capital. -/
theorem isUpper_of_head?_camelChars {cs : List Char} {c : Char}
    (h : (camelChars cs).head? = some c) : c.isUpper = false := by
  rcases camelChars_cases cs with hnil | ⟨d, word, hcamel, -⟩
  · rw [hnil] at h
    cases h
  · rw [hcamel] at h
    cases h
    have hnot := isUpper_iff d.toLower
    rw [toNat_toLower] at hnot
    rw [Bool.eq_false_iff, ne_eq, hnot]
    split <;> omega

end Naming

namespace Endpoint

open Naming

/-- The start of an id that repeats method and scope. -/
def repeatedStart (method : String) (scope : List String) : String :=
  pascal (Text.lower method) ++ "MainAPI" ++ String.join (scope.map pascal)

/-- An id that a name can be made from: it has a letter or digit, and if it repeats method and scope
then what follows has one too or is blank. -/
structure KeepsName (id method : String) (scope : List String) : Prop where
  word : HasWord id
  rest : ∀ rest, id = repeatedStart method scope ++ rest → Text.blank rest = true ∨ HasWord rest

/-- The name made of an id is not empty exactly if the id keeps it. -/
theorem operationNameOf_ne_empty_iff {id method : String} {scope : List String}
    (hscope : String.join (scope.map pascal) ≠ "") :
    operationNameOf id method scope ≠ "" ↔ KeepsName id method scope := by
  have hafter : ∀ rest, Text.after? (repeatedStart method scope).toList id.toList = some rest ↔
      id = repeatedStart method scope ++ String.ofList rest := by
    intro rest
    rw [Text.after?_eq_some_iff, ← String.toList_inj, String.toList_append, String.toList_ofList]
  have hname : operationNameOf id method scope =
      if Text.blank (((Text.after? (repeatedStart method scope).toList id.toList).map
        String.ofList).getD id) then camel id
      else camel (((Text.after? (repeatedStart method scope).toList id.toList).map
        String.ofList).getD id) := by
    rw [operationNameOf, if_neg hscope, repeatedStart]
  rw [hname]
  cases hrest : Text.after? (repeatedStart method scope).toList id.toList with
  | none =>
    have hkeeps : KeepsName id method scope ↔ HasWord id := by
      refine ⟨fun h => h.word, fun h => ⟨h, fun rest hid => ?_⟩⟩
      rw [(hafter rest.toList).2 (by rwa [String.ofList_toList])] at hrest
      cases hrest
    rw [Option.map_none, Option.getD_none, ite_self, camel_ne_empty_iff, hkeeps]
  | some cs =>
    have hid := (hafter cs).1 hrest
    rw [Option.map_some, Option.getD_some]
    split
    · next hblank =>
      rw [camel_ne_empty_iff]
      refine ⟨fun h => ⟨h, fun rest hrest' => .inl ?_⟩, fun h => h.word⟩
      have hsame : rest = String.ofList cs := (String.append_right_inj _).1 (hrest' ▸ hid)
      rwa [hsame]
    · next hblank =>
      rw [camel_ne_empty_iff]
      constructor
      · intro h
        refine ⟨?_, fun rest hrest' => .inr ?_⟩
        · obtain ⟨c, hc, hword⟩ := h
          rw [hid]
          exact ⟨c, by rw [String.toList_append]; exact List.mem_append_right _ hc, hword⟩
        · have hsame : rest = String.ofList cs := (String.append_right_inj _).1 (hrest' ▸ hid)
          rwa [hsame]
      · intro h
        exact (h.rest _ hid).resolve_left hblank

/-- The name of an operation without an id starts with a small letter, so it repeats nothing. -/
theorem keepsName_fallbackName (method : Method) (path : String) (scope : List String) :
    KeepsName (fallbackName method path) method.name scope := by
  constructor
  · have hkey : method.key.toList.any isWordChar = true := by cases method <;> decide
    obtain ⟨c, hc, hword⟩ := List.any_eq_true.1 hkey
    have hne : fallbackName method path ≠ "" := by
      refine camel_ne_empty_iff.2 ⟨c, ?_, hword⟩
      exact (standsIn_intercalate " " List.mem_cons_self).subset hc
    exact hasWord_of_isWordText (isWordText_camel _) hne
  · intro rest hrest
    have hstart : (pascal (Text.lower method.name)).toList.head?.any Char.isUpper = true := by
      cases method <;> decide +kernel
    obtain ⟨c, hc, hupper⟩ := Option.any_eq_true _ _ |>.1 hstart
    have hhead : (fallbackName method path).toList.head? = some c := by
      rw [hrest, repeatedStart]
      simp [List.head?_append, hc]
    rw [fallbackName, camel, String.toList_ofList] at hhead
    exact absurd hupper (by simp [isUpper_of_head?_camelChars hhead])

/-- The text that the name of an operation is made from: its id, or the words of its place. -/
def idOf (path : Scalar) (method : Method) (operation : List (Scalar × Value)) : Outcome String :=
  let given := Value.field operation "operationId"
  if given.isSet then Outcome.expect given.str?
  else fallbackName method <$> Outcome.expect path.str?

theorem idOf_eq_ok {path : Scalar} {method : Method} {operation : List (Scalar × Value)}
    {id : String} : idOf path method operation = .ok id ↔
      (Value.field operation "operationId" = .str id ∧ id ≠ "") ∨
        ((Value.field operation "operationId").isSet = false ∧
          ∃ p, path.str? = some p ∧ fallbackName method p = id) := by
  have hstr : ∀ v : Value, v.isSet = true ∧ v.str? = some id ↔ v = .str id ∧ id ≠ "" := by
    intro v
    rw [Value.str?_eq_some]
    constructor
    · rintro ⟨hset, rfl⟩
      exact ⟨rfl, by simpa [Value.isSet, Scalar.isSet] using hset⟩
    · rintro ⟨rfl, hne⟩
      exact ⟨by simpa [Value.isSet, Scalar.isSet] using hne, rfl⟩
  unfold idOf
  dsimp only
  split
  · next hset =>
    rw [Outcome.expect_eq_ok, ← hstr]
    simp [hset]
  · next hset =>
    rw [Outcome.map_eq_ok, ← hstr]
    simp [hset, Outcome.expect_eq_ok]

/-- The name of an endpoint is made from the id and the scope of its operation. -/
theorem operationName_of_build {document : Value} {path : Scalar} {method : Method}
    {item operation : List (Scalar × Value)} {e : Endpoint}
    (h : build document path method item operation = .ok e) :
    ∃ id scope, idOf path method operation = .ok id ∧
      scopeOfTags (Value.field operation "tags") = .ok scope ∧
      e.operationName = operationNameOf id method.name scope := by
  rw [build_eq] at h
  obtain ⟨d, hd, h⟩ := Outcome.bind_eq_ok.1 h
  obtain ⟨output, -, h⟩ := Outcome.bind_eq_ok.1 h
  obtain ⟨_, _, _, _, -, -, -, rfl⟩ := assemble_eq_ok (Outcome.toOutcome_eq_ok.1 h)
  unfold draft at hd
  obtain ⟨scope, hscope, hd⟩ := Outcome.bind_eq_ok.1 hd
  obtain ⟨_, -, hd⟩ := Outcome.bind_eq_ok.1 hd
  obtain ⟨_, -, hd⟩ := Outcome.bind_eq_ok.1 hd
  -- the id, the body and the shape are each read in one of two ways
  obtain ⟨id, hid, hd⟩ := Outcome.ite_bind_eq_ok.1 hd
  obtain ⟨_, -, hd⟩ := Outcome.bind_eq_ok.1 hd
  obtain ⟨_, -, hd⟩ := Outcome.ite_bind_eq_ok.1 hd
  obtain ⟨_, -, hd⟩ := Outcome.ite_bind_eq_ok.1 hd
  obtain rfl := Outcome.pure_eq_ok.1 hd
  exact ⟨id, scope, hid, hscope, rfl⟩

/-- An operation of a document: the item under the path, with references followed, holds it under
the method. -/
def IsOperationAt (document : Value) (path : Scalar) (method : Method)
    (operation : List (Scalar × Value)) : Prop :=
  ∃ root paths node item, document.entries? = some root ∧
    Value.field root "paths" = .map paths ∧ (path, node) ∈ paths ∧
    Reference.deref document node = .ok (.map item) ∧ (method, operation) ∈ operations item

/-- The operation names of a document are those of its operations. -/
theorem mem_operationNames_iff {document : Value} {a : Api} (h : ofDocument document = .ok a)
    {name : String} : name ∈ a.endpoints.map operationName ↔
      ∃ path method operation id scope, IsOperationAt document path method operation ∧
        idOf path method operation = .ok id ∧
        scopeOfTags (Value.field operation "tags") = .ok scope ∧
        name = operationNameOf id method.name scope := by
  obtain ⟨root, paths, sorted, groups, hroot, hpaths, hsorted, hgroups, hendpoints⟩ :=
    exists_of_ofDocument h
  have hmem : ∀ p, p ∈ sorted ↔ p ∈ paths := fun p => (Scalar.sortOn_eq_ok hsorted).1.mem_iff
  rw [hendpoints, nameAll, map_nameFrom operationName fun _ _ => rfl]
  constructor
  · intro hname
    obtain ⟨e, he, rfl⟩ := List.mem_map.1 hname
    obtain ⟨es, hes, he⟩ := List.mem_flatten.1 he
    obtain ⟨⟨path, node⟩, hp, hitem⟩ := Outcome.exists_of_mem_mapM hgroups hes
    obtain ⟨target, htarget, hbuild⟩ := Outcome.bind_eq_ok.1 hitem
    split at hbuild
    · next item =>
      obtain ⟨⟨method, operation⟩, hoperation, hbuild⟩ := Outcome.exists_of_mem_mapM hbuild he
      obtain ⟨id, scope, hid, hscope, hname⟩ := operationName_of_build hbuild
      exact ⟨path, method, operation, id, scope, ⟨root, paths, node, item, hroot, hpaths,
        (hmem _).1 hp, htarget, hoperation⟩, hid, hscope, hname⟩
    · cases hbuild
      cases he
  · rintro ⟨path, method, operation, id, scope, ⟨root', paths', node, item, hroot', hpaths', hp,
      htarget, hoperation⟩, hid, hscope, rfl⟩
    cases hroot.symm.trans hroot'
    cases hpaths.symm.trans hpaths'
    obtain ⟨es, hes, hitem⟩ := Outcome.exists_of_mapM_mem hgroups ((hmem _).2 hp)
    obtain ⟨target, htarget', hbuild⟩ := Outcome.bind_eq_ok.1 hitem
    cases htarget.symm.trans htarget'
    obtain ⟨e, he, hbuild⟩ := Outcome.exists_of_mapM_mem hbuild hoperation
    obtain ⟨id', scope', hid', hscope', hname⟩ := operationName_of_build hbuild
    cases hid.symm.trans hid'
    cases hscope.symm.trans hscope'
    exact List.mem_map.2 ⟨e, List.mem_flatten.2 ⟨es, hes, he⟩, hname⟩

/-- A document gives an operation an id that is not empty, beside the tags of a scope. -/
def GivesId (document : Value) (method : Method) (id : String) (scope : List String) : Prop :=
  ∃ path operation, IsOperationAt document path method operation ∧
    Value.field operation "operationId" = .str id ∧ id ≠ "" ∧
    scopeOfTags (Value.field operation "tags") = .ok scope

theorem join_map_pascal_ne_empty {tags : Value} {scope : List String}
    (h : scopeOfTags tags = .ok scope) : String.join (scope.map pascal) ≠ "" := by
  obtain ⟨hne, hkebab⟩ := scopeOfTags_kebab h
  obtain ⟨s, scope, rfl⟩ := List.exists_cons_of_ne_nil hne
  rw [List.map_cons, String.join_cons, ne_eq, String.append_eq_empty_iff, not_and]
  exact fun hs => absurd hs (pascal_ne_empty (hkebab s List.mem_cons_self))

/-- All endpoints of a document have operation names exactly if every id keeps its name. -/
theorem operationNames_ne_empty_iff {document : Value} {a : Api} (h : ofDocument document = .ok a) :
    (∀ e ∈ a.endpoints, e.operationName ≠ "") ↔
      ∀ method id scope, GivesId document method id scope → KeepsName id method.name scope := by
  rw [← List.forall_mem_map (f := operationName) (P := fun name => name ≠ "")]
  simp only [mem_operationNames_iff h]
  constructor
  · rintro hnames method id scope ⟨path, operation, hat, hgiven, hne, hscope⟩
    exact (operationNameOf_ne_empty_iff (join_map_pascal_ne_empty hscope)).1 <|
      hnames _ ⟨path, method, operation, id, scope, hat, idOf_eq_ok.2 (.inl ⟨hgiven, hne⟩), hscope,
        rfl⟩
  · rintro hkeeps _ ⟨path, method, operation, id, scope, hat, hid, hscope, rfl⟩
    refine (operationNameOf_ne_empty_iff (join_map_pascal_ne_empty hscope)).2 ?_
    rcases idOf_eq_ok.1 hid with ⟨hgiven, hne⟩ | ⟨-, p, -, rfl⟩
    · exact hkeeps method id scope ⟨path, operation, hat, hgiven, hne, hscope⟩
    · exact keepsName_fallbackName method p scope

theorem normalizeEach_snd_eq_none_iff {es : List Endpoint} :
    (normalizeEach es).2 = none ↔ ∀ e ∈ es, Text.blank e.operationName = false := by
  have hscope : ∀ e : Endpoint, e.withScope.operationName = e.operationName := by
    intro e
    rw [← operationName_unmarked, unmarked_withScope, operationName_unmarked]
  induction es with
  | nil => simp [normalizeEach]
  | cons e es ih =>
    simp only [normalizeEach, hscope]
    split
    · next hblank => simp [hblank]
    · next hblank => simp [hblank, ih]

/-- Normalizing accepts the endpoints of a document, and all of them have operation names, exactly
if every id of the document keeps its name. -/
theorem normalize_eq_none_iff {document : Value} {a : Api} (h : ofDocument document = .ok a) :
    ((∀ e ∈ a.endpoints, e.operationName ≠ "") ↔
      ∀ method id scope, GivesId document method id scope → KeepsName id method.name scope) ∧
    ((Pass.normalize.apply a.endpoints).2 = none ↔
      ∀ method id scope, GivesId document method id scope → KeepsName id method.name scope) := by
  have hnames := operationNames_ne_empty_iff h
  refine ⟨hnames, ?_⟩
  rw [← hnames, Pass.apply, normalizeEach_snd_eq_none_iff]
  refine forall_congr' fun e => ?_
  rw [(List.mergeSort_perm a.endpoints precedes).mem_iff]
  refine imp_congr_right fun he => ?_
  obtain ⟨_, method, _, id, scope, -, -, -, hname⟩ :=
    (mem_operationNames_iff h).1 (List.mem_map_of_mem he)
  -- a name holds no blanks, so only the empty one counts as blank
  rw [← Bool.not_eq_true, not_iff_not, hname]
  constructor
  · intro hblank
    by_contra hne
    have hword := hasWord_of_isWordText (isWordText_operationNameOf id method.name scope) hne
    exact not_hasWord_of_blank hblank hword
  · intro hempty
    rw [hempty]
    rfl

/-- One operation with the given id, of the tag `order`. -/
def orderDocument (id : String) : Value :=
  .record [("paths", .record [("/a", .record [("get",
    .record [("operationId", .str id), ("tags", .ofStrings ["order"])])])])]

theorem id_of_orderDocument {s id : String} {method : Method} {scope : List String}
    (h : GivesId (orderDocument s) method id scope) : id = s := by
  obtain ⟨path, operation, hat, hid, -⟩ := h
  obtain ⟨root, paths, node, item, hroot, hpaths, hnode, hitem, hmethod⟩ := hat
  cases hroot
  cases hpaths
  cases List.mem_singleton.1 hnode
  cases hitem
  rw [mem_operations_iff] at hmethod
  cases method <;> cases hmethod
  cases hid
  rfl

/-- The endpoint of that operation, by its names. -/
def orderEndpoint (name exportName builderName : String) : Endpoint :=
  { scope := ["order"], operationName := name, exportName, builderName, method := "GET",
    path := "/a", supportsQuery := true, supportsMutation := false }

theorem ofDocument_orderList : ofDocument (orderDocument "GetMainAPIOrderList") =
    .ok { endpoints := [orderEndpoint "list" "orderList" "buildOrderListSpec"] } := by
  decide +kernel

theorem normalize_orderList :
    (∀ method id scope, GivesId (orderDocument "GetMainAPIOrderList") method id scope →
      KeepsName id method.name scope) ∧
    (Pass.normalize.apply [orderEndpoint "list" "orderList" "buildOrderListSpec"]).2 = none := by
  obtain ⟨hnames, haccepts⟩ := normalize_eq_none_iff ofDocument_orderList
  have hkeeps := hnames.1 (by decide)
  exact ⟨hkeeps, haccepts.2 hkeeps⟩

/-- An id with letters that starts with method and scope and has a sign only behind them: the
operation has no name, and normalizing fails. -/
theorem normalize_orderSign :
    (∀ method id scope, GivesId (orderDocument "GetMainAPIOrder_") method id scope → HasWord id) ∧
    ofDocument (orderDocument "GetMainAPIOrder_") =
      .ok { endpoints := [orderEndpoint "" "orderOp" "buildOrderOpSpec"] } ∧
    Pass.normalize.apply [orderEndpoint "" "orderOp" "buildOrderOpSpec"] =
      ([orderEndpoint "" "orderOp" "buildOrderOpSpec"], some (.emptyOperationName "GET" "/a")) := by
  refine ⟨?_, by decide +kernel, ?_⟩
  · intro method id scope hid
    rw [id_of_orderDocument hid]
    exact ⟨'G', by decide, by decide⟩
  · rw [Pass.apply, List.mergeSort_singleton]
    decide +kernel

end Endpoint
end ApiScribe
