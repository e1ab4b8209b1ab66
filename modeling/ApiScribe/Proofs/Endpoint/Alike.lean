import ApiScribe.Proofs.Endpoint.Drafts
import ApiScribe.Proofs.Schema.Alike

/-! Two documents read side by side. If whatever is reached in one document is related to what is
reached in the other, and related values read the same, then the drafts of their endpoints are the
same, and what the responses give is all that may differ. -/
namespace ApiScribe

/-- Two documents of which the same can be read. What references reach is related by `R`, and what
stands under a key of it by the finer `S`, by which schemas match; keys without a letter, which may
be numbers, are left out. -/
structure ReadsAlike (R S : Value → Value → Prop) (document other : Value) : Prop where
  null : S .null .null
  finer : ∀ v w, S v w → R v w
  alike : ∀ v w, R v w → Value.Alike R v w
  alike_below : ∀ v w, S v w → Value.Alike S v w
  schema : ∀ m n, S (.map m) (.map n) → Schema.Matches S m n
  below : ∀ key : String, key.toList.any Char.isAlpha = true → ∀ m n, R (.map m) (.map n) →
    Option.Rel S (Entries.get? m (.str key)) (Entries.get? n (.str key))
  resolve : ∀ ref, Outcome.Refines R (Reference.resolve document ref) (Reference.resolve other ref)
  media : ∀ m n, R (.map m) (.map n) → Outcome.Refines S
    (Schema.pickMedia (Value.field m "content")) (Schema.pickMedia (Value.field n "content"))
  tags : ∀ m n, R (.map m) (.map n) → Outcome.Refines Eq
    (Endpoint.scopeOfTags (Value.field m "tags")) (Endpoint.scopeOfTags (Value.field n "tags"))

namespace Endpoint

open Schema

/-- Parameters with the same name and place, and related fields. -/
structure Parameter.Alike (R : Value → Value → Prop) (p q : Parameter) : Prop where
  name : p.name = q.name
  place : p.place = q.place
  fields : R (.map p.fields) (.map q.fields)

/-- The keys that a parameter's own schema is made of. -/
def spreadKeys : List String := ["type", "items", "enum"]

/-- The schema that is spread over a parameter. -/
def spread (fields : List (Scalar × Value)) : List (Scalar × Value) :=
  spreadKeys.filterMap fun key => (Entries.get? fields (.str key)).map fun v => (.str key, v)

theorem get?_spread {fields : List (Scalar × Value)} {key : String} (h : key ∉ spreadKeys) :
    Entries.get? (spread fields) (.str key) = none := by
  rw [Entries.get?, Option.map_eq_none_iff, List.find?_eq_none]
  intro p hp
  obtain ⟨k, hk, hp⟩ := List.mem_filterMap.1 hp
  obtain ⟨v, -, rfl⟩ := Option.map_eq_some_iff.1 hp
  show ¬ (k == key) = true
  rw [beq_iff_eq]
  rintro rfl
  exact h hk

variable {R S : Value → Value → Prop} {document other : Value}
  (h : ReadsAlike R S document other)
include h

theorem field_below (key : String) (hkey : key.toList.any Char.isAlpha = true)
    {m n : List (Scalar × Value)} (hmn : R (.map m) (.map n)) :
    S (Value.field m key) (Value.field n key) :=
  Value.alike_getD h.null (h.below key hkey m n hmn)

theorem typeText_below {v w : Value} (hvw : S v w) : Outcome.Refines Eq (typeText v) (typeText w) :=
  typeText_refines h.alike_below h.null h.schema hvw

/-- References are followed to related values. -/
theorem deref_refines {v w : Value} (hvw : R v w) :
    Outcome.Refines R (Reference.deref document v) (Reference.deref other w) := by
  have hfollow : ∀ hops v w, R v w →
      Outcome.Refines R (Reference.follow document hops v) (Reference.follow other hops w) := by
    intro hops
    induction hops with
    | zero => exact fun v w hvw => .ok hvw
    | succ hops ih =>
      intro v w hvw
      have href : Option.Rel S (v.field? "$ref") (w.field? "$ref") := by
        cases h.alike v w hvw with
        | map _ => exact h.below "$ref" (by decide) _ _ hvw
        | _ => exact .none
      unfold Reference.follow
      revert href
      generalize v.field? "$ref" = a, w.field? "$ref" = b
      intro href
      cases href with
      | none => exact .ok hvw
      | @some a b hab =>
        cases h.alike_below a b hab with
        | scalar s =>
          cases s with
          | str ref => exact (h.resolve ref).bind ih
          | _ => exact .error
        | _ => exact .error
  exact hfollow 32 v w hvw

/-- What is no map gives no parameter, and no failure. -/
theorem parameter?_refines {v w : Value} (hvw : R v w) :
    Outcome.Refines (Option.Rel (Parameter.Alike R)) (parameter? document v)
      (parameter? other w) := by
  refine (deref_refines h hvw).bind fun v w hvw => ?_
  cases h.alike v w hvw with
  | @map m n _ =>
    have hname := h.below "name" (by decide) m n hvw
    have hin := h.below "in" (by decide) m n hvw
    dsimp only
    revert hname hin
    generalize Entries.get? m (.str "name") = a, Entries.get? n (.str "name") = b
    generalize Entries.get? m (.str "in") = c, Entries.get? n (.str "in") = d
    intro hname hin
    cases hname with
    | none => exact .ok .none
    | @some a b hab =>
      have hplace : (c.getD (.str "")).scalar? = (d.getD (.str "")).scalar? := by
        cases hin with
        | none => rfl
        | some hcd => exact (h.alike_below _ _ hcd).scalar?_eq
      dsimp only
      rw [(h.alike_below a b hab).scalar?_eq, hplace]
      refine (Outcome.Refines.refl (fun _ => rfl) _).bind ?_
      rintro name _ rfl
      refine (Outcome.Refines.refl (fun _ => rfl) _).bind ?_
      rintro place _ rfl
      exact .ok (.some ⟨rfl, rfl, hvw⟩)
  | _ => exact .ok .none

omit h in
theorem putParameter_alike {p q : Parameter} (hpq : p.Alike R q) {ps qs : List Parameter}
    (hps : List.Forall₂ (Parameter.Alike R) ps qs) :
    List.Forall₂ (Parameter.Alike R) (putParameter p ps) (putParameter q qs) := by
  induction hps with
  | nil => exact .cons hpq .nil
  | @cons x y xs ys hxy hrest ih =>
    rw [putParameter, putParameter, hxy.name, hxy.place, hpq.name, hpq.place]
    split
    · exact .cons hpq hrest
    · exact .cons hxy ih

/-- The parameters of an operation come from related entries, and scalars among them, such as the
keys of a map in place of a list, give none. -/
theorem parametersOf_refines {m n o p : List (Scalar × Value)} (hmn : R (.map m) (.map n))
    (hop : R (.map o) (.map p)) : Outcome.Refines (List.Forall₂ (Parameter.Alike R))
      (parametersOf document m o) (parametersOf other n p) := by
  have hlist : ∀ {m n : List (Scalar × Value)}, R (.map m) (.map n) → Outcome.Refines
      (List.Forall₂ fun x y => S x y ∨ ∃ s t, x = .scalar s ∧ y = .scalar t)
      (parameterList (Value.field m "parameters")) (parameterList (Value.field n "parameters")) := by
    intro m n hmn
    have halike := h.alike_below _ _ (field_below h "parameters" (by decide) hmn)
    unfold parameterList
    rw [← halike.isSet_eq]
    split
    · exact .expect halike.members?
    · exact .ok .nil
  refine (hlist hmn).bind fun xs ys hxs => (hlist hop).bind fun xs' ys' hxs' => ?_
  refine Outcome.Refines.foldlM (List.rel_append hxs hxs') ?_ .nil
  intro ps qs x y hps hxy
  have hraw : Outcome.Refines (Option.Rel (Parameter.Alike R)) (parameter? document x)
      (parameter? other y) := by
    rcases hxy with hxy | ⟨s, t, rfl, rfl⟩
    · exact parameter?_refines h (h.finer x y hxy)
    · exact .ok .none
  refine hraw.bind fun a b hab => ?_
  cases hab with
  | none => exact .ok hps
  | some hpq => exact .ok (putParameter_alike hpq hps)

theorem isIn_eq {p q : Parameter} (hpq : p.Alike R q) (place : String) :
    p.isIn place = q.isIn place :=
  (h.alike_below _ _ (field_below h "in" (by decide) hpq.fields)).isString_eq place

theorem filter_isIn {ps qs : List Parameter} (hps : List.Forall₂ (Parameter.Alike R) ps qs)
    (place : String) : List.Forall₂ (Parameter.Alike R) (ps.filter (·.isIn place))
      (qs.filter (·.isIn place)) :=
  List.rel_filter (fun p q hpq => by simp [isIn_eq h hpq]) hps

/-- Alike parameters have the same type, given in a schema or in the older form. -/
theorem typeText_schema {p q : Parameter} (hpq : p.Alike R q) :
    Outcome.Refines Eq (typeText p.schema) (typeText q.schema) := by
  have hspread : EntriesAlike S (spread p.fields) (spread q.fields) := by
    have hkey : ∀ key ∈ spreadKeys, Option.Rel S (Entries.get? p.fields (.str key))
        (Entries.get? q.fields (.str key)) := by
      intro key hkey
      refine h.below key ?_ _ _ hpq.fields
      revert hkey key
      decide
    unfold spread
    revert hkey
    generalize spreadKeys = keys
    induction keys with
    | nil => exact fun _ => .nil
    | cons key keys ih =>
      intro hkey
      have hfirst := hkey key List.mem_cons_self
      have hrest := ih fun key hmem => hkey key (List.mem_cons_of_mem _ hmem)
      rw [List.filterMap_cons, List.filterMap_cons]
      revert hfirst
      generalize Entries.get? p.fields (.str key) = a, Entries.get? q.fields (.str key) = b
      rintro (hab | _)
      · exact .cons ⟨rfl, hab⟩ hrest
      · exact hrest
  have hmatches : Matches S (spread p.fields) (spread q.fields) := by
    refine ⟨hspread.length_eq, fun key _ => hspread.get? (.str key), ?_, ?_⟩
    · intro ps qs hps
      rw [get?_spread (by decide)] at hps
      cases hps
    · rw [Value.field, Value.field, get?_spread (by decide), get?_spread (by decide)]
      exact .of_eq rfl
  have hold := hmatches.typeText h.alike_below h.null h.schema
  have hfield := field_below h "schema" (by decide) hpq.fields
  unfold Parameter.schema
  revert hfield
  generalize Value.field p.fields "schema" = v, Value.field q.fields "schema" = w
  intro hvw
  cases h.alike_below v w hvw with
  | map _ => exact typeText_below h hvw
  | _ => exact hold

theorem inputShapeText_refines {ps qs ps' qs' : List Parameter}
    (hps : List.Forall₂ (Parameter.Alike R) ps qs)
    (hps' : List.Forall₂ (Parameter.Alike R) ps' qs') (body : Option String) :
    Outcome.Refines Eq (inputShapeText ps ps' body) (inputShapeText qs qs' body) := by
  unfold inputShapeText
  refine (Outcome.Refines.mapM_eq hps fun p q hpq => ?_).bind ?_
  · rw [hpq.name]
    refine (Outcome.Refines.refl (fun _ => rfl) _).bind ?_
    rintro name _ rfl
    refine (typeText_schema h hpq).bind ?_
    rintro type _ rfl
    exact .ok rfl
  rintro path _ rfl
  refine (Outcome.Refines.mapM_eq hps' fun p q hpq => ?_).bind ?_
  · have hrequired :=
      (h.alike_below _ _ (field_below h "required" (by decide) hpq.fields)).isSet_eq
    rw [hpq.name, hrequired]
    refine (Outcome.Refines.refl (fun _ => rfl) _).bind ?_
    rintro name _ rfl
    refine (typeText_schema h hpq).bind ?_
    rintro type _ rfl
    exact .ok rfl
  rintro query _ rfl
  exact .ok rfl

theorem bodySchema_refines {v w : Value} (hvw : S v w) :
    Outcome.Refines S (bodySchema document v) (bodySchema other w) := by
  refine (deref_refines h (h.finer v w hvw)).bind fun v w hvw => ?_
  cases h.alike v w hvw with
  | map _ => exact h.media _ _ hvw
  | _ => exact .ok h.null

/-- Related responses give the same type if the responses to the statuses that count are related. -/
theorem responseType_refines {v w : Value} (hvw : S v w)
    (hstatus : ∀ m n, v = .map m → w = .map n → ∀ status ∈ successStatuses,
      R (Value.field m status) (Value.field n status)) :
    Outcome.Refines Eq (responseType document v) (responseType other w) := by
  have hof : ∀ m n statuses, (∀ status ∈ statuses, R (Value.field m status) (Value.field n status)) →
      Outcome.Refines Eq (responseTypeOf document m statuses) (responseTypeOf other n statuses) := by
    intro m n statuses
    induction statuses with
    | nil => exact fun _ => .ok rfl
    | cons status statuses ih =>
      intro hstatus
      have hrest := ih fun s hs => hstatus s (List.mem_cons_of_mem _ hs)
      refine (deref_refines h (hstatus status List.mem_cons_self)).bind fun v w hvw => ?_
      cases h.alike v w hvw with
      | @map o p _ =>
        refine (h.media o p hvw).bind fun picked picked' hpicked => ?_
        have hschema : ∀ a b, S a b → Outcome.Refines Eq
            (if a.isSet then typeText a else pure "void")
            (if b.isSet then typeText b else pure "void") := by
          intro a b hab
          rw [← (h.alike_below a b hab).isSet_eq]
          split
          · exact typeText_below h hab
          · exact .ok rfl
        dsimp only
        rw [← (h.alike_below _ _ hpicked).isNull_eq]
        split
        · exact hschema _ _ (field_below h _ (by decide) hvw)
        · exact hschema _ _ hpicked
      | _ => exact hrest
  cases h.alike_below v w hvw with
  | map _ => exact hof _ _ _ (hstatus _ _ rfl rfl)
  | _ => exact .ok rfl

/-- Drafts that make the same endpoints. -/
structure Draft.Same (d e : Draft) : Prop where
  endpoint : d.endpoint = e.endpoint
  summary : Check.optional Check.string d.summary = Check.optional Check.string e.summary
  queryFields : d.queryFields = e.queryFields
  pathFields : d.pathFields = e.pathFields

omit h in
theorem Draft.Same.finish_eq {d e : Draft} (hde : d.Same e) (path : Scalar) (output : String) :
    d.finish path output = e.finish path output := by
  rw [finish, finish, assemble, assemble, hde.endpoint, hde.summary, hde.queryFields,
    hde.pathFields]

/-- The drafts of related operations are the same. -/
theorem draft_refines (path : Scalar) (method : Method) {m n o p : List (Scalar × Value)}
    (hmn : R (.map m) (.map n)) (hop : R (.map o) (.map p)) :
    Outcome.Refines Draft.Same (draft document path method m o) (draft other path method n p) := by
  have hfield : ∀ key : String, key.toList.any Char.isAlpha = true →
      Value.Alike S (Value.field o key) (Value.field p key) :=
    fun key hkey => h.alike_below _ _ (field_below h key hkey hop)
  have hgiven := hfield "operationId" (by decide)
  have hbody := hfield "requestBody" (by decide)
  unfold draft
  refine (h.tags o p hop).bind ?_
  rintro scope _ rfl
  refine (parametersOf_refines h hmn hop).bind fun ps qs hps => ?_
  have hpath := filter_isIn h hps "path"
  have hquery := filter_isIn h hps "query"
  have hnames : ∀ {ps qs : List Parameter}, List.Forall₂ (Parameter.Alike R) ps qs →
      (ps.map fun p => Value.scalar p.name) = qs.map fun p => Value.scalar p.name := by
    intro ps qs hps
    rw [← List.forall₂_eq_eq_eq, List.forall₂_map_left_iff, List.forall₂_map_right_iff]
    exact hps.imp fun p q hpq => congrArg Value.scalar hpq.name
  refine (bodySchema_refines h (field_below h "requestBody" (by decide) hop)).bind
    fun schema schema' hschema => ?_
  simp only [hnames hpath, hnames hquery, ← hgiven.isSet_eq, ← hgiven.str?_eq, ← hbody.isNull_eq,
    ← (hfield "deprecated" (by decide)).isSet_eq]
  -- the id, the body and the shape are each read in one of two ways, the same in both documents
  simp only [Outcome.ite_bind]
  refine (Outcome.Refines.refl (fun _ => rfl) _).bind ?_
  rintro id _ rfl
  refine (Outcome.Refines.mapM_eq (List.rel_append hpath hquery)
    fun p q hpq => typeText_schema h hpq).bind ?_
  rintro slots _ rfl
  refine Outcome.Refines.bind (R := Eq) ?_ ?_
  · split
    · exact (typeText_below h hschema).map fun _ _ => congrArg some
    · exact .ok rfl
  rintro bodyType _ rfl
  refine Outcome.Refines.bind (R := Eq) ?_ ?_
  · split
    · exact .ok rfl
    · exact (inputShapeText_refines h hpath hquery bodyType).map fun _ _ => congrArg some
  rintro shape _ rfl
  exact .ok ⟨rfl, (hfield "summary" (by decide)).optional_string_eq, rfl, rfl⟩

/-- An operation makes the endpoint that a related operation makes, up to the output type and as far
as its responses have one. -/
theorem build_eq_ok_iff {path : Scalar} {method : Method} {m n o p : List (Scalar × Value)}
    (hmn : R (.map m) (.map n)) (hop : R (.map o) (.map p)) {e : Endpoint}
    (he : build document path method m o = .ok e) (b : Endpoint) :
    build other path method n p = .ok b ↔
      ∃ type, responseType other (Value.field p "responses") = .ok type ∧ b = e.withOutput type := by
  rw [build_eq] at he
  obtain ⟨d, hd, he⟩ := Outcome.bind_eq_ok.1 he
  obtain ⟨output, -, he⟩ := Outcome.bind_eq_ok.1 he
  obtain ⟨d', hd', hsame⟩ := draft_refines h path method hmn hop d hd
  have hfinish : ∀ type, d'.finish path type = .ok (e.withOutput type) := by
    intro type
    rw [← hsame.finish_eq]
    exact (Draft.finish_eq_ok he).2 type
  rw [build_eq, hd']
  show (responseType other (Value.field p "responses") >>= d'.finish path) = .ok b ↔ _
  constructor
  · intro hb
    obtain ⟨type, htype, hb⟩ := Outcome.bind_eq_ok.1 hb
    rw [hfinish] at hb
    cases hb
    exact ⟨type, htype, rfl⟩
  · rintro ⟨type, htype, rfl⟩
    exact Outcome.bind_eq_ok.2 ⟨type, htype, hfinish type⟩

/-- Operations under the same path and method, in related items. -/
structure Declared.Alike (R : Value → Value → Prop) (o p : Declared) : Prop where
  path : o.path = p.path
  method : o.method = p.method
  item : R (.map o.item) (.map p.item)
  operation : R (.map o.operation) (.map p.operation)

theorem operations_alike {m n : List (Scalar × Value)} (hmn : R (.map m) (.map n)) :
    List.Forall₂ (fun p q => p.1 = q.1 ∧ R (.map p.2) (.map q.2)) (operations m) (operations n) := by
  have hkey : ∀ method : Method, method.key.toList.any Char.isAlpha = true := by
    intro method
    cases method <;> decide
  unfold operations
  induction Method.all with
  | nil => exact .nil
  | cons method methods ih =>
    have hfield := field_below h method.key (hkey method) hmn
    rw [List.filterMap_cons, List.filterMap_cons]
    revert hfield
    generalize Value.field m method.key = v, Value.field n method.key = w
    intro hvw
    cases h.alike_below v w hvw with
    | map _ => exact .cons ⟨rfl, h.finer _ _ hvw⟩ ih
    | _ => exact ih

theorem declaredUnder_refines (path : Scalar) {v w : Value} (hvw : R v w) :
    Outcome.Refines (List.Forall₂ (Declared.Alike R)) (declaredUnder document path v)
      (declaredUnder other path w) := by
  refine (deref_refines h hvw).bind fun v w hvw => ?_
  cases h.alike v w hvw with
  | map _ =>
    refine .ok (List.forall₂_map_left_iff.2 (List.forall₂_map_right_iff.2 ?_))
    exact (operations_alike h hvw).imp fun p q hpq => ⟨rfl, hpq.1, hvw, hpq.2⟩
  | _ => exact .ok .nil

theorem forall₂_build {os os' : List Declared} (hos : List.Forall₂ (Declared.Alike R) os os')
    {es : List Endpoint} (hes : List.Forall₂ (fun o e => o.build document = .ok e) os es) :
    List.Forall₂ (fun o e => ∀ b, o.build other = .ok b ↔
      ∃ type, o.outputType other = .ok type ∧ b = e.withOutput type) os' es := by
  induction hos generalizing es with
  | nil =>
    cases hes
    exact .nil
  | @cons o p os os' hop _ ih =>
    cases hes with
    | @cons _ e _ es he hes =>
      refine .cons ?_ (ih hes)
      rw [Declared.build, hop.path, hop.method] at he
      exact build_eq_ok_iff h hop.item hop.operation he

/-- The paths of a document, sorted, are those of the other, with related items. -/
def PathsAlike (R : Value → Value → Prop) (root root' : List (Scalar × Value)) : Prop :=
  ∀ m, Value.field root "paths" = .map m → ∃ n, Value.field root' "paths" = .map n ∧
    Outcome.Refines (EntriesAlike R) (Scalar.sortOn (·.1) m) (Scalar.sortOn (·.1) n)

variable {root root' : List (Scalar × Value)} (hroot : document.entries? = some root)
  (hroot' : other.entries? = some root') (hpaths : PathsAlike R root root')
include hroot hroot' hpaths

theorem declared_refines :
    Outcome.Refines (List.Forall₂ (Declared.Alike R)) (declared document) (declared other) := by
  intro os hos
  obtain ⟨_, m, sorted, groups, hr, hm, hsorted, hgroups, rfl⟩ := declared_eq_ok.1 hos
  cases hroot.symm.trans hr
  obtain ⟨n, hn, hrefines⟩ := hpaths m hm
  obtain ⟨sorted', hsorted', hentries⟩ := hrefines sorted hsorted
  have hunder : Outcome.Refines (List.Forall₂ (List.Forall₂ (Declared.Alike R)))
      (sorted.mapM fun p => declaredUnder document p.1 p.2)
      (sorted'.mapM fun p => declaredUnder other p.1 p.2) :=
    .mapM hentries fun p q hpq => hpq.1 ▸ declaredUnder_refines h p.1 hpq.2
  obtain ⟨groups', hgroups', hall⟩ := hunder groups hgroups
  exact ⟨groups'.flatten, declared_eq_ok.2 ⟨root', n, sorted', groups', hroot', hn, hsorted',
    hgroups', rfl⟩, List.rel_flatten hall⟩

/-- If the responses of each operation give the same type, those of all operations do. -/
theorem outputTypes_refines
    (hresponses : ∀ os, declared document = .ok os → ∀ o ∈ os, ∀ p, o.Alike R p →
      Outcome.Refines Eq (o.outputType document) (p.outputType other)) :
    Outcome.Refines Eq (outputTypes document) (outputTypes other) := by
  intro types htypes
  obtain ⟨os, hos, htypes⟩ := Outcome.bind_eq_ok.1 htypes
  obtain ⟨os', hos', hall⟩ := declared_refines h hroot hroot' hpaths os hos
  have heq := Outcome.Refines.mapM_eq (forall₂_and_mem hall) fun o p hop =>
    hresponses os hos o hop.1 p hop.2
  exact ⟨types, Outcome.bind_eq_ok.2 ⟨os', hos', heq.eq_ok htypes⟩, rfl⟩

/-- Of two documents of which the same can be read, the second gives the endpoints of the first with
the output types that its own responses give, and fails if they give none. -/
theorem ofDocument_eq_ok_iff_withOutputTypes
    (htitle : Outcome.Refines S (title root) (title root')) {a : Api}
    (ha : ofDocument document = .ok a) (b : Api) :
    ofDocument other = .ok b ↔ ∃ types, outputTypes other = .ok types ∧ b = a.withOutputTypes types := by
  obtain ⟨_, os, es, hr, hos, hes, ha⟩ := ofDocument_eq_ok_iff.1 ha
  cases hroot.symm.trans hr
  obtain ⟨os', hos', hall⟩ := declared_refines h hroot hroot' hpaths os hos
  have hbuild := forall₂_build h hall (Outcome.mapM_eq_ok.1 hes)
  have hname : Outcome.Refines Eq (title root >>= packageName) (title root' >>= packageName) := by
    refine htitle.bind fun v w hvw => ?_
    have halike := h.alike_below v w hvw
    rw [packageName, packageName, halike.isSet_eq, halike.string_eq]
    exact .of_eq rfl
  have hnamed : ∀ types : List String, types.length = es.length →
      nameAllOf root' (es.zipWith withOutput types) = .ok (a.withOutputTypes types) := by
    intro types hlength
    unfold nameAllOf at ha ⊢
    split at ha
    · exact absurd ha Outcome.fail_ne_ok
    · next hne =>
      obtain ⟨name, hok, rfl⟩ := Outcome.map_eq_ok.1 ha
      rw [if_neg, hname.eq_ok hok, nameAll, nameFrom_withOutput]
      · rfl
      · cases es <;> cases types <;> simp_all
  have hlength : ∀ types, os'.mapM (·.outputType other) = .ok types → types.length = es.length :=
    fun types htypes => (Outcome.mapM_eq_ok.1 htypes).length_eq.symm.trans hbuild.length_eq
  rw [ofDocument_eq_ok_iff]
  constructor
  · rintro ⟨_, _, bs, hr, hos, hbs, hb⟩
    cases hroot'.symm.trans hr
    cases hos'.symm.trans hos
    obtain ⟨types, htypes, rfl⟩ := (mapM_build_eq_ok_iff hbuild).1 hbs
    rw [hnamed types (hlength types htypes)] at hb
    exact ⟨types, Outcome.bind_eq_ok.2 ⟨os', hos', htypes⟩, (Except.ok.inj hb).symm⟩
  · rintro ⟨types, htypes, rfl⟩
    obtain ⟨_, hos, htypes⟩ := Outcome.bind_eq_ok.1 htypes
    cases hos'.symm.trans hos
    exact ⟨root', os', _, hroot', hos', (mapM_build_eq_ok_iff hbuild).2 ⟨types, htypes, rfl⟩,
      hnamed types (hlength types htypes)⟩

end Endpoint
end ApiScribe
