import ApiScribe.Proofs.Endpoint.Extraction
import ApiScribe.Proofs.Json.Quoted
import ApiScribe.Proofs.Value.Basic
import ApiScribe.Request

/-! The slots of an input. Parameters are told apart by name and place, but the members of an input
are told apart by name alone: of several slots each has a property of its own if and only if no
path field is a query field and no field is called like the body. -/
namespace ApiScribe

namespace Endpoint

open Schema

/-- The texts that tell a parameter apart, if it has texts for a name and a place. -/
def Parameter.key? (p : Parameter) : Option (String × String) :=
  p.name.str?.bind fun name => p.place.str?.map fun place => (name, place)

theorem Parameter.key?_eq_some {p : Parameter} {name place : String} :
    p.key? = some (name, place) ↔ p.name = .str name ∧ p.place = .str place := by
  simp only [key?, Option.bind_eq_some_iff, Option.map_eq_some_iff, Scalar.str?_eq_some,
    Prod.mk.injEq]
  constructor
  · rintro ⟨_, hname, _, hplace, rfl, rfl⟩
    exact ⟨hname, hplace⟩
  · rintro ⟨hname, hplace⟩
    exact ⟨name, hname, place, hplace, rfl, rfl⟩

/-- Parameters that replace one another have one key or none. -/
theorem Parameter.key?_eq_of_same {p q : Parameter}
    (h : (q.name == p.name && q.place == p.place) = true) : q.key? = p.key? := by
  rw [Bool.and_eq_true] at h
  rw [key?, key?, Scalar.str?_eq_of_same h.1, Scalar.str?_eq_of_same h.2]

/-- Parameters with one key replace one another. -/
theorem Parameter.same_of_key? {p q : Parameter} {k : String × String} (hp : p.key? = some k)
    (hq : q.key? = some k) : (q.name == p.name && q.place == p.place) = true := by
  have hsame (s : String) : ((.str s : Scalar) == .str s) = true := beq_self_eq_true s
  rw [(key?_eq_some.1 hp).1, (key?_eq_some.1 hp).2, (key?_eq_some.1 hq).1,
    (key?_eq_some.1 hq).2, hsame, hsame]
  rfl

/-- The keys of parameters, in order. -/
def keys (ps : List Parameter) : List (String × String) := ps.filterMap Parameter.key?

theorem keys_cons (p : Parameter) (ps : List Parameter) :
    keys (p :: ps) = p.key?.toList ++ keys ps := by
  cases hp : p.key? with
  | none => exact List.filterMap_cons_none hp
  | some k => exact List.filterMap_cons_some hp

/-- A parameter is put in the place of the one with its key, or behind all others. -/
theorem keys_putParameter (p : Parameter) (qs : List Parameter) :
    keys (putParameter p qs) = keys qs ++ p.key?.toList.filter (· ∉ keys qs) := by
  induction qs with
  | nil =>
    rw [putParameter, keys_cons]
    simp [keys]
  | cons q qs ih =>
    rw [putParameter]
    by_cases hsame : (q.name == p.name && q.place == p.place) = true
    · rw [if_pos hsame, keys_cons, keys_cons, Parameter.key?_eq_of_same hsame, List.self_eq_append_right]
      cases p.key? <;> simp
    · have hne : ∀ k ∈ p.key?.toList, k ∉ q.key?.toList := by
        intro k hp hq
        exact hsame (Parameter.same_of_key? (Option.mem_toList.1 hp) (Option.mem_toList.1 hq))
      rw [if_neg hsame, keys_cons, ih, keys_cons, List.append_assoc]
      congr 2
      refine List.filter_congr fun k hk => ?_
      simp only [List.mem_append, hne k hk, false_or]

theorem mem_putParameter {p x : Parameter} {qs : List Parameter} (h : x ∈ putParameter p qs) :
    x = p ∨ x ∈ qs := by
  induction qs with
  | nil => exact .inl (List.mem_singleton.1 h)
  | cons q qs ih =>
    rw [putParameter] at h
    split at h
    · exact (List.mem_cons.1 h).imp_right (List.mem_cons_of_mem q)
    · rcases List.mem_cons.1 h with rfl | h
      · exact .inr List.mem_cons_self
      · exact (ih h).imp_right (List.mem_cons_of_mem q)

/-- Merged parameters: no key comes twice, and a parameter is told apart by the place it is in. -/
structure AreMerged (ps : List Parameter) : Prop where
  keys : (keys ps).Nodup
  places : ∀ p ∈ ps, ∀ place, p.isIn place = true → p.place = .str place

theorem AreMerged.put {p : Parameter} {qs : List Parameter} (h : AreMerged qs)
    (hp : ∀ place, p.isIn place = true → p.place = .str place) :
    AreMerged (putParameter p qs) where
  keys := by
    rw [keys_putParameter, List.nodup_append]
    refine ⟨h.keys, ?_, ?_⟩
    · exact List.Nodup.filter _ (by cases p.key? <;> simp)
    · rintro k hk _ hk' rfl
      simp [hk] at hk'
  places := by
    intro x hx
    rcases mem_putParameter hx with rfl | hx
    · exact hp
    · exact h.places x hx

/-- What a parameter is read from. -/
theorem exists_of_parameter? {document raw : Value} {p : Parameter}
    (h : parameter? document raw = .ok (some p)) :
    Reference.deref document raw = .ok (.map p.fields) ∧
      (∃ name, Entries.get? p.fields (.str "name") = some name ∧ name.scalar? = some p.name) ∧
      ((Entries.get? p.fields (.str "in")).getD (.str "")).scalar? = some p.place := by
  unfold parameter? at h
  obtain ⟨v, hv, h⟩ := Outcome.bind_eq_ok.1 h
  split at h
  · split at h
    · cases h
    · next name hget =>
      obtain ⟨named, hnamed, h⟩ := Outcome.bind_eq_ok.1 h
      obtain ⟨placed, hplaced, h⟩ := Outcome.bind_eq_ok.1 h
      cases h
      exact ⟨hv, ⟨name, hget, Outcome.expect_eq_ok.1 hnamed⟩, Outcome.expect_eq_ok.1 hplaced⟩
  · cases h

theorem place_of_parameter? {document raw : Value} {p : Parameter}
    (h : parameter? document raw = .ok (some p)) (place : String) (hin : p.isIn place = true) :
    p.place = .str place := by
  obtain ⟨-, -, hplace⟩ := exists_of_parameter? h
  rw [Parameter.isIn, Value.field] at hin
  cases hget : Entries.get? p.fields (.str "in") with
  | none =>
    rw [hget] at hin
    cases hin
  | some w =>
    rw [hget, Option.getD_some] at hin hplace
    rw [Value.isString_iff.1 hin] at hplace
    exact (Option.some.inj hplace).symm

/-- What putting a parameter that is read keeps, merged parameters have. -/
theorem mergeParameters_induction {P : List Parameter → Prop} {document : Value}
    {ofPath ofOperation : List Value} (hnil : P [])
    (hput : ∀ merged, ∀ raw ∈ ofPath ++ ofOperation, ∀ p,
      parameter? document raw = .ok (some p) → P merged → P (putParameter p merged))
    {ps : List Parameter} (h : mergeParameters document ofPath ofOperation = .ok ps) : P ps := by
  refine Outcome.foldlM_induction ?_ hnil h
  intro merged raw hraw next hmerged hstep
  obtain ⟨found, hfound, hstep⟩ := Outcome.bind_eq_ok.1 hstep
  cases found with
  | none =>
    cases hstep
    exact hmerged
  | some p =>
    cases hstep
    exact hput merged raw hraw p hfound hmerged

theorem areMerged_mergeParameters {document : Value} {ofPath ofOperation : List Value}
    {ps : List Parameter} (h : mergeParameters document ofPath ofOperation = .ok ps) :
    AreMerged ps :=
  mergeParameters_induction ⟨List.nodup_nil, by simp⟩
    (fun _ _ _ _ hfound hmerged => hmerged.put (place_of_parameter? hfound)) h

/-- The fields of one place are different names. -/
theorem nodup_fields {ps : List Parameter} (h : AreMerged ps) {place : String}
    {fields : List String}
    (hf : List.Forall₂ (fun p f => p.name = .str f) (ps.filter (·.isIn place)) fields) :
    fields.Nodup := by
  have hkeys : ∀ {qs : List Parameter} {fs : List String}, (∀ q ∈ qs, q.place = .str place) →
      List.Forall₂ (fun q f => q.name = .str f) qs fs → keys qs = fs.map (·, place) := by
    intro qs fs hplaces hfs
    induction hfs with
    | nil => rfl
    | @cons q f qs fs hq _ ih =>
      have hkey : q.key? = some (f, place) :=
        Parameter.key?_eq_some.2 ⟨hq, hplaces q List.mem_cons_self⟩
      rw [keys_cons, hkey, ih fun x hx => hplaces x (List.mem_cons_of_mem q hx)]
      rfl
  have hplaces : ∀ q ∈ ps.filter (·.isIn place), q.place = .str place := by
    intro q hq
    obtain ⟨hmem, hin⟩ := List.mem_filter.1 hq
    exact h.places q hmem place hin
  have hsub := List.filter_sublist (p := (·.isIn place)) (l := ps)
  have hnodup : (keys (ps.filter (·.isIn place))).Nodup :=
    h.keys.sublist (hsub.filterMap Parameter.key?)
  rw [hkeys hplaces hf] at hnodup
  exact hnodup.of_map _

/-- The names of the slots, in the order of the members of the shape. -/
def slotNames (e : Endpoint) : List String :=
  e.pathFields ++ e.queryFields ++ e.requestBodyField.toList

/-- The keys of the members of the shape. -/
def memberKeys (e : Endpoint) : List String := e.slotNames.map memberKey

/-- A member of an object type with the given key. -/
def HasKey (key member : String) : Prop :=
  ∃ mark ∈ ["", "?"], ∃ type, member = key ++ mark ++ ": " ++ type

/-- No path field is a query field, and no field has the name of the body. -/
structure HasDistinctSlots (e : Endpoint) : Prop where
  fields : ∀ f ∈ e.pathFields, f ∉ e.queryFields
  body : ∀ b ∈ e.requestBodyField, b ∉ e.pathFields ∧ b ∉ e.queryFields

theorem nodup_slotNames_iff {e : Endpoint} (hpath : e.pathFields.Nodup)
    (hquery : e.queryFields.Nodup) : e.slotNames.Nodup ↔ e.HasDistinctSlots := by
  have hbody : e.requestBodyField.toList.Nodup := by cases e.requestBodyField <;> simp
  rw [slotNames, List.nodup_append, List.nodup_append]
  constructor
  · rintro ⟨⟨-, -, hfields⟩, -, hrest⟩
    refine ⟨fun f hf hf' => hfields f hf f hf' rfl, fun b hb => ?_⟩
    have hne := fun f hf => hrest f hf b (Option.mem_toList.2 hb)
    exact ⟨fun hmem => hne b (List.mem_append_left _ hmem) rfl,
      fun hmem => hne b (List.mem_append_right _ hmem) rfl⟩
  · rintro ⟨hfields, hrest⟩
    refine ⟨⟨hpath, hquery, ?_⟩, hbody, ?_⟩
    · rintro f hf _ hf' rfl
      exact hfields f hf hf'
    · rintro f hf _ hb rfl
      obtain ⟨hp, hq⟩ := hrest f (Option.mem_toList.1 hb)
      exact (List.mem_append.1 hf).elim hp hq

theorem isMemberKey_quoted (s : String) : isMemberKey (Json.quoted s) = false := by
  have hquote : '"'.isAlpha = false := by decide
  simp [isMemberKey, Json.quoted, Json.quotedChars, hquote]

theorem memberKey_injective : Function.Injective memberKey := by
  intro s t h
  unfold memberKey at h
  split at h <;> split at h
  · exact h
  · next hs _ =>
    rw [h, isMemberKey_quoted] at hs
    cases hs
  · next ht =>
    rw [← h, isMemberKey_quoted] at ht
    cases ht
  · exact Json.quoted_injective h

/-- The types of slots: of the parameters in the path and the query, and of the body. -/
def IsSlotType (ps : List Parameter) (bodyType : Option String) (t : String) : Prop :=
  bodyType = some t ∨
    ∃ p ∈ ps, (p.isIn "path" = true ∨ p.isIn "query" = true) ∧ typeText p.schema = .ok t

/-- A member of an object type for a slot of the given name, with one of the given types. -/
def HasSlot (isType : String → Prop) (name member : String) : Prop :=
  ∃ mark ∈ ["", "?"], ∃ type, isType type ∧ member = memberKey name ++ mark ++ ": " ++ type

theorem HasSlot.hasKey {isType : String → Prop} {name member : String}
    (h : HasSlot isType name member) : HasKey (memberKey name) member := by
  obtain ⟨mark, hmark, type, -, hmember⟩ := h
  exact ⟨mark, hmark, type, hmember⟩

/-- What the shape takes from the parameters of one place: names, and a member for each. -/
theorem members_of_mapM (isType : String → Prop) {ps : List Parameter}
    {fields members : List String} {member : Parameter → Outcome String}
    (hf : List.Forall₂ (fun p f => Check.string (.scalar p.name) = .ok f) ps fields)
    (hm : ps.mapM member = .ok members)
    (hmember : ∀ p ∈ ps, ∀ m, member p = .ok m → ∃ f, p.name = .str f ∧ HasSlot isType f m) :
    List.Forall₂ (fun p f => p.name = .str f) ps fields ∧
      List.Forall₂ (HasSlot isType) fields members := by
  rw [Outcome.mapM_eq_ok] at hm
  induction hf generalizing members with
  | nil =>
    cases hm
    exact ⟨.nil, .nil⟩
  | @cons p f ps fs hp _ ih =>
    cases hm with
    | cons hfirst hrest =>
      obtain ⟨hp', hps⟩ := List.forall_mem_cons.1 hmember
      obtain ⟨g, hg, hslot⟩ := hp' _ hfirst
      obtain ⟨hnames, hmembers⟩ := ih hrest hps
      rw [hg] at hp
      cases hp
      exact ⟨.cons hg hnames, .cons hslot hmembers⟩

/-- The shape of the input has a member for every slot, under its key and with its type. -/
theorem slots_of_inputShapeText {e : Endpoint} {ps : List Parameter} {bodyType : Option String}
    {shape : String} (h : e.HasInputs ps bodyType)
    (hshape : inputShapeText (ps.filter (·.isIn "path")) (ps.filter (·.isIn "query")) bodyType =
      .ok shape) :
    List.Forall₂ (fun p f => p.name = .str f) (ps.filter (·.isIn "path")) e.pathFields ∧
      List.Forall₂ (fun p f => p.name = .str f) (ps.filter (·.isIn "query")) e.queryFields ∧
      ∃ members, shape = objectText members ∧
        List.Forall₂ (HasSlot (IsSlotType ps bodyType)) e.slotNames members := by
  unfold inputShapeText at hshape
  obtain ⟨path, hpath, hshape⟩ := Outcome.bind_eq_ok.1 hshape
  obtain ⟨query, hquery, hshape⟩ := Outcome.bind_eq_ok.1 hshape
  cases hshape
  obtain ⟨hpathNames, hpathMembers⟩ :=
      members_of_mapM (IsSlotType ps bodyType) h.path hpath <| by
    intro p hp m hm
    obtain ⟨name, hname, hm⟩ := Outcome.bind_eq_ok.1 hm
    obtain ⟨type, htype, hm⟩ := Outcome.bind_eq_ok.1 hm
    cases hm
    obtain ⟨hps, hin⟩ := List.mem_filter.1 hp
    exact ⟨name, Scalar.str?_eq_some.1 (Outcome.expect_eq_ok.1 hname), "", by simp, type,
      .inr ⟨p, hps, .inl hin, htype⟩, by simp⟩
  obtain ⟨hqueryNames, hqueryMembers⟩ :=
      members_of_mapM (IsSlotType ps bodyType) h.query hquery <| by
    intro p hp m hm
    obtain ⟨name, hname, hm⟩ := Outcome.bind_eq_ok.1 hm
    obtain ⟨type, htype, hm⟩ := Outcome.bind_eq_ok.1 hm
    cases hm
    obtain ⟨hps, hin⟩ := List.mem_filter.1 hp
    refine ⟨name, Scalar.str?_eq_some.1 (Outcome.expect_eq_ok.1 hname), _, ?_, type,
      .inr ⟨p, hps, .inr hin, htype⟩, rfl⟩
    split <;> simp
  have hbody : List.Forall₂ (HasSlot (IsSlotType ps bodyType)) e.requestBodyField.toList
      (bodyType.map fun t => "body: " ++ t).toList := by
    rw [h.body]
    cases bodyType with
    | none => exact .nil
    | some t =>
      have hkey : "body: " = memberKey "body" ++ "" ++ ": " := by decide
      exact .cons ⟨"", by simp, t, .inl rfl, congrArg (· ++ t) hkey⟩ .nil
  refine ⟨hpathNames, hqueryNames, _, rfl, ?_⟩
  exact List.rel_append (List.rel_append hpathMembers hqueryMembers) hbody

/-- The shape of the input has a member for every slot, under its key. -/
theorem members_of_inputShapeText {e : Endpoint} {ps : List Parameter} {bodyType : Option String}
    {shape : String} (h : e.HasInputs ps bodyType)
    (hshape : inputShapeText (ps.filter (·.isIn "path")) (ps.filter (·.isIn "query")) bodyType =
      .ok shape) :
    List.Forall₂ (fun p f => p.name = .str f) (ps.filter (·.isIn "path")) e.pathFields ∧
      List.Forall₂ (fun p f => p.name = .str f) (ps.filter (·.isIn "query")) e.queryFields ∧
      ∃ members, shape = objectText members ∧ List.Forall₂ HasKey e.memberKeys members := by
  obtain ⟨hpath, hquery, members, hmembers, hslots⟩ := slots_of_inputShapeText h hshape
  exact ⟨hpath, hquery, members, hmembers,
    List.forall₂_map_left_iff.2 (hslots.imp fun _ _ hslot => hslot.hasKey)⟩

/-- Whether a text is the plain name of a property. -/
def isPropertyName : List Char → Bool
  | c :: cs =>
    (c.isAlpha || c == '_' || c == '$') && cs.all fun d => d.isAlphanum || d == '_' || d == '$'
  | [] => false

/-- The property that a plain name stands for; a line feed behind it is no part of it. -/
def plainProperty? (cs : List Char) : Option String :=
  let name := TypeText.chomp cs
  if isPropertyName name then some (String.ofList name) else none

/-- The property that a quoted name stands for, read behind its opening quote, if nothing but
`closing` follows the name. -/
def quotedProperty? (closing cs : List Char) : Option String :=
  match Json.stringChars cs cs with
  | .ok (name, rest) => if rest = closing then some (String.ofList name) else none
  | .error _ => none

/-- The property that the key of a member declares. -/
def keyProperty? (key : String) : Option String :=
  match key.toList with
  | '"' :: cs => quotedProperty? [] cs
  | cs => plainProperty? cs

/-- The property that is read by what follows an object. -/
def readProperty? : List Char → Option String
  | '.' :: cs => plainProperty? cs
  | '[' :: '"' :: cs => quotedProperty? [']'] cs
  | '?' :: '.' :: '[' :: '"' :: cs => quotedProperty? [']'] cs
  | '?' :: '.' :: cs => plainProperty? cs
  | _ => none

/-- The property of the input that an expression reads. -/
def accessorProperty? (text : String) : Option String :=
  (Text.after? "input".toList text.toList).bind readProperty?

theorem chomp_eq_self {cs : List Char} (h : cs.getLast? ≠ some '\n') : TypeText.chomp cs = cs :=
  if_neg h

theorem quotedProperty?_quoted (s : String) (closing : List Char) :
    quotedProperty? closing (s.toList.flatMap (Json.quotedChar true) ++ '"' :: closing) =
      some s := by
  rw [quotedProperty?, Json.stringChars_quoted]
  simp

theorem plainProperty?_eq_some {s : String} (h : s.toList.getLast? ≠ some '\n')
    (hname : isPropertyName s.toList = true) : plainProperty? s.toList = some s := by
  rw [plainProperty?, chomp_eq_self h, if_pos hname, String.ofList_toList]

theorem isPropertyName_of_isMemberKey {s : String} (h : s.toList.getLast? ≠ some '\n')
    (hkey : isMemberKey s = true) : isPropertyName s.toList = true := by
  rw [isMemberKey] at hkey
  cases hs : s.toList with
  | nil =>
    rw [hs] at hkey
    cases hkey
  | cons c cs =>
    have hcs : cs.getLast? ≠ some '\n' := by
      rintro hlast
      exact h (by rw [hs, List.getLast?_cons, hlast]; rfl)
    rw [hs] at hkey
    simpa [isPropertyName, hcs] using hkey

theorem isPropertyName_of_isIdentifier {s : String} (h : s.toList.getLast? ≠ some '\n')
    (hname : TypeText.isIdentifier s = true) : isPropertyName s.toList = true := by
  rw [TypeText.isIdentifier, chomp_eq_self h] at hname
  cases hs : s.toList with
  | nil =>
    rw [hs] at hname
    cases hname
  | cons c cs =>
    rw [hs, TypeText.isName, Bool.and_eq_true, List.all_eq_true] at hname
    obtain ⟨hstart, hrest⟩ := hname
    rw [isPropertyName, Bool.and_eq_true, List.all_eq_true]
    refine ⟨Bool.or_eq_true_iff.2 (.inl hstart), fun d hd => ?_⟩
    exact Bool.or_eq_true_iff.2 (.inl (hrest d hd))

/-- The key of a member declares the property of its name. -/
theorem keyProperty?_memberKey {s : String} (h : s.toList.getLast? ≠ some '\n') :
    keyProperty? (memberKey s) = some s := by
  rw [memberKey]
  split
  · next hkey =>
    have hname := isPropertyName_of_isMemberKey h hkey
    rw [keyProperty?]
    split
    · next hs =>
      rw [hs] at hname
      cases hname
    · exact plainProperty?_eq_some h hname
  · rw [keyProperty?, Json.quoted, String.toList_ofList]
    exact quotedProperty?_quoted s []

theorem accessorProperty?_input (rest : String) :
    accessorProperty? ("input" ++ rest) = readProperty? rest.toList := by
  rw [accessorProperty?, String.toList_append, Text.after?_eq_some_iff.2 rfl, Option.bind_some]

theorem readProperty?_plain {cs : List Char} (h : isPropertyName cs = true) :
    readProperty? ('?' :: '.' :: cs) = plainProperty? cs := by
  unfold readProperty?
  split <;> simp_all [isPropertyName]

/-- The expression for one of several slots reads the property of its name. -/
theorem accessorProperty?_accessor {e : Endpoint} (hslots : 2 ≤ e.inputSlots) {f : String}
    (h : f.toList.getLast? ≠ some '\n') (guarded : Bool) :
    accessorProperty? (e.accessor f guarded) = some f := by
  rw [accessor, if_neg (by omega)]
  split
  · next hname =>
    have hproperty := isPropertyName_of_isIdentifier h hname
    rw [String.append_assoc, accessorProperty?_input, String.toList_append]
    cases guarded
    · exact plainProperty?_eq_some h hproperty
    · exact (readProperty?_plain hproperty).trans (plainProperty?_eq_some h hproperty)
  · rw [String.append_assoc, String.append_assoc, accessorProperty?_input, String.toList_append,
      String.toList_append, Json.quoted, String.toList_ofList]
    have htext : Json.quotedChars true f.toList ++ "]".toList =
        '"' :: (f.toList.flatMap (Json.quotedChar true) ++ ['"', ']']) := by
      simp [Json.quotedChars]
    rw [htext]
    cases guarded <;> exact quotedProperty?_quoted f [']']

/-- The shape of an input with several slots has one member for each slot. Their keys are different
if and only if no path field is a query field and no field has the name of the body; and every slot
is read from the property that its member declares, unless its name ends in a line feed. -/
theorem exists_members_and_nodup_memberKeys_iff {document : Value} {a : Api}
    (h : ofDocument document = .ok a) {e : Endpoint} (he : e ∈ a.endpoints)
    (hslots : 2 ≤ e.inputSlots) :
    (∃ members, e.inputShape = some (objectText members) ∧
      List.Forall₂ HasKey e.memberKeys members) ∧
    (e.memberKeys.Nodup ↔ e.HasDistinctSlots) ∧
    ∀ f ∈ e.slotNames, f.toList.getLast? ≠ some '\n' →
      keyProperty? (memberKey f) = some f ∧
      ∀ guarded, accessorProperty? (e.accessor f guarded) = some f := by
  obtain ⟨d, name, path, method, item, operation, rfl, hbuild⟩ := exists_build_of_mem h he
  obtain ⟨ofPath, ofOperation, ps, bodyType, hmerge, hinputs⟩ := hasInputs_of_build hbuild
  obtain ⟨shape, hsome, hshape⟩ := hinputs.shape hslots
  obtain ⟨hpath, hquery, members, rfl, hmembers⟩ := members_of_inputShapeText hinputs hshape
  have hmerged := areMerged_mergeParameters hmerge
  refine ⟨⟨members, hsome, hmembers⟩, ?_, fun f _ hf => ⟨keyProperty?_memberKey hf, fun guarded =>
    accessorProperty?_accessor hslots hf guarded⟩⟩
  rw [memberKeys, List.nodup_map_iff memberKey_injective]
  exact nodup_slotNames_iff (nodup_fields hmerged hpath) (nodup_fields hmerged hquery)

def textParameter (name place : String) : Value :=
  .record [("name", .str name), ("in", .str place), ("schema", .record [("type", .str "string")])]

def oneOperation (path method : String) (operation : List (String × Value)) : Value :=
  .record [("paths", .record [(path, .record [(method,
    .record (("operationId", .str "order") :: operation))])])]

/-- An order that is chosen by a path field and a query field, and changed by a body. -/
def changeOrder : Value :=
  oneOperation "/orders/{id}" "put" [
    ("parameters", .list [textParameter "id" "path", textParameter "page-size" "query"]),
    ("requestBody", .record [])]

def changedOrder : Endpoint :=
  { operationName := "order", exportName := "defaultOrder",
    builderName := "buildDefaultOrderSpec", method := "PUT", path := "/orders/{id}",
    inputTypeName := "OrderInput",
    inputShape := some "\x7b id: string; \"page-size\"?: string; body: unknown \x7d",
    requestBodyField := some "body", queryFields := ["page-size"], pathFields := ["id"] }

theorem ofDocument_changeOrder : ofDocument changeOrder = .ok { endpoints := [changedOrder] } := by
  decide +kernel

/-- Each of the three slots of the order is read from a property of its own. -/
theorem nodup_memberKeys_changedOrder :
    changedOrder.memberKeys.Nodup ∧
      ∀ f ∈ changedOrder.slotNames, ∀ guarded,
        accessorProperty? (changedOrder.accessor f guarded) = some f := by
  obtain ⟨-, hnodup, hread⟩ := exists_members_and_nodup_memberKeys_iff ofDocument_changeOrder
    (List.mem_singleton_self changedOrder) (by decide)
  refine ⟨hnodup.2 ⟨by decide, by decide⟩, fun f hf guarded => (hread f hf ?_).2 guarded⟩
  exact (by decide : ∀ f ∈ changedOrder.slotNames, f.toList.getLast? ≠ some '\n') f hf

/-- An order that is chosen by two fields of one name. -/
def compareOrder : Value :=
  oneOperation "/orders/{id}" "get" [
    ("parameters", .list [textParameter "id" "path", textParameter "id" "query"])]

def comparedOrder : Endpoint :=
  { operationName := "order", exportName := "defaultOrder",
    builderName := "buildDefaultOrderSpec", method := "GET", path := "/orders/{id}",
    inputTypeName := "OrderInput", inputShape := some "\x7b id: string; id?: string \x7d",
    queryFields := ["id"], pathFields := ["id"], supportsQuery := true,
    supportsMutation := false }

/-- The two fields are declared as one property, and read from it. -/
theorem not_nodup_memberKeys_comparedOrder :
    ofDocument compareOrder = .ok { endpoints := [comparedOrder] } ∧
      comparedOrder.inputSlots = 2 ∧ ¬ comparedOrder.memberKeys.Nodup ∧
      comparedOrder.pathFields.map (comparedOrder.accessor · false) =
        comparedOrder.queryFields.map (comparedOrder.accessor · false) := by
  decide +kernel

end Endpoint
end ApiScribe
