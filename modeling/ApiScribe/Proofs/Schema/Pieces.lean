import ApiScribe.Proofs.Schema.Mentions
import ApiScribe.Proofs.TypeText.Pieces

/-! The type of a schema in pieces. It is put together from the types of the schemas inside, with
signs that end every name, brackets that are closed, and marks behind the keys of object types. So
the text of the type passes the check as it is, and the names read in it are those of the references
inside the schema. -/
namespace ApiScribe
namespace Schema

open TypeText

/-- What stands between combined types. -/
def Combination.sign : Combination → String
  | .union => " | "
  | .inter => " & "

/-- Combined types in pieces, each type once. -/
def Combination.pieces (c : Combination) (pss : List (List Piece)) : List Piece :=
  if pss.isEmpty then [.plain "unknown"] else [.plain c.sign].intercalate (distinct pss)

/-- A field of an object type in pieces. -/
def fieldPieces (k : TypeKey) (ps : List Piece) : List Piece :=
  .key k.name :: .plain (if k.optional then "?: " else ": ") :: ps

/-- An array in pieces. -/
def arrayPieces (ps : List Piece) : List Piece :=
  if isWord (joined ps) then ps ++ [.plain "[]"] else .plain "Array<" :: ps ++ [.plain ">"]

/-- The type of a schema with this top in pieces; whether it is a reference is given. -/
def Shape.pieces (isRef : Bool) (f : Value → List Piece) : Shape → List Piece
  | .name type => [if isRef then .ref type else .plain type]
  | .combination c parts => c.pieces (parts.map f)
  | .array item => arrayPieces (f item)
  | .object fields => .plain "\x7b " ::
      [.plain "; "].intercalate (fields.map fun p => fieldPieces p.1 (f p.2)) ++ [.plain " \x7d"]
  | .record value => .plain "Record<string, " :: f value ++ [.plain ">"]

/-- The type of a schema in pieces. -/
def pieces (schema : Value) : List Piece :=
  match h : shape schema with
  | .ok (.name type) => Shape.pieces schema.ref?.isSome (fun _ => []) (.name type)
  | .ok (.combination c parts) => c.pieces (parts.attach.map fun ⟨x, hx⟩ =>
      have := size_shape h hx
      pieces x)
  | .ok (.array item) =>
    have := size_shape h List.mem_cons_self
    arrayPieces (pieces item)
  | .ok (.object fields) => .plain "\x7b " ::
      [.plain "; "].intercalate (fields.attach.map fun ⟨p, hp⟩ =>
        have := size_shape h (List.mem_map.2 ⟨p, hp, rfl⟩)
        fieldPieces p.1 (pieces p.2)) ++ [.plain " \x7d"]
  | .ok (.record value) =>
    have := size_shape h List.mem_cons_self
    .plain "Record<string, " :: pieces value ++ [.plain ">"]
  | .error _ => []
termination_by sizeOf schema
decreasing_by all_goals exact this

theorem pieces_eq {v : Value} {s : Shape} (h : shape v = .ok s) :
    pieces v = s.pieces v.ref?.isSome pieces := by
  rw [pieces]
  split <;> rename_i h' <;> rw [h] at h' <;> cases h'
  · rfl
  · simp [Shape.pieces]
  · rfl
  · rw [Shape.pieces, List.map_subtype (g := fun p => fieldPieces p.1 (pieces p.2)) fun _ _ => rfl,
      List.unattach_attach]
  · rfl

theorem Combination.joined_pieces (c : Combination) (pss : List (List Piece)) :
    joined (c.pieces pss) = c.text (pss.map joined) := by
  have htext : c.text (pss.map joined) = if (pss.map joined).isEmpty then "unknown"
      else c.sign.intercalate (dedupe (pss.map joined)) := by
    cases c <;> rfl
  rw [htext, Combination.pieces, List.isEmpty_map]
  split
  · rfl
  · rw [joined_intercalate, map_joined_distinct, dedupe]

theorem joined_arrayPieces (ps : List Piece) : joined (arrayPieces ps) = arrayText (joined ps) := by
  unfold arrayPieces arrayText
  split <;> simp [Piece.text, String.append_assoc]

theorem joined_fieldPieces (k : TypeKey) (ps : List Piece) :
    joined (fieldPieces k ps) = Shape.fieldText k (joined ps) := by
  simp [fieldPieces, Shape.fieldText, Piece.text, String.append_assoc]

/-- The text of a type whose parts are in pieces is that of its own pieces. -/
theorem Shape.text_eq {s : Shape} {f : Value → Outcome String} {g : Value → List Piece}
    (isRef : Bool) (h : ∀ x ∈ s.parts, f x = .ok (joined (g x))) :
    s.text f = .ok (joined (s.pieces isRef g)) := by
  cases s with
  | name type => cases isRef <;> simp [Shape.text, Shape.pieces, Piece.text]
  | combination c parts =>
    have hall : parts.mapM f = .ok (parts.map fun x => joined (g x)) := Outcome.mapM_eq_ok_map h
    rw [Shape.text, hall, Shape.pieces, Combination.joined_pieces, List.map_map]
    rfl
  | array item =>
    rw [Shape.text, h item List.mem_cons_self, Shape.pieces, joined_arrayPieces]
    rfl
  | object fields =>
    have hfields : ∀ p ∈ fields, Shape.fieldText p.1 <$> f p.2 =
        .ok (joined (fieldPieces p.1 (g p.2))) := by
      intro p hp
      rw [h p.2 (List.mem_map_of_mem hp), joined_fieldPieces]
      rfl
    rw [Shape.text, Outcome.mapM_eq_ok_map hfields, Shape.pieces]
    simp only [List.cons_append, joined_cons, joined_append, joined_intercalate, List.map_map]
    simp [objectText, Piece.text, String.append_assoc, Function.comp_def, Functor.map, Except.map]
  | record value =>
    rw [Shape.text, h value List.mem_cons_self, Shape.pieces]
    simp [Piece.text, String.append_assoc, Functor.map, Except.map]

/-- If a type has a text, so have those that it is made of. -/
theorem Shape.exists_of_text_eq_ok {s : Shape} {f : Value → Outcome String} {t : String}
    (h : s.text f = .ok t) {x : Value} (hx : x ∈ s.parts) : ∃ u, f x = .ok u := by
  cases s with
  | name type => cases hx
  | combination c parts =>
    obtain ⟨ts, hts, -⟩ := Outcome.map_eq_ok.1 h
    obtain ⟨u, -, hu⟩ := Outcome.exists_of_mapM_mem hts hx
    exact ⟨u, hu⟩
  | array item =>
    obtain rfl := List.mem_singleton.1 hx
    obtain ⟨u, hu, -⟩ := Outcome.map_eq_ok.1 h
    exact ⟨u, hu⟩
  | object fields =>
    obtain ⟨p, hp, rfl⟩ := List.mem_map.1 hx
    obtain ⟨ts, hts, -⟩ := Outcome.map_eq_ok.1 h
    obtain ⟨_, -, hmember⟩ := Outcome.exists_of_mapM_mem hts hp
    obtain ⟨u, hu, -⟩ := Outcome.map_eq_ok.1 hmember
    exact ⟨u, hu⟩
  | record value =>
    obtain rfl := List.mem_singleton.1 hx
    obtain ⟨u, hu, -⟩ := Outcome.map_eq_ok.1 h
    exact ⟨u, hu⟩

/-- A schema inside which all schemas have a top. -/
def IsSchema (v : Value) : Prop := ∀ x ∈ inside v, ∃ s, shape x = .ok s

/-- What holds of a schema whenever it holds of the schemas that it is made of holds of all. -/
theorem IsSchema.induction {P : Value → Prop} {v : Value} (h : IsSchema v)
    (hstep : ∀ v s, shape v = .ok s → (∀ x ∈ s.parts, IsSchema x) → (∀ x ∈ s.parts, P x) → P v) :
    P v := by
  induction hn : sizeOf v using Nat.strongRecOn generalizing v with
  | ind n ih =>
    subst hn
    obtain ⟨s, hs⟩ := h v Value.mem_within_self
    have hparts : ∀ x ∈ s.parts, IsSchema x := fun x hx y hy => h y (inside_subset hs hx hy)
    exact hstep v s hs hparts fun x hx => ih (sizeOf x) (size_shape hs hx) (hparts x hx) rfl

theorem typeText_of_isSchema {v : Value} (h : IsSchema v) :
    typeText v = .ok (joined (pieces v)) := by
  refine h.induction (P := fun v => typeText v = .ok (joined (pieces v))) fun v s hs _ hparts => ?_
  rw [typeText_eq, hs, pieces_eq hs]
  exact Shape.text_eq v.ref?.isSome hparts

/-- A schema has a type just if all schemas inside it have a top. -/
theorem exists_typeText_iff {v : Value} : (∃ t, typeText v = .ok t) ↔ IsSchema v := by
  refine ⟨?_, fun h => ⟨_, typeText_of_isSchema h⟩⟩
  rintro ⟨t, ht⟩
  induction hn : sizeOf v using Nat.strongRecOn generalizing v t with
  | ind n ih =>
    subst hn
    rw [typeText_eq] at ht
    obtain ⟨s, hs, ht⟩ := Outcome.bind_eq_ok.1 ht
    intro y hy
    rw [inside, Value.within_eq, below_eq hs] at hy
    rcases List.mem_cons.1 hy with rfl | hy
    · exact ⟨s, hs⟩
    · obtain ⟨x, hx, hy⟩ := List.mem_flatMap.1 hy
      obtain ⟨u, hu⟩ := Shape.exists_of_text_eq_ok ht hx
      exact ih (sizeOf x) (size_shape hs hx) u hu rfl y hy

/-- The names of the references inside a schema and of its properties are made of letters, digits
and underscores and do not start with a digit. -/
structure HasNames (v : Value) : Prop where
  refs : ∀ ref ∈ refs v, isName (Reference.targetName ref).toList = true
  properties : ∀ name ∈ propertyNames v, isName name.toList = true

theorem HasNames.part {v x : Value} {s : Shape} (h : HasNames v) (hs : shape v = .ok s)
    (hx : x ∈ s.parts) : HasNames x where
  refs := fun ref href => h.refs ref (refs_subset hs hx href)
  properties := fun name hname => h.properties name (propertyNames_subset hs hx hname)

theorem shape_of_ref? {v : Value} {ref : String} (h : v.ref? = some ref) :
    shape v = .ok (.name (Reference.targetName ref)) := by
  cases v with
  | map m =>
    simp only [Value.ref?, Value.field?] at h
    obtain ⟨w, hw, hstr⟩ := Option.bind_eq_some_iff.1 h
    obtain rfl := Value.str?_eq_some.1 hstr
    have hne : m.isEmpty = false := by
      cases m with
      | nil => cases hw
      | cons p m => rfl
    simp [shape, hne, hw]
  | _ => cases h

/-- A type that is a name is the name of a reference, or it is known without import. -/
theorem pieces_of_name {v : Value} {type : String} (h : shape v = .ok (.name type)) :
    (∃ ref, v.ref? = some ref ∧ pieces v = [.ref (Reference.targetName ref)]) ∨
      v.ref? = none ∧ type ∈ plainNames ∧ pieces v = [.plain type] := by
  rw [pieces_eq h, Shape.pieces]
  cases href : v.ref? with
  | some ref =>
    have hname := shape_of_ref? href
    rw [h] at hname
    cases hname
    exact .inl ⟨ref, rfl, rfl⟩
  | none =>
    refine .inr ⟨rfl, (name_of_shape h).resolve_left ?_, rfl⟩
    rintro ⟨ref, hfield, -⟩
    rw [Value.ref?, hfield] at href
    cases href

theorem areRead_plain {type : String} (h : type ∈ plainNames) : AreRead [.plain type] := by
  have hall : ∀ t ∈ plainNames, isName t.toList = true ∧ isKnown t = true := by decide
  exact .known (hall type h).1 (hall type h).2

theorem distinct_ne_nil {pss : List (List Piece)} (h : pss ≠ []) : distinct pss ≠ [] := by
  obtain ⟨ps, hps⟩ := List.exists_mem_of_ne_nil pss h
  obtain ⟨qs, hqs, -⟩ := exists_mem_distinct hps
  exact List.ne_nil_of_mem hqs

theorem Combination.areRead_pieces (c : Combination) {pss : List (List Piece)}
    (h : ∀ ps ∈ pss, AreRead ps) : AreRead (c.pieces pss) := by
  have hsign : c.sign ∈ [" | ", " & ", "; "] := by cases c <;> decide
  unfold Combination.pieces
  split
  · exact areRead_plain (by decide)
  · next hne =>
    have hdistinct : distinct pss ≠ [] := distinct_ne_nil (by simpa using hne)
    exact .intercalate c.sign hsign hdistinct fun ps hps => h ps (distinct_subset pss hps)

/-- Though each type is taken once, the names in all of them are there. -/
theorem Combination.mem_imported_pieces (c : Combination) {pss : List (List Piece)}
    (h : ∀ ps ∈ pss, AreRead ps) {n : String} :
    n ∈ imported (c.pieces pss) ↔ ∃ ps ∈ pss, n ∈ imported ps := by
  unfold Combination.pieces
  split
  · next hempty =>
    rw [List.isEmpty_iff.1 hempty]
    simp
  · rw [imported_intercalate, List.mem_flatMap, AreRead.mem_imported_distinct h]

theorem areRead_arrayPieces {ps : List Piece} (h : AreRead ps) : AreRead (arrayPieces ps) := by
  unfold arrayPieces
  split
  · simpa [AreRead, Piece.text] using IsRead.brackets h
  · simpa [AreRead, Piece.text] using IsRead.array h

theorem areRead_fieldPieces {k : TypeKey} {ps : List Piece} (hk : isName k.name.toList = true)
    (h : AreRead ps) : AreRead (fieldPieces k ps) := by
  have hmark : (if k.optional then "?: " else ": ") ∈ [": ", "?: "] := by
    cases k.optional <;> decide
  have hfield := IsRead.field hk hmark h
  simpa [AreRead, fieldPieces, Piece.text] using hfield

/-- The type of a schema is read as its pieces say. -/
theorem areRead_pieces {v : Value} (h : HasNames v) (hv : IsSchema v) : AreRead (pieces v) := by
  refine hv.induction (P := fun v => HasNames v → AreRead (pieces v)) (fun v s hs _ ih h => ?_) h
  have hpart : ∀ x ∈ s.parts, AreRead (pieces x) := fun x hx => ih x hx (h.part hs hx)
  cases s with
  | name type =>
    obtain ⟨ref, href, hpieces⟩ | ⟨-, hplain, hpieces⟩ := pieces_of_name hs
    · rw [hpieces]
      exact .ref (h.refs ref (List.mem_filterMap.2 ⟨v, Value.mem_within_self, href⟩))
    · rw [hpieces]
      exact areRead_plain hplain
  | combination c parts =>
    rw [pieces_eq hs]
    exact c.areRead_pieces (List.forall_mem_map.2 hpart)
  | array item =>
    rw [pieces_eq hs]
    exact areRead_arrayPieces (hpart item List.mem_cons_self)
  | object fields =>
    have hne : fields.map (fun p => fieldPieces p.1 (pieces p.2)) ≠ [] := by
      simpa using fields_ne_nil hs
    have hfields : ∀ ps ∈ fields.map (fun p => fieldPieces p.1 (pieces p.2)), AreRead ps :=
      List.forall_mem_map.2 fun p hp => areRead_fieldPieces
        (h.properties p.1.name (mem_propertyNames hs hp)) (hpart p.2 (List.mem_map_of_mem hp))
    have hobject := IsRead.object (AreRead.intercalate "; " (by decide) hne hfields)
    rw [pieces_eq hs, Shape.pieces]
    simpa [AreRead, Piece.text] using hobject
  | record value =>
    have hrecord := IsRead.record (hpart value List.mem_cons_self)
    rw [pieces_eq hs, Shape.pieces]
    simpa [AreRead, Piece.text] using hrecord

/-- The names in the type of a schema are its own, if it is a reference, and those in the types of
the schemas that it is made of. -/
theorem mem_imported_pieces_iff {v : Value} {s : Shape} (hs : shape v = .ok s)
    (hpart : ∀ x ∈ s.parts, AreRead (pieces x)) {n : String} : n ∈ imported (pieces v) ↔
      (∃ ref, v.ref? = some ref ∧ Reference.targetName ref = n ∧ isKnown n = false) ∨
        ∃ x ∈ s.parts, n ∈ imported (pieces x) := by
  have hnone : (∀ type, s ≠ .name type) →
      ¬∃ ref, v.ref? = some ref ∧ Reference.targetName ref = n ∧ isKnown n = false := by
    rintro hne ⟨ref, href, -⟩
    rw [shape_of_ref? href] at hs
    cases hs
    exact hne _ rfl
  cases s with
  | name type =>
    obtain ⟨ref, href, hpieces⟩ | ⟨hnone, -, hpieces⟩ := pieces_of_name hs
    · simp [hpieces, mem_imported_ref, href, Shape.parts]
    · simp [hpieces, hnone, Shape.parts]
  | combination c parts =>
    rw [or_iff_right (hnone (by simp)), pieces_eq hs, Shape.pieces]
    simpa [Shape.parts] using c.mem_imported_pieces (List.forall_mem_map.2 hpart)
  | array item =>
    rw [or_iff_right (hnone (by simp)), pieces_eq hs, Shape.pieces, arrayPieces]
    split <;> simp [Shape.parts]
  | object fields =>
    rw [or_iff_right (hnone (by simp)), pieces_eq hs, Shape.pieces]
    simp only [Shape.parts, fieldPieces, List.cons_append, imported_plain, imported_append,
      imported_nil, List.append_nil, imported_intercalate, List.flatMap_map, imported_key,
      List.mem_flatMap, List.mem_map, exists_exists_and_eq_and]
  | record value =>
    rw [or_iff_right (hnone (by simp)), pieces_eq hs, Shape.pieces]
    simp [Shape.parts]

/-- The references inside a schema are its own and those inside the schemas that it is made of. -/
theorem mem_refs {v : Value} {s : Shape} (hs : shape v = .ok s) {ref : String} :
    ref ∈ refs v ↔ v.ref? = some ref ∨ ∃ x ∈ s.parts, ref ∈ refs x := by
  rw [refs, inside, Value.mem_filterMap_within, below_eq hs]
  rfl

/-- The names that need an import in the type of a schema are those of the references inside. -/
theorem mem_imported_pieces {v : Value} (h : HasNames v) (hv : IsSchema v) {n : String} :
    n ∈ imported (pieces v) ↔
      (∃ ref ∈ refs v, Reference.targetName ref = n) ∧ isKnown n = false := by
  refine hv.induction (P := fun v => HasNames v → (n ∈ imported (pieces v) ↔
    (∃ ref ∈ refs v, Reference.targetName ref = n) ∧ isKnown n = false))
    (fun v s hs hschema ih h => ?_) h
  have hpart : ∀ x ∈ s.parts, AreRead (pieces x) := fun x hx =>
    areRead_pieces (h.part hs hx) (hschema x hx)
  rw [mem_imported_pieces_iff hs hpart]
  constructor
  · rintro (⟨ref, href, hname, hknown⟩ | ⟨x, hx, hmem⟩)
    · exact ⟨⟨ref, (mem_refs hs).2 (.inl href), hname⟩, hknown⟩
    · obtain ⟨⟨ref, href, hname⟩, hknown⟩ := (ih x hx (h.part hs hx)).1 hmem
      exact ⟨⟨ref, refs_subset hs hx href, hname⟩, hknown⟩
  · rintro ⟨⟨ref, href, hname⟩, hknown⟩
    rcases (mem_refs hs).1 href with href | ⟨x, hx, href⟩
    · exact .inl ⟨ref, href, hname, hknown⟩
    · exact .inr ⟨x, hx, (ih x hx (h.part hs hx)).2 ⟨⟨ref, href, hname⟩, hknown⟩⟩

/-- If the references and properties inside a schema have plain names, it has a type just if all
schemas inside have a top. The type passes the check as it is, and the names read in it are those of
the references in it that are not known without import, each once, in the order of the text. -/
theorem names_typeText {v : Value} (h : HasNames v) :
    ((∃ t, typeText v = .ok t) ↔ IsSchema v) ∧
    ∀ t, typeText v = .ok t → joined (pieces v) = t ∧ normalize t = t ∧
      TypeText.names t = (imported (pieces v)).eraseDups ∧
      ∀ n, n ∈ TypeText.names t ↔
        (∃ ref ∈ refs v, Reference.targetName ref = n) ∧ isKnown n = false := by
  refine ⟨exists_typeText_iff, fun t ht => ?_⟩
  have hv : IsSchema v := exists_typeText_iff.1 ⟨t, ht⟩
  have hread : AreRead (pieces v) := areRead_pieces h hv
  obtain rfl : joined (pieces v) = t := by
    rw [typeText_of_isSchema hv] at ht
    exact Except.ok.inj ht
  refine ⟨rfl, hread.normalize_eq, hread.names_eq, fun n => ?_⟩
  rw [hread.names_eq, List.mem_eraseDups, mem_imported_pieces h hv]

/-- A choice, and an object with a property that has the name of a type. -/
def choiceAndObject : Value :=
  let ref (name : String) : Value := .record [("$ref", .str ("#/definitions/" ++ name))]
  .record [("allOf", .list [
    .record [("oneOf", .list [ref "B", .record [("type", .str "array"), ("items", ref "A_1")]])],
    .record [("properties", .record [("B", ref "Date"), ("c", ref "B")])]])]

theorem names_typeText_choiceAndObject : HasNames choiceAndObject ∧
    ∃ t, t = "B | A_1[] & \x7b B?: Date; c?: B \x7d" ∧ typeText choiceAndObject = .ok t ∧
      normalize t = t ∧ TypeText.names t = ["B", "A_1"] := by
  have hnames : HasNames choiceAndObject := ⟨by decide +kernel, by decide +kernel⟩
  obtain ⟨-, hall⟩ := names_typeText hnames
  have ht : typeText choiceAndObject = .ok "B | A_1[] & \x7b B?: Date; c?: B \x7d" := by
    decide +kernel
  obtain ⟨-, hnormal, hread, -⟩ := hall _ ht
  exact ⟨hnames, _, rfl, ht, hnormal, hread.trans (by decide +kernel)⟩

end Schema
end ApiScribe
