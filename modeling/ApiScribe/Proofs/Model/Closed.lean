import ApiScribe.Proofs.Model.Nullable
import ApiScribe.Proofs.Model.References
import ApiScribe.Proofs.Reference

/-! Whether the models of a document refer to models only. A type takes over the last segment of a
reference as it is spelled, and a model has the name of its schema, so models are closed exactly if
the references that they are read from end in names of models. References that point to named
schemas do so, unless characters of the name are escaped in them. -/
namespace ApiScribe

/-- The names that a model refers to. -/
def Model.refNames (m : Model) : List String := m.kind.types.flatMap ModelType.refNames

/-- Models that refer to nothing but models. -/
def ModelSet.IsClosed (s : ModelSet) : Prop :=
  ∀ m ∈ s.models, ∀ n ∈ m.refNames, n ∈ s.models.map Model.name

namespace Model

/-- The references that the models of a document are read from. -/
def references (document : Value) : List String :=
  (Schema.entries document).flatMap fun p => match p.2 with
    | .map m => (sources m).flatMap refs
    | _ => []

theorem exists_mem_references_iff {document : Value} {n : String} :
    (∃ ref ∈ references document, Reference.targetName ref = n) ↔
      ∃ p ∈ Schema.entries document, ∃ m, p.2 = .map m ∧ ∃ v ∈ sources m, n ∈ targets v := by
  constructor
  · rintro ⟨ref, href, hn⟩
    obtain ⟨p, hp, href⟩ := List.mem_flatMap.1 href
    split at href
    · next m hm =>
      obtain ⟨v, hv, href⟩ := List.mem_flatMap.1 href
      exact ⟨p, hp, m, hm, v, hv, List.mem_map.2 ⟨ref, href, hn⟩⟩
    · cases href
  · rintro ⟨p, hp, m, hm, v, hv, hn⟩
    obtain ⟨ref, href, hn⟩ := List.mem_map.1 hn
    refine ⟨ref, List.mem_flatMap.2 ⟨p, hp, ?_⟩, hn⟩
    rw [hm]
    exact List.mem_flatMap.2 ⟨v, hv, href⟩

/-- Names that are no texts name no items. -/
theorem string_ne_ok_of_index? {name : Scalar} {i : Int} (h : index? name = some i) (s : String) :
    Check.string (.scalar name) ≠ .ok s := by
  cases name <;> simp [index?, Check.string, Checked.reject] at h ⊢

end Model

namespace ModelSet

open Model

/-- The models of a document are those of its named schemas. -/
theorem models_of_ofDocument {document : Value} {s : ModelSet} (h : ofDocument document = .ok s) :
    (∀ m ∈ s.models, ∃ p ∈ Schema.entries document, ofSchema document p.1 p.2 = .ok m) ∧
      ∀ p ∈ Schema.entries document, ∃ m ∈ s.models, ofSchema document p.1 p.2 = .ok m := by
  obtain ⟨schemas, hschemas, h⟩ := Outcome.bind_eq_ok.1 h
  obtain ⟨named, hnamed, h⟩ := Outcome.bind_eq_ok.1 h
  obtain ⟨models, hmodels, h⟩ := Outcome.bind_eq_ok.1 h
  rw [← Outcome.pure_eq_ok.1 h]
  unfold namedSchemas at hnamed
  split at hnamed
  · next es =>
    obtain ⟨sorted, hsorted, hnamed⟩ := Outcome.bind_eq_ok.1 hnamed
    have hmem : ∀ p, p ∈ sorted ↔ p ∈ es := fun p => (Scalar.sortOn_eq_ok hsorted).1.mem_iff
    cases Outcome.pure_eq_ok.1 hnamed
    rw [Schema.entries_eq hschemas]
    constructor
    · intro m hm
      obtain ⟨q, hq, hqm⟩ := Outcome.exists_of_mem_mapM hmodels hm
      obtain ⟨p, hp, rfl⟩ := List.mem_map.1 hq
      exact ⟨p, (hmem p).1 hp, hqm⟩
    · intro p hp
      have hq := List.mem_map_of_mem (f := fun p => (p.1, (.ok p.2 : Outcome Value)))
        ((hmem p).2 hp)
      obtain ⟨m, hm, hqm⟩ := Outcome.exists_of_mapM_mem hmodels hq
      exact ⟨m, hm, hqm⟩
  · next hmap =>
    obtain ⟨items, -, hnamed⟩ := Outcome.bind_eq_ok.1 hnamed
    cases Outcome.pure_eq_ok.1 hnamed
    -- names that count items out are no texts, so there is no model of such a name
    have hnone : ∀ m, m ∉ models := by
      intro m hm
      obtain ⟨q, hq, hqm⟩ := Outcome.exists_of_mem_mapM hmodels hm
      obtain ⟨name, -, rfl⟩ := List.mem_map.1 hq
      obtain ⟨schema, hschema, hqm⟩ := Outcome.bind_eq_ok.1 hqm
      have hitem := Outcome.expect_eq_ok.1 hschema
      simp only [Option.bind_eq_bind, Option.bind_eq_some_iff] at hitem
      obtain ⟨_, -, i, hi, -⟩ := hitem
      exact string_ne_ok_of_index? hi m.name (ofSchema_eq_ok hqm).1
    rw [Schema.entries_of_not_map hschemas hmap]
    exact ⟨fun m hm => absurd hm (hnone m), by simp⟩

variable {document : Value} {s : ModelSet}

/-- No two models have one name. -/
theorem nodup_names (hdistinct : Schema.HasDistinctNames document)
    (h : ofDocument document = .ok s) : (s.models.map Model.name).Nodup := by
  obtain ⟨schemas, hschemas, hrun⟩ := Outcome.bind_eq_ok.1 h
  obtain ⟨named, hnamed, hrun⟩ := Outcome.bind_eq_ok.1 hrun
  obtain ⟨models, hmodels, hs⟩ := Outcome.bind_eq_ok.1 hrun
  cases Outcome.pure_eq_ok.1 hs
  unfold namedSchemas at hnamed
  split at hnamed
  · next es =>
    obtain ⟨sorted, hsorted, hnamed⟩ := Outcome.bind_eq_ok.1 hnamed
    cases Outcome.pure_eq_ok.1 hnamed
    rw [Schema.HasDistinctNames, Schema.entries_eq hschemas] at hdistinct
    have hkeys : (sorted.map fun p => Check.string (.scalar p.1)).Pairwise
        fun a b => ∀ s, a = .ok s → b ≠ .ok s :=
      List.pairwise_map.2 (Scalar.pairwise_sortOn_string hdistinct hsorted)
    -- each name is the text of the key that stands at its place
    have htexts : models.map (fun m => Checked.ok m.name) =
        sorted.map fun p => Check.string (.scalar p.1) := by
      rw [Outcome.map_eq_of_mapM (g := fun q => Check.string (.scalar q.1)) ?_ hmodels,
        List.map_map]
      · rfl
      · intro q m hq
        obtain ⟨_, -, hq⟩ := Outcome.bind_eq_ok.1 hq
        exact (ofSchema_eq_ok hq).1.symm
    rw [← htexts] at hkeys
    refine List.pairwise_map.2 ((List.pairwise_map.1 hkeys).imp ?_)
    intro m n hne hname
    exact hne m.name rfl (by rw [hname])
  · next hmap =>
    have hnone : models = [] := by
      refine List.eq_nil_iff_forall_not_mem.2 fun m hm => ?_
      obtain ⟨p, hp, -⟩ := (models_of_ofDocument h).1 m hm
      rw [Schema.entries_of_not_map hschemas hmap] at hp
      cases hp
    rw [hnone]
    exact List.nodup_nil

/-- A model is found by its name. -/
theorem get?_of_mem (hdistinct : Schema.HasDistinctNames document)
    (h : ofDocument document = .ok s) {m : Model} (hm : m ∈ s.models) :
    s.get? m.name = some m := by
  obtain ⟨d, hd⟩ : ∃ d, s.get? m.name = some d :=
    Option.isSome_iff_exists.1 (List.find?_isSome.2 ⟨m, hm, by simp⟩)
  have hname : d.name = m.name := by simpa using List.find?_some hd
  have hmem := List.mem_of_find?_eq_some hd
  rw [hd, List.inj_on_of_nodup_map (nodup_names hdistinct h) hmem hm hname]

/-- What models refer to is what references end with. -/
theorem exists_mem_refNames_iff (h : ofDocument document = .ok s) {n : String} :
    (∃ m ∈ s.models, n ∈ m.refNames) ↔
      ∃ ref ∈ references document, Reference.targetName ref = n := by
  obtain ⟨hmodels, hentries⟩ := models_of_ofDocument h
  rw [exists_mem_references_iff]
  constructor
  · rintro ⟨m, hm, hn⟩
    obtain ⟨p, hp, hpm⟩ := hmodels m hm
    obtain ⟨-, fields, hfields, hkind⟩ := ofSchema_eq_ok hpm
    exact ⟨p, hp, fields, hfields, (mem_refNames_of_kindOf hkind).1 hn⟩
  · rintro ⟨p, hp, fields, hfields, hn⟩
    obtain ⟨m, hm, hpm⟩ := hentries p hp
    obtain ⟨-, fields', hfields', hkind⟩ := ofSchema_eq_ok hpm
    cases hfields.symm.trans hfields'
    exact ⟨m, hm, (mem_refNames_of_kindOf hkind).2 hn⟩

/-- Every named schema has a model of its name. -/
theorem names_subset (h : ofDocument document = .ok s) :
    Schema.names document ⊆ s.models.map Model.name := by
  intro n hn
  obtain ⟨p, hp, hpn⟩ := List.mem_filterMap.1 hn
  obtain ⟨m, hm, hpm⟩ := (models_of_ofDocument h).2 p hp
  have hname := (ofSchema_eq_ok hpm).1
  rw [Scalar.str?_eq_some.1 hpn] at hname
  exact List.mem_map.2 ⟨m, hm, (Checked.ok.inj hname).symm⟩

/-- If the references that models are read from point to named schemas, and escape nothing in the
name, models refer to models only. -/
theorem isClosed_of_pointsToNamed (h : ofDocument document = .ok s)
    (hrefs : ∀ ref ∈ references document, Schema.PointsToNamed document ref ∧
      '~' ∉ (Reference.targetName ref).toList) : s.IsClosed := by
  intro m hm n hn
  obtain ⟨ref, href, rfl⟩ := (exists_mem_refNames_iff h).1 ⟨m, hm, hn⟩
  obtain ⟨hpoints, htilde⟩ := hrefs ref href
  obtain ⟨name, hname, hkey⟩ := Schema.endsInName_iff.1 hpoints.endsInName
  rw [Reference.targetName_of_lastKey? hkey htilde]
  exact names_subset h hname

/-- Models refer to models only, exactly if every reference that they are read from ends, as it is
spelled, in the name of a model. -/
theorem isClosed_iff (h : ofDocument document = .ok s) : s.IsClosed ↔
    ∀ ref ∈ references document, Reference.targetName ref ∈ s.models.map Model.name := by
  constructor
  · intro hclosed ref href
    obtain ⟨m, hm, hn⟩ := (exists_mem_refNames_iff h).2 ⟨ref, href, rfl⟩
    exact hclosed m hm _ hn
  · intro hrefs m hm n hn
    obtain ⟨ref, href, rfl⟩ := (exists_mem_refNames_iff h).1 ⟨m, hm, hn⟩
    exact hrefs ref href

/-- A named list of what a reference leads to. -/
def listSchema (ref : String) : List (Scalar × Value) :=
  [(.str "type", .str "array"), (.str "items", .record [("$ref", .str ref)])]

def listDocument (name ref : String) : Value :=
  .record [("components", .record [("schemas", .record [(name, .map (listSchema ref))])])]

theorem ofDocument_listDocument (name ref : String) : ofDocument (listDocument name ref) =
    .ok ⟨[⟨name, none, .aliased (.array (.ref (Reference.targetName ref))) false⟩]⟩ := by
  have hnamed : Schema.named (listDocument name ref) =
      .ok (.map [(.str name, .map (listSchema ref))]) := rfl
  have hschemas : namedSchemas (.map [(.str name, .map (listSchema ref))]) =
      .ok [(.str name, .ok (.map (listSchema ref)))] := rfl
  have htype : typeOf (.map (listSchema ref)) name =
      .ok (.array (.ref (Reference.targetName ref))) := by
    have harray : arrayOf (listSchema ref) name =
        ModelType.array <$> typeOf (.record [("$ref", .str ref)]) (name ++ "[]") :=
      arrayOf_eq rfl (by simp [Value.record])
    rw [typeOf_reference] at harray
    exact (typeOf_of_items rfl rfl rfl).trans harray
  have hnull : Nullable.canBeNull (listDocument name ref) (.map (listSchema ref)) = .ok false :=
    Nullable.canBeNull_of_plain _ rfl (List.forall_mem_cons.2
      ⟨rfl, List.forall_mem_cons.2 ⟨rfl, List.forall_mem_singleton.2 rfl⟩⟩)
  have hkind : kindOf (listDocument name ref) (listSchema ref) name =
      .ok (.aliased (.array (.ref (Reference.targetName ref))) false) :=
    Outcome.bind_eq_ok.2 ⟨some "array", rfl, Outcome.bind_eq_ok.2 ⟨_, htype,
      Outcome.bind_eq_ok.2 ⟨_, hnull, rfl⟩⟩⟩
  have hmodel : ofSchema (listDocument name ref) (.str name) (.map (listSchema ref)) =
      .ok ⟨name, none, .aliased (.array (.ref (Reference.targetName ref))) false⟩ :=
    Outcome.bind_eq_ok.2 ⟨_, hkind, rfl⟩
  refine Outcome.bind_eq_ok.2 ⟨_, hnamed, Outcome.bind_eq_ok.2 ⟨_, hschemas,
    Outcome.bind_eq_ok.2 ⟨[_], ?_, rfl⟩⟩⟩
  exact Outcome.mapM_eq_ok.2 (.cons hmodel .nil)

theorem isClosed_listDocument :
    ∃ s, ofDocument (listDocument "Tree" "#/components/schemas/Tree") = .ok s ∧ s.IsClosed := by
  refine ⟨_, ofDocument_listDocument _ _, (isClosed_iff (ofDocument_listDocument _ _)).2 ?_⟩
  decide +kernel

/-- The slash of a name is escaped in references to it, and stays so in types. -/
theorem not_isClosed_listDocument :
    let document := listDocument "a/b" "#/components/schemas/a~1b"
    (∀ ref ∈ document.references, (Reference.resolve document ref).isOk = true) ∧
      ∃ s, ofDocument document = .ok s ∧ ¬ s.IsClosed := by
  refine ⟨by decide +kernel, _, ofDocument_listDocument _ _, ?_⟩
  intro hclosed
  have hmem : "a~1b" ∈ ["a/b"] :=
    hclosed _ (List.mem_singleton_self _) "a~1b" (List.mem_of_elem_eq_true (by decide +kernel))
  exact absurd hmem (by decide)

end ModelSet
end ApiScribe
