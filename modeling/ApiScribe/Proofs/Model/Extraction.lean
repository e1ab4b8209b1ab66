import ApiScribe.Model.Extract
import ApiScribe.Proofs.Naming.Unique
import ApiScribe.Proofs.Outcome
import ApiScribe.TypeText

/-! Enums of a document. Their members are called by their position until someone names them, so no
two members of an enum have one name, and every name can be declared. -/
namespace ApiScribe

/-- Members that can be declared together: each name is an identifier, and no name comes twice. -/
structure EnumMember.AreWellNamed (ms : List EnumMember) : Prop where
  distinct : (ms.map EnumMember.name).Nodup
  identifiers : ∀ m ∈ ms, TypeText.isName m.name.toList = true

/-- The members of every enum can be declared together. -/
def ModelSet.IsWellNamed (s : ModelSet) : Prop :=
  ∀ m ∈ s.models, ∀ ms, m.kind = .enum ms → EnumMember.AreWellNamed ms

namespace TypeText

/-- What identifiers are made of may stand behind any identifier. -/
theorem isName_append {s t : String} (hs : isName s.toList = true)
    (ht : ∀ c ∈ t.toList, isNameChar c = true) : isName (s ++ t).toList = true := by
  rw [String.toList_append]
  cases hcs : s.toList with
  | nil => simp [hcs, isName] at hs
  | cons c cs =>
    rw [hcs, isName, Bool.and_eq_true, List.all_eq_true] at hs
    rw [List.cons_append, isName, Bool.and_eq_true, List.all_append, Bool.and_eq_true,
      List.all_eq_true, List.all_eq_true]
    exact ⟨hs.1, hs.2, ht⟩

/-- Digits may stand behind any identifier. -/
theorem isName_append_number {s : String} (h : isName s.toList = true) (n : Nat) :
    isName (s ++ toString n).toList = true := by
  refine isName_append h ?_
  intro c hc
  simp [isNameChar, Char.isAlphanum, Naming.isDigit_of_mem_toString hc]

end TypeText

namespace Model

/-- The members of a new enum are called by their position. -/
theorem members_eq_ok {kind : LiteralKind} {vs : List Value} {ms : List EnumMember}
    (h : members kind vs = .ok ms) :
    ms.map EnumMember.name = (List.range ms.length).map fun i => "Value" ++ toString (i + 1) := by
  obtain ⟨ls, -, hms⟩ := Outcome.bind_eq_ok.1 h
  rw [← Outcome.pure_eq_ok.1 hms]
  refine List.ext_getElem (by simp) ?_
  intro i h1 h2
  simp

theorem areWellNamed_members {kind : LiteralKind} {vs : List Value} {ms : List EnumMember}
    (h : members kind vs = .ok ms) : EnumMember.AreWellNamed ms where
  distinct := by
    rw [members_eq_ok h]
    refine List.Nodup.map ?_ List.nodup_range
    intro i j hij
    have hnumbers : i + 1 = j + 1 := Naming.numbered_injective "Value" hij
    omega
  identifiers := by
    intro m hm
    have hname := List.mem_map_of_mem (f := EnumMember.name) hm
    rw [members_eq_ok h] at hname
    obtain ⟨i, -, hi⟩ := List.mem_map.1 hname
    rw [← hi]
    exact TypeText.isName_append_number (by decide) (i + 1)

/-- The members of a new enum have values of one kind, and no comments. -/
theorem kind_and_comment_of_members {kind : LiteralKind} {vs : List Value} {ms : List EnumMember}
    (h : members kind vs = .ok ms) : ∀ e ∈ ms, e.value.kind = kind ∧ e.comment = none := by
  obtain ⟨ls, hls, hms⟩ := Outcome.bind_eq_ok.1 h
  rw [← Outcome.pure_eq_ok.1 hms]
  intro e he
  obtain ⟨i, hi, rfl⟩ := List.mem_mapIdx.1 he
  obtain ⟨v, -, hv⟩ := Outcome.exists_of_mem_mapM hls (List.getElem_mem hi)
  obtain ⟨text, -, hl⟩ := Outcome.bind_eq_ok.1 hv
  exact ⟨congrArg Literal.kind (Outcome.pure_eq_ok.1 hl).symm, rfl⟩

/-- The members of a new enum have the texts of its values, in order. -/
theorem texts_of_members {kind : LiteralKind} {vs : List Value} {ms : List EnumMember}
    (h : members kind vs = .ok ms) : vs.mapM literalText = .ok (ms.map (·.value.value)) := by
  obtain ⟨ls, hls, hms⟩ := Outcome.bind_eq_ok.1 h
  have htexts : ms.map (·.value.value) = ls.map Literal.value := by
    rw [← Outcome.pure_eq_ok.1 hms]
    exact List.ext_getElem (by simp) fun i h1 h2 => by simp
  rw [htexts, Outcome.mapM_eq_ok, List.forall₂_map_right_iff]
  refine (Outcome.mapM_eq_ok.1 hls).imp fun v l hl => ?_
  obtain ⟨text, htext, hl⟩ := Outcome.bind_eq_ok.1 hl
  rw [htext, ← Outcome.pure_eq_ok.1 hl]

/-- Only lists of literals become enums: the members are those of the values that are listed. -/
theorem kindOf_eq_enum {document : Value} {m : List (Scalar × Value)} {place : String}
    {ms : List EnumMember} (h : kindOf document m place = .ok (.enum ms)) :
    ∃ kind, members kind (listedValues m) = .ok ms := by
  have haliased : ∀ {x : Outcome ModelType} {n : Outcome Bool},
      (do return ModelKind.aliased (← x) (← n) : Outcome ModelKind) ≠ .ok (.enum ms) := by
    intro x n hx
    obtain ⟨t, -, hx⟩ := Outcome.bind_eq_ok.1 hx
    obtain ⟨b, -, hx⟩ := Outcome.bind_eq_ok.1 hx
    cases Outcome.pure_eq_ok.1 hx
  unfold kindOf at h
  obtain ⟨type, -, h⟩ := Outcome.bind_eq_ok.1 h
  dsimp only at h
  split at h
  · exact absurd h haliased
  · split at h
    · obtain ⟨ps, -, h⟩ := Outcome.bind_eq_ok.1 h
      cases Outcome.pure_eq_ok.1 h
    · split at h
      · exact absurd h haliased
      · next kind _ =>
        split at h
        · obtain ⟨b, -, h⟩ := Outcome.bind_eq_ok.1 h
          cases Outcome.pure_eq_ok.1 h
        · obtain ⟨es, hes, h⟩ := Outcome.bind_eq_ok.1 h
          cases Outcome.pure_eq_ok.1 h
          exact ⟨kind, hes⟩

/-- A model has the name of its schema, and is what becomes of it. -/
theorem ofSchema_eq_ok {document schema : Value} {name : Scalar} {m : Model}
    (h : ofSchema document name schema = .ok m) : Check.string (.scalar name) = .ok m.name ∧
      ∃ fields, schema = .map fields ∧ kindOf document fields name.display = .ok m.kind := by
  unfold ofSchema at h
  split at h
  · next fields =>
    obtain ⟨kind, hkind, h⟩ := Outcome.bind_eq_ok.1 h
    rw [Outcome.toOutcome_eq_ok] at h
    simp only [Checked.seq_eq_ok, Checked.map_eq_ok, Checked.under_eq_ok] at h
    obtain ⟨_, _, ⟨_, hname, hf⟩, _, hm⟩ := h
    rw [← hm, ← hf]
    exact ⟨hname, fields, rfl, hkind⟩
  · exact absurd h Outcome.fail_ne_ok

theorem kind_of_ofSchema {document schema : Value} {name : Scalar} {m : Model}
    (h : ofSchema document name schema = .ok m) :
    ∃ fields, kindOf document fields name.display = .ok m.kind := by
  obtain ⟨-, fields, -, hkind⟩ := ofSchema_eq_ok h
  exact ⟨fields, hkind⟩

end Model

/-- The enums of a document are made of listed literals. -/
theorem ModelSet.exists_members_of_mem {document : Value} {s : ModelSet}
    (h : ModelSet.ofDocument document = .ok s) {m : Model} (hm : m ∈ s.models)
    {ms : List EnumMember} (hkind : m.kind = .enum ms) :
    ∃ kind vs, Model.members kind vs = .ok ms := by
  unfold ModelSet.ofDocument at h
  obtain ⟨schemas, -, h⟩ := Outcome.bind_eq_ok.1 h
  obtain ⟨named, -, h⟩ := Outcome.bind_eq_ok.1 h
  obtain ⟨models, hmodels, h⟩ := Outcome.bind_eq_ok.1 h
  cases Outcome.pure_eq_ok.1 h
  obtain ⟨p, -, hp⟩ := Outcome.exists_of_mem_mapM hmodels hm
  obtain ⟨schema, -, hschema⟩ := Outcome.bind_eq_ok.1 hp
  obtain ⟨fields, hfields⟩ := Model.kind_of_ofSchema hschema
  rw [hkind] at hfields
  obtain ⟨kind, hmembers⟩ := Model.kindOf_eq_enum hfields
  exact ⟨kind, _, hmembers⟩

/-- All enums of a document can be declared. -/
theorem ModelSet.isWellNamed_ofDocument {document : Value} {s : ModelSet}
    (h : ModelSet.ofDocument document = .ok s) : s.IsWellNamed := by
  intro m hm ms hkind
  obtain ⟨kind, vs, hmembers⟩ := ModelSet.exists_members_of_mem h hm hkind
  exact Model.areWellNamed_members hmembers

end ApiScribe
