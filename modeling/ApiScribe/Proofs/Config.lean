import ApiScribe.Config
import ApiScribe.Proofs.Outcome
import ApiScribe.Proofs.Entries

/-! What is stored of settings. Only the fields that differ from the defaults are stored, down to the
fields of the records inside, and they are enough to read the settings back. -/
namespace ApiScribe

/-! Overriding entries. -/

/-- The entries of a record that differ from those of another, each cut down by what the other one
has. -/
def overriding (cut : Value → Value → Value) (m n : List (Scalar × Value)) :
    List (Scalar × Value) :=
  (m.zip n).filterMap fun (p, d) => if p.2.same d.2 then none else some (p.1, cut p.2 d.2)

/-- A record with these fields in this order. -/
def HasFields (names : List String) (m : List (Scalar × Value)) : Prop :=
  m.map Prod.fst = names.map Scalar.str

theorem get?_cons_str (k name : String) (v : Value) (m : List (Scalar × Value)) :
    Entries.get? ((.str k, v) :: m) (.str name) =
      if k = name then some v else Entries.get? m (.str name) := by
  have hbeq : (Scalar.str k == .str name) = (k == name) := rfl
  rw [Entries.get?, List.find?_cons, hbeq]
  by_cases hname : k = name
  · rw [beq_iff_eq.2 hname, if_pos hname]
    rfl
  · rw [beq_eq_false_iff_ne.2 hname, if_neg hname]
    rfl

theorem HasFields.exists_cons {k : String} {names : List String} {m : List (Scalar × Value)}
    (h : HasFields (k :: names) m) : ∃ v m', m = (.str k, v) :: m' ∧ HasFields names m' := by
  obtain ⟨⟨k', v⟩, m', rfl, rfl, hnames⟩ := List.map_eq_cons_iff.1 h
  exact ⟨v, m', rfl, hnames⟩

theorem HasFields.eq_nil {m : List (Scalar × Value)} (h : HasFields [] m) : m = [] :=
  List.map_eq_nil_iff.1 h

theorem HasFields.get?_eq_none {names : List String} {m : List (Scalar × Value)} {name : String}
    (h : HasFields names m) (hname : name ∉ names) : Entries.get? m (.str name) = none := by
  induction names generalizing m with
  | nil =>
    rw [h.eq_nil]
    rfl
  | cons k names ih =>
    obtain ⟨v, m, rfl, hm⟩ := h.exists_cons
    rw [List.mem_cons, not_or] at hname
    rw [get?_cons_str, if_neg (Ne.symm hname.1), ih hm hname.2]

section
variable {cut : Value → Value → Value} {names : List String} {m n : List (Scalar × Value)}
  {name : String} {v d : Value}

theorem overriding_cons (cut : Value → Value → Value) (k k' : Scalar) (v d : Value)
    (m n : List (Scalar × Value)) : overriding cut ((k, v) :: m) ((k', d) :: n) =
      if v.same d then overriding cut m n else (k, cut v d) :: overriding cut m n := by
  rw [overriding, List.zip_cons_cons, List.filterMap_cons]
  cases hsame : v.same d with
  | true => simp only [hsame]; rfl
  | false => simp only [hsame]; rfl

/-- The entries that override are entries of the record, in their order. -/
theorem HasFields.overriding (hm : HasFields names m) (hn : HasFields names n)
    (cut : Value → Value → Value) :
    ∃ kept, kept.Sublist names ∧ HasFields kept (overriding cut m n) := by
  induction names generalizing m n with
  | nil =>
    rw [hm.eq_nil]
    exact ⟨[], List.Sublist.refl _, rfl⟩
  | cons k names ih =>
    obtain ⟨v, m, rfl, hm'⟩ := hm.exists_cons
    obtain ⟨d, n, rfl, hn'⟩ := hn.exists_cons
    obtain ⟨kept, hsub, hkept⟩ := ih hm' hn'
    rw [overriding_cons]
    split
    · exact ⟨kept, hsub.cons k, hkept⟩
    · exact ⟨k :: kept, hsub.cons_cons k, congrArg (Scalar.str k :: ·) hkept⟩

/-- A field overrides just if it differs. -/
theorem HasFields.get?_overriding (hm : HasFields names m) (hn : HasFields names n)
    (hnames : names.Nodup) (hv : Entries.get? m (.str name) = some v)
    (hd : Entries.get? n (.str name) = some d) :
    Entries.get? (ApiScribe.overriding cut m n) (.str name) =
      if v.same d then none else some (cut v d) := by
  induction names generalizing m n with
  | nil =>
    rw [hm.eq_nil] at hv
    cases hv
  | cons k names ih =>
    obtain ⟨v', m, rfl, hm'⟩ := hm.exists_cons
    obtain ⟨d', n, rfl, hn'⟩ := hn.exists_cons
    obtain ⟨hk, hnames⟩ := List.nodup_cons.1 hnames
    rw [overriding_cons]
    rw [get?_cons_str] at hv hd
    by_cases hname : k = name
    · subst hname
      rw [if_pos rfl] at hv hd
      obtain rfl := Option.some.inj hv
      obtain rfl := Option.some.inj hd
      split
      · obtain ⟨kept, hsub, hkept⟩ := hm'.overriding hn' cut
        exact hkept.get?_eq_none fun hmem => hk (hsub.subset hmem)
      · rw [get?_cons_str, if_pos rfl]
    · rw [if_neg hname] at hv hd
      have hrest := ih hm' hn' hnames hv hd
      split
      · exact hrest
      · rw [get?_cons_str, if_neg hname, hrest]

end

/-! Equal values of fields. -/

theorem ClientImportMode.name_injective : Function.Injective ClientImportMode.name := by
  intro a b
  cases a <;> cases b <;> simp [name]

theorem ModelImportType.name_injective : Function.Injective ModelImportType.name := by
  intro a b
  cases a <;> cases b <;> simp [name]

theorem ModelStyle.name_injective : Function.Injective ModelStyle.name := by
  intro a b
  cases a <;> cases b <;> simp [name]

theorem ConflictPolicy.name_injective : Function.Injective ConflictPolicy.name := by
  intro a b
  cases a <;> cases b <;> simp [name]

theorem NamingStrategy.name_injective : Function.Injective NamingStrategy.name := by
  intro a b
  cases a <;> cases b <;> simp [name]

open Check

namespace ClientImport

def fieldNames : List String := ["mode", "client_path", "client_package", "import_name"]

end ClientImport
namespace ModelImport

def fieldNames : List String := ["import_type", "package_path", "relative_path"]

end ModelImport

namespace EnumFetch

def fieldNames : List String := ["base_url", "output", "max_retries", "timeout_ms", "naming_strategy"]

end EnumFetch

namespace Config

/-- What is stored of a value that differs from its default: of a record the fields that differ. -/
def cutDown (v d : Value) : Value :=
  match v, d with
  | .map m, .map n => .map (differing m n)
  | v, _ => v

theorem cutDown_of_not_map {v d : Value} (h : ∀ m n, v = .map m → d = .map n → False) :
    cutDown v d = v := by
  unfold cutDown
  split
  · exact (h _ _ rfl rfl).elim
  · rfl

theorem overrides_eq (c : Config) : c.overrides = .map (overriding cutDown
    (c.toValue.entries?.getD []) (({} : Config).toValue.entries?.getD [])) := by
  refine congrArg Value.map (List.filterMap_congr fun p _ => ?_)
  obtain ⟨⟨k, v⟩, _, d⟩ := p
  dsimp only
  split
  · rfl
  · split
    · rfl
    · rename_i hmap
      rw [cutDown_of_not_map hmap]

end Config
end ApiScribe
