import ApiScribe.Pipeline
import ApiScribe.Proofs.Entries
import ApiScribe.Proofs.Outcome

/-! Pipelines from settings. Settings are taken exactly if every pass and every renderer is known
and no two different renderers share a slot. The pipeline then has the passes named, behind the one
that every run starts with, and the renderers named, or the placeholder if there are none. -/
namespace ApiScribe
namespace Pass

theorem name_injective {p q : Pass} (h : p.name = q.name) : p = q := by
  cases p <;> cases q <;> first | rfl | exact absurd h (by decide)

theorem ofName_eq_ok {name : String} {p : Pass} : ofName name = .ok p ↔ p.name = name := by
  constructor
  · intro h
    unfold ofName at h
    split at h
    · next q hq =>
      cases h
      simpa using List.find?_some hq
    · exact absurd h Outcome.fail_ne_ok
  · rintro rfl
    cases p <;> rfl

end Pass

namespace Registry

theorem entries_builtin : builtin.entries = Renderer.builtins.map fun r => (r.id, r) := rfl

theorem nodup_builtin : builtin.entries.keys.Nodup := by decide

/-- The renderers that come with the tool are created under their own names. -/
theorem create_builtin_eq_ok {id : String} {r : Renderer} :
    builtin.create id = .ok r ↔ r ∈ Renderer.builtins ∧ r.id = id := by
  have hget : builtin.create id = .ok r ↔ builtin.entries.get? id = some r := by
    unfold create
    split
    · next s hs => rw [hs]; simp
    · next hs => rw [hs]; simp [Outcome.fail]
  rw [hget]
  constructor
  · intro h
    have hmem : (id, r) ∈ Renderer.builtins.map fun r => (r.id, r) :=
      Entries.mem_of_get?_eq_some (entries_builtin ▸ h)
    obtain ⟨s, hs, hpair⟩ := List.mem_map.1 hmem
    obtain ⟨rfl, rfl⟩ := Prod.mk.inj hpair
    exact ⟨hs, rfl⟩
  · rintro ⟨hr, rfl⟩
    have hmem : (r.id, r) ∈ builtin.entries :=
      entries_builtin ▸ List.mem_map_of_mem (f := fun r : Renderer => (r.id, r)) hr
    exact Entries.get?_eq_some_of_mem nodup_builtin hmem

theorem eq_of_id_eq {r s : Renderer} (hr : r ∈ Renderer.builtins) (hs : s ∈ Renderer.builtins)
    (h : r.id = s.id) : r = s := by
  have hcreate := create_builtin_eq_ok.2 ⟨hr, h⟩
  rw [create_builtin_eq_ok.2 ⟨hs, rfl⟩] at hcreate
  exact (Except.ok.inj hcreate).symm

theorem isPlaceholder_of_mem_builtins {r : Renderer} (h : r ∈ Renderer.builtins) :
    r.isPlaceholder = false := by
  have hall : ∀ r ∈ Renderer.builtins, r.isPlaceholder = false := by decide
  exact hall r h

end Registry

namespace Pipeline

open Registry

/-- Passes are taken exactly if they are the passes named, without the one that every run starts
with. -/
theorem passesNamed_eq_ok {names : List String} {ps : List Pass} :
    passesNamed names = .ok ps ↔
      ps.map Pass.name = names.filter fun name => name ≠ Pass.normalize.name := by
  have hnames : ∀ {xs : List String} {ps : List Pass},
      List.Forall₂ (fun name p => Pass.ofName name = .ok p) xs ps ↔ ps.map Pass.name = xs := by
    intro xs ps
    have heq : ∀ name p, Pass.ofName name = .ok p ↔ name = Pass.name p :=
      fun name p => Pass.ofName_eq_ok.trans eq_comm
    simp only [heq]
    rw [← List.forall₂_map_right_iff (R := Eq), List.forall₂_eq_eq_eq, eq_comm]
  rw [passesNamed, Outcome.mapM_eq_ok, hnames]

theorem mem_of_passesNamed {names : List String} {ps : List Pass}
    (h : passesNamed names = .ok ps) {p : Pass} :
    p ∈ ps ↔ p ≠ .normalize ∧ p.name ∈ names := by
  have hmem : p ∈ ps ↔ p.name ∈ ps.map Pass.name := by
    rw [List.mem_map]
    exact ⟨fun hp => ⟨p, hp, rfl⟩, fun ⟨q, hq, hname⟩ => Pass.name_injective hname ▸ hq⟩
  have hne : p.name ≠ Pass.normalize.name ↔ p ≠ .normalize :=
    not_congr ⟨Pass.name_injective, fun hp => hp ▸ rfl⟩
  rw [hmem, passesNamed_eq_ok.1 h, List.mem_filter, decide_eq_true_iff, hne, and_comm]

/-- No two different renderers share a slot. -/
def Compatible (rs : List Renderer) : Prop :=
  ∀ r ∈ rs, ∀ s ∈ rs, r.slot.isSome → r.slot = s.slot → r.id = s.id

theorem Compatible.mono {rs more : List Renderer} (h : Compatible more) (hsub : rs ⊆ more) :
    Compatible rs :=
  fun r hr s hs => h r (hsub hr) s (hsub hs)

/-- The slots that renderers take, each with the renderer that takes it. -/
def AreSlotsOf (slots : Entries String String) (rs : List Renderer) : Prop :=
  ∀ slot id, slots.get? slot = some id ↔ ∃ r ∈ rs, r.slot = some slot ∧ r.id = id

/-- The slots with that of one more renderer. -/
def takeSlot (slots : Entries String String) (r : Renderer) : Outcome (Entries String String) :=
  match r.slot with
  | none => pure slots
  | some slot => match slots.get? slot with
    | none => pure (slots.put slot r.id)
    | some other =>
      if other = r.id then pure slots else Outcome.fail (.sharedSlot other r.id slot)

theorem addRenderers_cons (registry : Registry) (slots : Entries String String) (p : Pipeline)
    (id : String) (ids : List String) :
    addRenderers registry slots p (id :: ids) =
      (registry.create id >>= fun r => takeSlot slots r >>= fun slots =>
        addRenderers registry slots (p.withRenderer r) ids) := by
  rw [addRenderers]
  refine bind_congr fun r => ?_
  unfold takeSlot
  cases r.slot with
  | none => rfl
  | some slot =>
    dsimp only
    cases slots.get? slot with
    | none => rfl
    | some other =>
      dsimp only
      split <;> rfl

theorem compatible_concat_iff {rs : List Renderer} {r : Renderer} :
    Compatible (rs ++ [r]) ↔
      Compatible rs ∧ ∀ slot, r.slot = some slot → ∀ s ∈ rs, s.slot = some slot → s.id = r.id := by
  constructor
  · intro h
    refine ⟨h.mono (List.subset_append_left _ _), fun slot hr s hs hslot => ?_⟩
    exact h s (List.mem_append_left _ hs) r (by simp) (by simp [hslot]) (hslot.trans hr.symm)
  · rintro ⟨h, hlast⟩ s hs t ht hsome hsame
    obtain ⟨slot, hslot⟩ := Option.isSome_iff_exists.1 hsome
    have hslot' := hsame.symm.trans hslot
    rcases List.mem_append.1 hs with hs | hs <;> rcases List.mem_append.1 ht with ht | ht
    · exact h s hs t ht hsome hsame
    · rw [List.mem_singleton.1 ht] at hslot' ⊢
      exact hlast slot hslot' s hs hslot
    · rw [List.mem_singleton.1 hs] at hslot ⊢
      exact (hlast slot hslot t ht hslot').symm
    · rw [List.mem_singleton.1 hs, List.mem_singleton.1 ht]

theorem AreSlotsOf.get?_of_mem {slots : Entries String String} {rs : List Renderer}
    (h : AreSlotsOf slots rs) {r : Renderer} (hr : r ∈ rs) {slot : String}
    (hslot : r.slot = some slot) : slots.get? slot = some r.id :=
  (h slot r.id).2 ⟨r, hr, hslot, rfl⟩

theorem AreSlotsOf.concat {slots slots' : Entries String String} {rs : List Renderer}
    (h : AreSlotsOf slots rs) {r : Renderer}
    (hmore : ∀ slot id, slots'.get? slot = some id ↔
      slots.get? slot = some id ∨ r.slot = some slot ∧ r.id = id) :
    AreSlotsOf slots' (rs ++ [r]) := by
  intro slot id
  rw [hmore, h slot id]
  simp [or_and_right, exists_or]

/-- One more renderer takes its slot exactly if it is compatible with those before. -/
theorem takeSlot_cases {slots : Entries String String} {seen : List Renderer}
    (hslots : AreSlotsOf slots seen) (hseen : Compatible seen) (r : Renderer) :
    (∃ slots', takeSlot slots r = .ok slots' ∧ AreSlotsOf slots' (seen ++ [r]) ∧
        Compatible (seen ++ [r])) ∨
      ∃ fault, takeSlot slots r = .fail fault ∧ ¬ Compatible (seen ++ [r]) := by
  rw [compatible_concat_iff]
  unfold takeSlot
  cases hr : r.slot with
  | none => exact .inl ⟨slots, rfl, hslots.concat (by simp [hr]), hseen, by simp⟩
  | some slot =>
    dsimp only
    cases hget : slots.get? slot with
    | none =>
      refine .inl ⟨_, rfl, hslots.concat fun slot' id => ?_, hseen, fun slot' hslot' s hs hslot => ?_⟩
      · rw [Entries.get?_put, hr]
        by_cases hsame : slot = slot'
        · subst hsame
          simp [hget]
        · simp [hsame]
      · cases hslot'
        cases hget.symm.trans (hslots.get?_of_mem hs hslot)
    | some other =>
      dsimp only
      by_cases hother : other = r.id
      · subst hother
        refine .inl ⟨slots, if_pos rfl, hslots.concat fun slot' name => ?_, hseen,
          fun slot' hslot' s hs hslot => ?_⟩
        · rw [hr]
          refine ⟨.inl, fun h => h.elim id fun ⟨hslot, hid⟩ => ?_⟩
          cases hslot
          rw [hget, hid]
        · cases hslot'
          exact Option.some.inj ((hslots.get?_of_mem hs hslot).symm.trans hget)
      · obtain ⟨s, hs, hslot, rfl⟩ := (hslots slot other).1 hget
        exact .inr ⟨_, if_neg hother, fun h => hother (h.2 slot rfl s hs hslot)⟩

/-- The renderers of a run: those chosen, or one that plans nothing. -/
def orPlaceholder (rs : List Renderer) : List Renderer := if rs = [] then [.noop] else rs

theorem withRenderer_orPlaceholder {rs : List Renderer} (h : ∀ r ∈ rs, r.isPlaceholder = false)
    (p : Pipeline) (r : Renderer) :
    ({ p with renderers := orPlaceholder rs } : Pipeline).withRenderer r =
      { p with renderers := orPlaceholder (rs ++ [r]) } := by
  match rs, h with
  | [], _ => rfl
  | [s], h => simp [withRenderer, orPlaceholder, h s]
  | s :: t :: rs, _ => simp [withRenderer, orPlaceholder]

/-- Renderers are added by name exactly if they are known and compatible. -/
theorem addRenderers_eq_ok {slots : Entries String String} {seen : List Renderer}
    (hslots : AreSlotsOf slots seen) (hseen : Compatible seen)
    (hbuiltin : ∀ r ∈ seen, r ∈ Renderer.builtins) (q : Pipeline) (ids : List String)
    {p : Pipeline} :
    addRenderers .builtin slots { q with renderers := orPlaceholder seen } ids = .ok p ↔
      ∃ rs, ids.mapM Registry.builtin.create = .ok rs ∧ Compatible (seen ++ rs) ∧
        p = { q with renderers := orPlaceholder (seen ++ rs) } := by
  induction ids generalizing slots seen with
  | nil =>
    rw [addRenderers]
    constructor
    · intro h
      cases h
      exact ⟨[], rfl, by simpa using hseen, by simp⟩
    · rintro ⟨rs, hrs, -, rfl⟩
      cases hrs
      simp
  | cons id ids ih =>
    rw [addRenderers_cons, Outcome.bind_eq_ok]
    simp only [List.mapM_cons, Outcome.bind_eq_ok, Outcome.pure_eq_ok]
    have hreal : ∀ r ∈ seen, r.isPlaceholder = false :=
      fun r hr => isPlaceholder_of_mem_builtins (hbuiltin r hr)
    have hmore : ∀ {r : Renderer}, Registry.builtin.create id = .ok r →
        ∀ s ∈ seen ++ [r], s ∈ Renderer.builtins := by
      intro r hr s hs
      rcases List.mem_append.1 hs with hs | hs
      · exact hbuiltin s hs
      · exact List.mem_singleton.1 hs ▸ (create_builtin_eq_ok.1 hr).1
    constructor
    · rintro ⟨r, hr, slots', htake, h⟩
      rcases takeSlot_cases hslots hseen r with ⟨_, htaken, hslots', hseen'⟩ | ⟨_, hfail, -⟩
      · rw [htaken] at htake
        cases htake
        rw [withRenderer_orPlaceholder hreal] at h
        obtain ⟨rs, hrs, hall, rfl⟩ := (ih hslots' hseen' (hmore hr)).1 h
        rw [List.append_assoc] at hall
        exact ⟨_, ⟨r, hr, rs, hrs, rfl⟩, hall, by rw [List.append_assoc]; rfl⟩
      · rw [hfail] at htake
        exact absurd htake Outcome.fail_ne_ok
    · rintro ⟨_, ⟨r, hr, rs, hrs, rfl⟩, hall, rfl⟩
      rw [List.append_cons] at hall
      rcases takeSlot_cases hslots hseen r with ⟨slots', htaken, hslots', hseen'⟩ | ⟨_, -, hclash⟩
      · refine ⟨r, hr, slots', htaken, ?_⟩
        rw [withRenderer_orPlaceholder hreal]
        exact (ih hslots' hseen' (hmore hr)).2 ⟨rs, hrs, hall, by rw [← List.append_cons]⟩
      · exact absurd (hall.mono (List.subset_append_left _ _)) hclash

/-- What settings come to: the passes and renderers named, and the rest as it is said. -/
theorem ofConfig_eq_ok {dry : Bool} {c : Config} {p : Pipeline} :
    ofConfig .builtin dry c = .ok p ↔
      ∃ ps rs, passesNamed c.passes = .ok ps ∧
        c.renderers.mapM Registry.builtin.create = .ok rs ∧ Compatible rs ∧
        p = { passes := .normalize :: ps
              renderers := orPlaceholder rs
              layout := if c.barrelRoots.isEmpty then .plain else .barrels c.barrelRoots
              formatter := .ofCommand c.formatter
              clientImport := some c.clientImport
              modelImport := some c.modelImport
              outputRoot := some c.output
              target := if dry then none else some c.output } := by
  have hslots : AreSlotsOf [] [] := fun slot id => by simp [Entries.get?]
  have hadd := fun (ps : List Pass) (q : Pipeline) =>
    addRenderers_eq_ok hslots (fun r hr => by cases hr) (by simp)
      { passes := .normalize :: ps } c.renderers (p := q)
  rw [ofConfig, Outcome.bind_eq_ok]
  simp only [Outcome.bind_eq_ok, Outcome.pure_eq_ok]
  constructor
  · rintro ⟨ps, hps, q, hq, rfl⟩
    obtain ⟨rs, hrs, hall, rfl⟩ := (hadd ps q).1 hq
    exact ⟨ps, rs, hps, hrs, hall, rfl⟩
  · rintro ⟨ps, rs, hps, hrs, hall, rfl⟩
    exact ⟨ps, hps, _, (hadd ps _).2 ⟨rs, hrs, hall, rfl⟩, rfl⟩

/-- The renderers of a list of names are those that come with the tool under one of them. -/
theorem mem_of_mapM_create {ids : List String} {rs : List Renderer}
    (h : ids.mapM Registry.builtin.create = .ok rs) {r : Renderer} :
    r ∈ rs ↔ r ∈ Renderer.builtins ∧ r.id ∈ ids := by
  constructor
  · intro hr
    obtain ⟨id, hid, hcreate⟩ := Outcome.exists_of_mem_mapM h hr
    obtain ⟨hmem, rfl⟩ := create_builtin_eq_ok.1 hcreate
    exact ⟨hmem, hid⟩
  · rintro ⟨hmem, hid⟩
    obtain ⟨s, hs, hcreate⟩ := Outcome.exists_of_mapM_mem h hid
    obtain ⟨hs', hid⟩ := create_builtin_eq_ok.1 hcreate
    exact eq_of_id_eq hs' hmem hid ▸ hs

end Pipeline
end ApiScribe
