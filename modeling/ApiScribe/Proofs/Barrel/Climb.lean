import Mathlib.Data.List.Infix
import ApiScribe.Barrel
import ApiScribe.Proofs.Location

/-! The climb of a source. From its directory a source climbs to the nearest root above it; every
directory on this way exports something for it: its own directory the module, and any other the next
step of the way. -/
namespace ApiScribe
namespace Location

/-- A location is a directory or anywhere below it. -/
def IsWithin (l d : Location) : Prop := l.lead = d.lead ∧ d.steps <+: l.steps

/-- A location one step below a directory. -/
def child (d : Location) (name : String) : Location := { d with steps := d.steps ++ [name] }

theorem eq_of_steps_eq {l d : Location} (hlead : l.lead = d.lead) (hsteps : l.steps = d.steps) :
    l = d := by
  obtain ⟨_, _⟩ := l
  obtain ⟨_, _⟩ := d
  exact congrArg₂ mk hlead hsteps

theorem isBelow_iff {l d : Location} : l.isBelow d = true ↔ IsWithin l d ∧ l ≠ d := by
  simp only [isBelow, Bool.and_eq_true, beq_iff_eq, decide_eq_true_eq, List.isPrefixOf_iff_prefix,
    IsWithin]
  constructor
  · rintro ⟨⟨hlead, hlength⟩, hsteps⟩
    refine ⟨⟨hlead, hsteps⟩, ?_⟩
    rintro rfl
    exact Nat.lt_irrefl _ hlength
  · rintro ⟨⟨hlead, hsteps⟩, hne⟩
    refine ⟨⟨hlead, hsteps.length_le.lt_of_ne fun hlength => hne ?_⟩, hsteps⟩
    exact eq_of_steps_eq hlead (hsteps.eq_of_length hlength).symm

/-- Directories of one depth that hold a location are one. -/
theorem IsWithin.eq_of_length_eq {l d e : Location} (hd : IsWithin l d) (he : IsWithin l e)
    (h : d.steps.length = e.steps.length) : d = e :=
  eq_of_steps_eq (hd.1.symm.trans he.1) <|
    (List.prefix_of_prefix_length_le hd.2 he.2 h.le).eq_of_length h

/-- What is properly below a directory has its own directory there. -/
theorem isWithin_parent_iff {l d : Location} (hd : d.steps ≠ []) :
    IsWithin l.parent d ↔ IsWithin l d ∧ l ≠ d := by
  obtain ⟨lead, steps⟩ := l
  have heq : steps = d.steps → lead = d.lead → ⟨lead, steps⟩ = d :=
    fun hsteps hlead => eq_of_steps_eq hlead hsteps
  simp only [IsWithin, Location.parent]
  rcases List.eq_nil_or_concat steps with rfl | ⟨front, last, hlast⟩
  · simp [hd]
  · rw [List.concat_eq_append] at hlast
    subst hlast
    rw [List.dropLast_concat, List.prefix_concat_iff]
    constructor
    · rintro ⟨hlead, hfront⟩
      refine ⟨⟨hlead, .inr hfront⟩, ?_⟩
      rintro rfl
      have hlength := hfront.length_le
      rw [List.length_append, List.length_singleton] at hlength
      omega
    · rintro ⟨⟨hlead, hsteps | hfront⟩, hne⟩
      · exact absurd (heq hsteps.symm hlead) hne
      · exact ⟨hlead, hfront⟩

end Location

namespace Barrel

open Location

/-- A root bounds the climb of a source: it is the current directory or properly above it. -/
def Bounds (root source : Location) : Prop :=
  root = Location.here ∨ (IsWithin source root ∧ source ≠ root)

/-- The deepest of the roots that bound the climb of a source. -/
structure IsNearest (roots : List Location) (source root : Location) : Prop where
  mem : root ∈ roots
  bounds : Bounds root source
  deepest : ∀ r ∈ roots, Bounds r source → r.steps.length ≤ root.steps.length

/-- The deepest of the roots above the directory of a source. -/
structure IsNearestRoot (roots : List Location) (source root : Location) : Prop where
  mem : root ∈ roots
  above : root.steps <+: source.parent.steps
  nearest : ∀ r ∈ roots, r.steps <+: source.parent.steps → r.steps <+: root.steps

/-- A directory between a root and the directory of a source, both included. -/
structure IsOnClimb (root source d : Location) : Prop where
  lead : d.lead = source.lead
  below : root.steps <+: d.steps
  above : d.steps <+: source.parent.steps

theorem isRootOf_iff_bounds {source root : Location} :
    isRootOf source root = true ↔ Bounds root source := by
  rw [isRootOf, Bool.or_eq_true, beq_iff_eq, isBelow_iff, Bounds]

/-- The directory of a relative source is below every root that bounds the climb of the source. -/
theorem Bounds.isWithin_parent {source root : Location} (hs : source.lead = "")
    (h : Bounds root source) : IsWithin source.parent root := by
  rcases h with rfl | ⟨hwithin, hne⟩
  · exact ⟨hs, List.nil_prefix⟩
  · by_cases hroot : root.steps = []
    · exact ⟨hwithin.1, by rw [hroot]; exact List.nil_prefix⟩
    · exact (isWithin_parent_iff hroot).2 ⟨hwithin, hne⟩

/-- A root of relative paths bounds the climb of the sources below it. -/
theorem isRootOf_iff {source root : Location} (hs : source.lead = "") (hr : root.lead = "") :
    isRootOf source root = true ↔ root.steps <+: source.parent.steps := by
  rw [isRootOf_iff_bounds]
  refine ⟨fun h => (h.isWithin_parent hs).2, fun h => ?_⟩
  by_cases hroot : root.steps = []
  · exact .inl (eq_of_steps_eq hr hroot)
  · exact .inr ((isWithin_parent_iff hroot).1 ⟨hs.trans hr.symm, h⟩)

/-- The deeper of two roots; the one known already stays if the other is no deeper. -/
def deeper (best : Option Location) (r : Location) : Option Location :=
  match best with
  | none => some r
  | some b => if b.steps.length < r.steps.length then some r else some b

theorem nearestRoot_eq_foldl (roots : List Location) (source : Location) :
    nearestRoot roots source = (roots.filter (isRootOf source)).foldl deeper none := rfl

/-- The best of the roots seen so far is one of them, and none of them is deeper. -/
structure IsDeepest (seen : List Location) (best : Option Location) : Prop where
  seen_eq_nil : best = none → seen = []
  mem : ∀ b ∈ best, b ∈ seen
  length_le : ∀ b ∈ best, ∀ r ∈ seen, r.steps.length ≤ b.steps.length

theorem IsDeepest.deeper {seen : List Location} {best : Option Location}
    (h : IsDeepest seen best) (r : Location) : IsDeepest (seen ++ [r]) (deeper best r) := by
  cases best with
  | none =>
    rw [h.seen_eq_nil rfl]
    exact ⟨by simp [Barrel.deeper], by simp [Barrel.deeper], by simp [Barrel.deeper]⟩
  | some b =>
    have hmem := h.mem b rfl
    have hall := h.length_le b rfl
    by_cases hlt : b.steps.length < r.steps.length
    · rw [show Barrel.deeper (some b) r = some r from if_pos hlt]
      refine ⟨by simp, by simp, ?_⟩
      rintro _ ⟨⟩
      exact List.forall_mem_append.2 ⟨fun c hc => (hall c hc).trans (Nat.le_of_lt hlt), by simp⟩
    · rw [show Barrel.deeper (some b) r = some b from if_neg hlt]
      refine ⟨by simp, by simp [hmem], ?_⟩
      rintro _ ⟨⟩
      exact List.forall_mem_append.2 ⟨hall, by simpa using hlt⟩

theorem IsDeepest.foldl {seen : List Location} {best : Option Location}
    (h : IsDeepest seen best) (roots : List Location) :
    IsDeepest (seen ++ roots) (roots.foldl Barrel.deeper best) := by
  induction roots generalizing seen best with
  | nil => simpa using h
  | cons r roots ih =>
    have hrest := ih (h.deeper r)
    rwa [List.append_assoc] at hrest

theorem isDeepest_nearestRoot (roots : List Location) (source : Location) :
    IsDeepest (roots.filter (isRootOf source)) (nearestRoot roots source) := by
  have hempty : IsDeepest [] none := ⟨fun _ => rfl, by simp, by simp⟩
  have hdeepest := hempty.foldl (roots.filter (isRootOf source))
  rwa [List.nil_append, ← nearestRoot_eq_foldl] at hdeepest

/-- A source with a root above it has a nearest one. -/
theorem exists_nearestRoot {roots : List Location} {source r : Location} (hr : r ∈ roots)
    (h : isRootOf source r = true) : ∃ root, nearestRoot roots source = some root := by
  have hdeepest := isDeepest_nearestRoot roots source
  rw [← Option.ne_none_iff_exists']
  intro hnone
  have hmem := List.mem_filter.2 ⟨hr, h⟩
  rw [hdeepest.seen_eq_nil hnone] at hmem
  cases hmem

/-- The root at which the climb of a relative source ends. -/
theorem nearestRoot_eq_some_iff_isNearest {roots : List Location} {source root : Location}
    (hs : source.lead = "") :
    nearestRoot roots source = some root ↔ IsNearest roots source root := by
  have hfilter : ∀ r, r ∈ roots.filter (isRootOf source) ↔ r ∈ roots ∧ Bounds r source := by
    intro r
    rw [List.mem_filter, isRootOf_iff_bounds]
  have hdeepest := isDeepest_nearestRoot roots source
  constructor
  · intro h
    obtain ⟨hmem, hbounds⟩ := (hfilter root).1 (hdeepest.mem root h)
    exact ⟨hmem, hbounds, fun r hr hb => hdeepest.length_le root h r ((hfilter r).2 ⟨hr, hb⟩)⟩
  · intro h
    have hroot := (hfilter root).2 ⟨h.mem, h.bounds⟩
    obtain ⟨b, hb⟩ := exists_nearestRoot h.mem (isRootOf_iff_bounds.2 h.bounds)
    obtain ⟨hmem, hbounds⟩ := (hfilter b).1 (hdeepest.mem b hb)
    have hlength := (hdeepest.length_le b hb root hroot).antisymm (h.deepest b hmem hbounds)
    rw [hb, (h.bounds.isWithin_parent hs).eq_of_length_eq (hbounds.isWithin_parent hs) hlength]

theorem isNearest_iff {roots : List Location} {source root : Location}
    (hroots : ∀ r ∈ roots, r.lead = "") (hs : source.lead = "") :
    IsNearest roots source root ↔ IsNearestRoot roots source root := by
  have hbounds : ∀ r ∈ roots, Bounds r source ↔ r.steps <+: source.parent.steps :=
    fun r hr => isRootOf_iff_bounds.symm.trans (isRootOf_iff hs (hroots r hr))
  constructor
  · intro h
    have habove := (hbounds root h.mem).1 h.bounds
    exact ⟨h.mem, habove, fun r hr hprefix =>
      List.prefix_of_prefix_length_le hprefix habove (h.deepest r hr ((hbounds r hr).2 hprefix))⟩
  · intro h
    exact ⟨h.mem, (hbounds root h.mem).2 h.above, fun r hr hb =>
      (h.nearest r hr ((hbounds r hr).1 hb)).length_le⟩

/-- The root that a climb ends at is the nearest one. -/
theorem nearestRoot_eq_some_iff {roots : List Location} {source root : Location}
    (hroots : ∀ r ∈ roots, r.lead = "") (hs : source.lead = "") :
    nearestRoot roots source = some root ↔ IsNearestRoot roots source root :=
  (nearestRoot_eq_some_iff_isNearest hs).trans (isNearest_iff hroots hs)

/-- On the way up from a directory to a root above it, every directory exports the step below it.
Steps are given last first. -/
theorem mem_climb_iff {root steps above : List String} {name : String} (h : root <:+ steps) :
    (above, name) ∈ climb root steps ↔ root <:+ above ∧ name :: above <:+ steps := by
  induction steps with
  | nil => simp [climb]
  | cons step steps ih =>
    unfold climb
    split
    · next heq =>
      rw [heq]
      simp only [List.not_mem_nil, false_iff, not_and]
      intro habove hname
      have h1 := habove.length_le
      have h2 := hname.length_le
      rw [List.length_cons] at h2
      omega
    · next hne =>
      have hroot : root <:+ steps := (List.suffix_cons_iff.1 h).resolve_left (Ne.symm hne)
      rw [List.mem_cons, ih hroot, List.suffix_cons_iff, Prod.mk.injEq, List.cons.injEq]
      constructor
      · rintro (⟨rfl, rfl⟩ | ⟨h1, h2⟩)
        · exact ⟨hroot, .inl ⟨rfl, rfl⟩⟩
        · exact ⟨h1, .inr h2⟩
      · rintro ⟨h1, ⟨rfl, rfl⟩ | h2⟩
        · exact .inl ⟨rfl, rfl⟩
        · exact .inr ⟨h1, h2⟩

/-- A source calls for its module in its directory, and for the next step of the way down in every
directory above it, up to its nearest root. -/
theorem mem_exportsOf {roots : List Location} {source d : Location} {name : String}
    (hs : source.lead = "") : (d, name) ∈ exportsOf roots source ↔
      ∃ root, IsNearest roots source root ∧ ((d = source.parent ∧ name = moduleName source) ∨
        (IsWithin d root ∧ IsWithin source.parent (d.child name))) := by
  simp only [← nearestRoot_eq_some_iff_isNearest hs]
  unfold exportsOf
  cases hroot : nearestRoot roots source with
  | none => simp
  | some root =>
    have hwithin := ((nearestRoot_eq_some_iff_isNearest hs).1 hroot).bounds.isWithin_parent hs
    have hclimb := @mem_climb_iff root.steps.reverse source.parent.steps.reverse d.steps.reverse
      name (List.reverse_suffix.2 hwithin.2)
    rw [← List.reverse_concat, List.reverse_suffix, List.reverse_suffix] at hclimb
    simp only [List.mem_cons, Prod.mk.injEq, List.mem_map, Option.some.injEq, exists_eq_left']
    refine or_congr_right ?_
    constructor
    · rintro ⟨⟨above, step⟩, hmem, rfl, rfl⟩
      have hboth := hclimb.1 (by simpa using hmem)
      exact ⟨⟨hwithin.1, hboth.1⟩, rfl, hboth.2⟩
    · rintro ⟨⟨-, hbelow⟩, hlead, hstep⟩
      refine ⟨(d.steps.reverse, name), hclimb.2 ⟨hbelow, hstep⟩, ?_, rfl⟩
      exact eq_of_steps_eq hlead (by simp)

/-- The directories that export something for a source are those of its climb. -/
theorem exists_mem_exportsOf {roots : List Location} {source d : Location} (hs : source.lead = "") :
    (∃ name, (d, name) ∈ exportsOf roots source) ↔
      ∃ root, IsNearest roots source root ∧ IsWithin d root ∧ IsWithin source.parent d := by
  simp only [mem_exportsOf hs]
  constructor
  · rintro ⟨name, root, hroot, ⟨rfl, -⟩ | ⟨hbelow, hlead, hstep⟩⟩
    · exact ⟨root, hroot, hroot.bounds.isWithin_parent hs, rfl, List.prefix_rfl⟩
    · exact ⟨root, hroot, hbelow, hlead, (List.prefix_append _ _).trans hstep⟩
  · rintro ⟨root, hroot, hbelow, hlead, rest, hrest⟩
    cases rest with
    | nil =>
      rw [List.append_nil] at hrest
      exact ⟨_, root, hroot, .inl ⟨eq_of_steps_eq hlead.symm hrest, rfl⟩⟩
    | cons name rest =>
      refine ⟨name, root, hroot, .inr ⟨hbelow, hlead, rest, ?_⟩⟩
      rw [child, List.append_assoc, List.singleton_append, hrest]

/-- What a relative source calls for: its directory exports the module, and every directory above
it, up to the nearest root, the next step of the way down. -/
theorem mem_exportsOf_iff {roots : List Location} {source d : Location} {name : String}
    (hroots : ∀ r ∈ roots, r.lead = "") (hs : source.lead = "") :
    (d, name) ∈ exportsOf roots source ↔ ∃ root, IsNearestRoot roots source root ∧ d.lead = "" ∧
      ((d.steps = source.parent.steps ∧ name = moduleName source) ∨
        (root.steps <+: d.steps ∧ d.steps ++ [name] <+: source.parent.steps)) := by
  rw [mem_exportsOf hs]
  refine exists_congr fun root => ?_
  rw [isNearest_iff hroots hs]
  refine and_congr_right fun hroot => ?_
  constructor
  · rintro (⟨rfl, rfl⟩ | ⟨hbelow, hstep⟩)
    · exact ⟨hs, .inl ⟨rfl, rfl⟩⟩
    · exact ⟨hstep.1.symm.trans hs, .inr ⟨hbelow.2, hstep.2⟩⟩
  · rintro ⟨hlead, ⟨hsteps, rfl⟩ | ⟨hbelow, hstep⟩⟩
    · exact .inl ⟨eq_of_steps_eq (hlead.trans hs.symm) hsteps, rfl⟩
    · exact .inr ⟨⟨hlead.trans (hroots root hroot.mem).symm, hbelow⟩, hs.trans hlead.symm, hstep⟩

/-- The directories that export something for a source are those of its climb. -/
theorem exists_mem_exportsOf_iff {roots : List Location} {source d : Location}
    (hroots : ∀ r ∈ roots, r.lead = "") (hs : source.lead = "") :
    (∃ name, (d, name) ∈ exportsOf roots source) ↔
      ∃ root, IsNearestRoot roots source root ∧ IsOnClimb root source d := by
  rw [exists_mem_exportsOf hs]
  refine exists_congr fun root => ?_
  rw [isNearest_iff hroots hs]
  refine and_congr_right fun hroot => ⟨fun h => ⟨h.2.1.symm, h.1.2, h.2.2⟩, fun h => ?_⟩
  exact ⟨⟨h.lead.trans (hs.trans (hroots root hroot.mem).symm), h.below⟩, h.lead.symm, h.above⟩

end Barrel
end ApiScribe
