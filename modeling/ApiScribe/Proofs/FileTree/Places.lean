import Mathlib.Data.List.Induction
import Mathlib.Data.List.Infix
import ApiScribe.FileTree
import ApiScribe.Proofs.Entries

/-! Places in a file tree. The place that a location names and the places on the way to it follow
from its steps; the tree decides only whether the way can be gone. A tree that has no file on the
way either leads to the place or misses a directory before it. -/
namespace ApiScribe
namespace Location

/-- The place one step on. -/
def next (place : List String) (step : String) : List String :=
  if step = ".." then place.dropLast else place ++ [step]

/-- The places that steps pass on their way, the first of them included and the last one not. -/
def passedFrom (place : List String) : List String → List (List String)
  | [] => []
  | s :: ss => place :: passedFrom (next place s) ss

/-- The place where a location starts. -/
def start (current : List String) (l : Location) : List String :=
  if l.lead = "" then current else []

/-- The place that a location names, whatever stands there. -/
def place (current : List String) (l : Location) : List String :=
  l.steps.foldl next (l.start current)

/-- The places on the way to a location. -/
def passed (current : List String) (l : Location) : List (List String) :=
  passedFrom (l.start current) l.steps

/-- The places on the way to a location, and its own. -/
def way (current : List String) (l : Location) : List (List String) :=
  l.passed current ++ [l.place current]

theorem passedFrom_concat (place : List String) (ss : List String) (s : String) :
    passedFrom place (ss ++ [s]) = passedFrom place ss ++ [ss.foldl next place] := by
  induction ss generalizing place with
  | nil => rfl
  | cons x ss ih => simp [passedFrom, ih]

variable {current : List String} {l : Location}

theorem mem_way {q : List String} :
    q ∈ l.way current ↔ q ∈ l.passed current ∨ q = l.place current := by simp [way]

/-- What is passed on the way to a location is the way to the directory it is in. -/
theorem passed_eq_way_parent (h : l.steps ≠ []) : l.passed current = l.parent.way current := by
  rw [passed, ← List.dropLast_append_getLast h, passedFrom_concat]
  rfl

theorem place_eq_next (h : l.steps ≠ []) :
    l.place current = next (l.parent.place current) l.name := by
  have hname : l.name = l.steps.getLast h := by
    rw [name, List.getLastD_eq_getLast?, List.getLast?_eq_some_getLast h, Option.getD_some]
  rw [place, ← List.dropLast_append_getLast h, List.foldl_concat, hname]
  rfl

/-- A location within the limits of a file tree. -/
structure Fits (l : Location) : Prop where
  text : l.text.utf8ByteSize ≤ FileTree.pathLimit
  names : ∀ s ∈ l.steps, s = ".." ∨ s.utf8ByteSize ≤ FileTree.nameLimit

instance (l : Location) : Decidable l.Fits :=
  decidable_of_iff (l.text.utf8ByteSize ≤ FileTree.pathLimit ∧
    ∀ s ∈ l.steps, s = ".." ∨ s.utf8ByteSize ≤ FileTree.nameLimit)
    ⟨fun ⟨htext, hnames⟩ => ⟨htext, hnames⟩, fun h => ⟨h.text, h.names⟩⟩

theorem utf8ByteSize_text (l : Location) :
    l.text.utf8ByteSize = max 1 (l.lead ++ "/".intercalate l.steps).utf8ByteSize := by
  unfold text
  generalize l.lead ++ "/".intercalate l.steps = t
  by_cases h : t = ""
  · subst h
    rfl
  · have hpos : t.utf8ByteSize ≠ 0 := fun hzero => h (String.utf8ByteSize_eq_zero_iff.1 hzero)
    simp only [h, if_false]
    omega

theorem utf8ByteSize_intercalate_le (ss : List String) (s : String) :
    ("/".intercalate ss).utf8ByteSize ≤ ("/".intercalate (ss ++ [s])).utf8ByteSize := by
  induction ss with
  | nil => exact Nat.zero_le _
  | cons x ss ih =>
    have hcons : "/".intercalate (x :: (ss ++ [s])) = x ++ "/" ++ "/".intercalate (ss ++ [s]) :=
      String.intercalate_cons_of_ne_nil (by simp)
    rw [List.cons_append, hcons]
    by_cases hss : ss = []
    · rw [hss, String.intercalate_singleton]
      simp only [String.utf8ByteSize_append]
      omega
    · rw [String.intercalate_cons_of_ne_nil hss]
      simp only [String.utf8ByteSize_append]
      omega

/-- The directory that a location is in is within the limits too. -/
theorem Fits.parent (h : l.Fits) : l.parent.Fits := by
  refine ⟨Nat.le_trans ?_ h.text, fun s hs => h.names s (List.dropLast_subset _ hs)⟩
  rw [utf8ByteSize_text, utf8ByteSize_text, String.utf8ByteSize_append, String.utf8ByteSize_append]
  have hsteps : ("/".intercalate l.parent.steps).utf8ByteSize ≤
      ("/".intercalate l.steps).utf8ByteSize := by
    by_cases hne : l.steps = []
    · rw [Location.parent, hne]
      exact Nat.le_refl _
    · have hle := utf8ByteSize_intercalate_le l.steps.dropLast (l.steps.getLast hne)
      rwa [List.dropLast_append_getLast] at hle
  have hlead : l.parent.lead = l.lead := rfl
  rw [hlead]
  omega

end Location

namespace FileTree
variable {t : FileTree} {current place : List String} {l : Location} {bs : Bytes}

/-- The bytes of the file at a place, if a file stands there: a tree as a map. -/
def file? (t : FileTree) (place : List String) : Option Bytes :=
  match t.node? place with
  | some (.file bs) => some bs
  | _ => none

theorem file?_eq_some : t.file? place = some bs ↔ t.node? place = some (.file bs) := by
  unfold file?
  split <;> simp_all

theorem file?_eq_none : t.file? place = none ↔ ∀ bs, t.node? place ≠ some (.file bs) := by
  rw [Option.eq_none_iff_forall_ne_some]
  exact forall_congr' fun bs => not_congr file?_eq_some

theorem node?_of_ne_nil (t : FileTree) (h : place ≠ []) : t.node? place = t.nodes.get? place := by
  obtain ⟨s, ss, rfl⟩ := List.exists_cons_of_ne_nil h
  rfl

theorem ne_nil_of_node? {n : Option FileNode} (h : t.node? place = n) (hn : n ≠ some .directory) :
    place ≠ [] := by
  rintro rfl
  exact hn h.symm

theorem node?_put (h : place ≠ []) (n : FileNode) (q : List String) :
    (t.put place n).node? q = if q = place then some n else t.node? q := by
  by_cases hq : q = []
  · rw [hq, if_neg (Ne.symm h)]
    rfl
  · rw [node?_of_ne_nil _ hq, node?_of_ne_nil _ hq, put, Entries.get?_put]
    simp only [beq_iff_eq, eq_comm (a := place)]

theorem node?_drop (h : place ≠ []) (q : List String) :
    (t.drop place).node? q = if q = place then none else t.node? q := by
  by_cases hq : q = []
  · rw [hq, if_neg (Ne.symm h)]
    rfl
  · rw [node?_of_ne_nil _ hq, node?_of_ne_nil _ hq, drop, Entries.get?, Entries.get?,
      List.find?_filter]
    split
    · next heq =>
      rw [heq, Option.map_eq_none_iff, List.find?_eq_none]
      simp
    · next hne =>
      have hsame : ∀ p : List String × FileNode,
          decide (decide (p.1 ≠ place) = true ∧ (p.1 == q) = true) = (p.1 == q) := by
        intro p
        by_cases hp : p.1 = q <;> simp_all
      simp only [hsame]

theorem enter_of_directory {s : String} (hname : s = ".." ∨ s.utf8ByteSize ≤ nameLimit)
    (h : t.node? place = some .directory) : t.enter place s = .ok (Location.next place s) := by
  rw [enter, h, Location.next]
  by_cases hup : s = ".."
  · simp [hup]
  · simp [hup, Nat.not_lt.2 (hname.resolve_left hup)]

theorem follow_of_directories {ss : List String}
    (hnames : ∀ s ∈ ss, s = ".." ∨ s.utf8ByteSize ≤ nameLimit)
    (h : ∀ q ∈ Location.passedFrom place ss, t.node? q = some .directory) :
    t.follow place ss = .ok (ss.foldl Location.next place) := by
  induction ss generalizing place with
  | nil => rfl
  | cons s ss ih =>
    obtain ⟨hplace, hrest⟩ := List.forall_mem_cons.1 h
    obtain ⟨hs, hss⟩ := List.forall_mem_cons.1 hnames
    rw [follow, enter_of_directory hs hplace]
    exact ih hss hrest

theorem follow_of_gap {ss : List String}
    (hnames : ∀ s ∈ ss, s = ".." ∨ s.utf8ByteSize ≤ nameLimit)
    (hfiles : ∀ q ∈ Location.passedFrom place ss, t.file? q = none)
    (h : ¬ ∀ q ∈ Location.passedFrom place ss, t.node? q = some .directory) :
    t.follow place ss = .error .missing := by
  induction ss generalizing place with
  | nil => exact absurd (by simp [Location.passedFrom]) h
  | cons s ss ih =>
    obtain ⟨hplace, hrest⟩ := List.forall_mem_cons.1 hfiles
    obtain ⟨hs, hss⟩ := List.forall_mem_cons.1 hnames
    cases hnode : t.node? place with
    | none =>
      rw [follow, enter, hnode]
    | some n =>
      cases n with
      | file bs => exact absurd hnode (file?_eq_none.1 hplace bs)
      | directory =>
        rw [follow, enter_of_directory hs hnode]
        refine ih hss hrest fun hall => h ?_
        exact List.forall_mem_cons.2 ⟨hnode, hall⟩

/-- Directories all along the way to a location. -/
def Leads (t : FileTree) (current : List String) (l : Location) : Prop :=
  ∀ q ∈ l.passed current, t.node? q = some .directory

/-- No file on the way to a location. -/
def IsClear (t : FileTree) (current : List String) (l : Location) : Prop :=
  ∀ q ∈ l.passed current, t.file? q = none

theorem leads_of_steps (h : l.steps = []) : t.Leads current l := by
  simp [Leads, Location.passed, h, Location.passedFrom]

theorem Leads.isClear (h : t.Leads current l) : t.IsClear current l :=
  fun q hq => by rw [file?, h q hq]

theorem Leads.locate (h : t.Leads current l) (hfits : l.Fits) :
    t.locate current l = .ok (l.place current) := by
  rw [FileTree.locate, if_neg (Nat.not_lt.2 hfits.text)]
  exact follow_of_directories hfits.names h

theorem IsClear.locate_of_not_leads (hclear : t.IsClear current l) (hfits : l.Fits)
    (h : ¬ t.Leads current l) : t.locate current l = .error .missing := by
  rw [FileTree.locate, if_neg (Nat.not_lt.2 hfits.text)]
  exact follow_of_gap hfits.names hclear h

/-- On a clear way a file is read if directories lead to it, and nothing else is. -/
theorem IsClear.read_eq_ok (hclear : t.IsClear current l) (hfits : l.Fits) :
    t.read current l = .ok bs ↔ t.Leads current l ∧ t.file? (l.place current) = some bs := by
  by_cases hleads : t.Leads current l
  · rw [FileTree.read, hleads.locate hfits, file?_eq_some]
    cases hnode : t.node? (l.place current) with
    | none => simp [hnode]
    | some n => cases n <;> simp [hnode, hleads]
  · rw [FileTree.read, hclear.locate_of_not_leads hfits hleads]
    simp [hleads]

/-- Where no directory stands and the way is clear, what cannot be read is missing. -/
theorem IsClear.read_eq_missing (hclear : t.IsClear current l) (hfits : l.Fits)
    (hdirectory : t.node? (l.place current) ≠ some .directory)
    (h : ∀ bs, t.read current l ≠ .ok bs) : t.read current l = .error .missing := by
  by_cases hleads : t.Leads current l
  · cases hnode : t.node? (l.place current) with
    | none => simp only [FileTree.read, hleads.locate hfits, hnode]
    | some n =>
      cases n with
      | file bs => exact absurd ((hclear.read_eq_ok hfits).2 ⟨hleads, file?_eq_some.2 hnode⟩) (h bs)
      | directory => exact absurd hnode hdirectory
  · rw [FileTree.read, hclear.locate_of_not_leads hfits hleads]

/-- A tree in which everything stands in a directory. -/
def IsTree (t : FileTree) : Prop := ∀ p ∈ t.nodes, t.node? p.1.dropLast = some .directory

instance (t : FileTree) : Decidable t.IsTree :=
  inferInstanceAs (Decidable (∀ p ∈ t.nodes, t.node? p.1.dropLast = some .directory))

/-- Everything above something that stands in a tree is a directory. -/
theorem IsTree.node?_of_prefix (h : t.IsTree) {n : FileNode} (hn : t.node? place = some n)
    {q : List String} (hq : q <+: place.dropLast) : t.node? q = some .directory := by
  induction place using List.reverseRecOn generalizing n with
  | nil =>
    rw [List.prefix_nil.1 hq]
    rfl
  | append_singleton place s ih =>
    have hparent : t.node? place = some .directory := by
      rw [node?_of_ne_nil t (by simp)] at hn
      simpa using h _ (Entries.mem_of_get?_eq_some hn)
    rw [List.dropLast_concat] at hq
    by_cases hsame : q = place
    · rw [hsame, hparent]
    · have hproper : q <+: place.dropLast := by
        rcases List.eq_nil_or_concat place with rfl | ⟨front, last, rfl⟩
        · exact absurd (List.prefix_nil.1 hq) hsame
        · rw [List.concat_eq_append] at hq hsame ⊢
          rw [List.dropLast_concat]
          exact (List.prefix_concat_iff.1 hq).resolve_left hsame
      exact ih hparent hproper

end FileTree
end ApiScribe
