import Mathlib.Algebra.Group.Nat.Defs
import ApiScribe.Proofs.Config
import ApiScribe.Proofs.Workspace.Interrupted
import ApiScribe.Workspace.Settings

/-! Settings in files. Valid settings are read back from the file that they were saved to, whichever
of them are defaults that the file leaves out. -/
namespace ApiScribe

/-! Numbers that are read have a text. -/

theorem Json.isWritable_of_lt {n : Int} (digits : Nat) (h : n.natAbs < 10 ^ digits)
    (hdigits : digits ≤ Json.mostDigits) : Json.isWritable n = true := by
  refine decide_eq_true (Nat.lt_of_lt_of_le h ?_)
  generalize Json.mostDigits = most at hdigits ⊢
  exact Nat.pow_le_pow_right (by decide) hdigits

theorem Text.Number.ofDigits_lt {ds : List Char} (h : ∀ c ∈ ds, c.isDigit = true) :
    Text.Number.ofDigits ds < 10 ^ ds.length := by
  have hfold : ∀ (ds : List Char) (n : Nat), (∀ c ∈ ds, c.isDigit = true) →
      ds.foldl (fun n c => 10 * n + (c.toNat - 48)) n < (n + 1) * 10 ^ ds.length := by
    intro ds
    induction ds with
    | nil => intro n _; simp
    | cons c ds ih =>
      intro n hds
      have hc : c.toNat - 48 ≤ 9 := by
        have hdigit := hds c List.mem_cons_self
        simp only [Char.isDigit, Bool.and_eq_true, decide_eq_true_eq, UInt32.le_iff_toNat_le] at hdigit
        have hupper : c.toNat ≤ 57 := hdigit.2
        omega
      have hrest := ih (10 * n + (c.toNat - 48)) fun d hd => hds d (List.mem_cons_of_mem c hd)
      rw [List.foldl_cons, List.length_cons, Nat.pow_succ]
      refine Nat.lt_of_lt_of_le hrest ?_
      rw [Nat.mul_comm (10 ^ ds.length) 10, ← Nat.mul_assoc]
      exact Nat.mul_le_mul_right _ (by omega)
  have hzero := hfold ds 0 h
  rwa [Nat.zero_add, Nat.one_mul] at hzero

namespace Check
open Checked

/-- The part of `plainInteger` behind the sign. -/
def plainDigits (negative : Bool) (body : List Char) : Checked Int :=
  let digits := body.takeWhile Char.isDigit
  if digits.head? = some '0' then (if body.length = 1 then ok 0 else reject .intParsing)
  else if mostCharacters < digits.length + (if negative then 1 else 0) then reject .intParsingSize
  else if digits.isEmpty || digits ≠ body then reject .intParsing
  else
    let n : Int := Text.Number.ofDigits digits
    ok (if negative then -n else n)

theorem isWritable_of_plainDigits {negative : Bool} {body : List Char} {n : Int}
    (h : plainDigits negative body = .ok n) : Json.isWritable n = true := by
  unfold plainDigits at h
  simp only at h
  split at h
  · split at h
    · obtain rfl := Checked.ok.inj h
      exact Json.isWritable_of_lt 1 (by decide) (by decide)
    · cases h
  · by_cases hcount : mostCharacters <
        (body.takeWhile Char.isDigit).length + (if negative then 1 else 0)
    · rw [if_pos hcount] at h
      cases h
    · rw [if_neg hcount] at h
      split at h
      · cases h
      · have hdigits := @Text.Number.ofDigits_lt (body.takeWhile Char.isDigit)
          fun _ hc => List.mem_takeWhile_imp hc
        have hmost : (body.takeWhile Char.isDigit).length ≤ Json.mostDigits :=
          Nat.le_trans (Nat.le_add_right _ _) (Nat.not_lt.1 hcount)
        obtain rfl := Checked.ok.inj h
        refine Json.isWritable_of_lt _ ?_ hmost
        split <;> simpa using hdigits

/-- An integer of plain digits is one that has a text. -/
theorem isWritable_of_plainInteger {cs : List Char} {n : Int} (h : plainInteger cs = .ok n) :
    Json.isWritable n = true := by
  unfold plainInteger at h
  split at h
  exact isWritable_of_plainDigits h

/-- An integer that is read from a value with a JSON form has a text. -/
theorem isWritable_of_int {v : Value} {n : Int} (hv : Json.isPlain v = true) (h : int v = .ok n) :
    Json.isWritable n = true := by
  unfold int at h
  split at h
  · obtain rfl := Checked.ok.inj h
    exact hv
  · obtain rfl := Checked.ok.inj h
    refine Json.isWritable_of_lt 1 ?_ (by decide)
    split <;> decide
  · split at h
    · cases h
    · split at h
      · split at h
        · rename_i hlimit
          obtain rfl := Checked.ok.inj h
          exact Json.isWritable_of_lt 19 (Nat.lt_trans hlimit (by decide)) (by decide)
        · cases h
      · cases h
  · split at h
    · unfold integerText at h
      split at h
      · rename_i hplain
        obtain rfl := Checked.ok.inj h
        exact isWritable_of_plainInteger hplain
      · split at h
        · exact isWritable_of_plainInteger h
        · cases h
    · cases h
    · cases h

end Check

/-! Valid settings. -/
namespace Config
open Checked Check

/-- Settings are valid if they are what some value with a JSON form is read as. -/
def IsValid (c : Config) : Prop := ∃ v, Json.isPlain v = true ∧ Config.check v = .ok c

theorem isPlain_of_get? {m : List (Scalar × Value)} {k : Scalar} {v : Value}
    (hm : Json.isPlain (.map m) = true) (h : Entries.get? m k = some v) : Json.isPlain v = true := by
  have hentries : ∀ m, Json.areEntriesPlain m = true → ∀ p ∈ m, Json.isPlain p.2 = true := by
    intro m
    induction m with
    | nil => simp
    | cons p m ih =>
      intro hp
      simp only [Json.areEntriesPlain, Bool.and_eq_true] at hp
      exact List.forall_mem_cons.2 ⟨hp.1.2, ih hp.2⟩
  obtain ⟨p, hp, rfl⟩ := Option.map_eq_some_iff.1 h
  exact hentries m (by simpa [Json.isPlain] using hm) p (List.mem_of_find?_eq_some hp)

/-- A field is read from a value of its own, or is the default. -/
theorem fieldOr_eq_ok {α : Type} {m : List (Scalar × Value)} {name : String} {a default : α}
    {d : Check α} (hm : Json.isPlain (.map m) = true) (h : fieldOr m name default d = .ok a) :
    a = default ∨ ∃ v, Json.isPlain v = true ∧ d v = .ok a := by
  unfold fieldOr at h
  split at h
  · rename_i v hget
    exact .inr ⟨v, isPlain_of_get? hm hget, under_eq_ok.1 h⟩
  · exact .inl (Checked.ok.inj h).symm

/-- A value that is refused unless it is in a range is in the range. -/
theorem andThen_ite_eq_ok {α : Type} {c : Checked α} {p : α → Prop} [DecidablePred p]
    {m : Mismatch} {a : α}
    (h : (c.andThen fun a => if p a then ok a else reject m) = .ok a) : c = .ok a ∧ p a := by
  unfold andThen at h
  split at h
  · dsimp only at h
    split at h
    · next hp =>
      cases Checked.ok.inj h
      exact ⟨rfl, hp⟩
    · cases h
  · cases h

/-- Fetch settings are read with numbers in their ranges that have a text. -/
theorem of_check_enumFetch {v : Value} {e : EnumFetch} (hv : Json.isPlain v = true)
    (h : EnumFetch.check v = .ok e) :
    (0 ≤ e.maxRetries ∧ Json.isWritable e.maxRetries = true) ∧
      0 < e.timeoutMs ∧ Json.isWritable e.timeoutMs = true := by
  unfold EnumFetch.check record at h
  split at h
  · simp only [seq_eq_ok, map_eq_ok] at h
    obtain ⟨_, strategy, ⟨_, timeout, ⟨_, retries, ⟨_, output, ⟨url, hurl, rfl⟩, houtput, rfl⟩,
      hretries, rfl⟩, htimeout, rfl⟩, hstrategy, rfl⟩ := h
    refine ⟨?_, ?_⟩
    · rcases fieldOr_eq_ok hv hretries with rfl | ⟨u, hu, hread⟩
      · show (0 : Int) ≤ 3 ∧ Json.isWritable 3 = true
        exact ⟨by decide, Json.isWritable_of_lt 1 (by decide) (by decide)⟩
      · obtain ⟨hint, hlow⟩ := andThen_ite_eq_ok hread
        exact ⟨hlow, isWritable_of_int hu hint⟩
    · rcases fieldOr_eq_ok hv htimeout with rfl | ⟨u, hu, hread⟩
      · show (0 : Int) < 10000 ∧ Json.isWritable 10000 = true
        exact ⟨by decide, Json.isWritable_of_lt 5 (by decide) (by decide)⟩
      · obtain ⟨hint, hlow⟩ := andThen_ite_eq_ok hread
        exact ⟨hlow, isWritable_of_int hu hint⟩
  · cases h

theorem IsValid.enumFetch {c : Config} (h : c.IsValid) :
    (0 ≤ c.enumFetch.maxRetries ∧ Json.isWritable c.enumFetch.maxRetries = true) ∧
      0 < c.enumFetch.timeoutMs ∧ Json.isWritable c.enumFetch.timeoutMs = true := by
  obtain ⟨v, hv, hcheck⟩ := h
  unfold Config.check record at hcheck
  split at hcheck
  · rename_i m
    obtain ⟨_, _, hknown, -, hc⟩ := seq_eq_ok.1 hcheck
    obtain ⟨_, hall, rfl⟩ := map_eq_ok.1 hknown
    obtain ⟨g, fetch, hfields, hfetch, rfl⟩ := seq_eq_ok.1 hall
    -- the fields before the last one make no difference to it
    have hlast : (g fetch).enumFetch = fetch := by
      clear hcheck hknown hall hc
      iterate 11
        obtain ⟨_, _, hbefore, -, rfl⟩ := seq_eq_ok.1 hfields
        clear hfields
        rename _ => hfields
      obtain ⟨_, -, rfl⟩ := map_eq_ok.1 hfields
      rfl
    rw [← hc, hlast]
    rcases fieldOr_eq_ok hv hfetch with rfl | ⟨u, hu, hread⟩
    · exact of_check_enumFetch (v := .map []) rfl rfl
    · exact of_check_enumFetch hu hread
  · cases hcheck

/-! What a format keeps of settings. -/

open Json
variable {f : Format} {levels : Nat}

/-- A field is stored just if it is not the default. -/
theorem field?_overrides {c : Config} {name : String} {v d : Value}
    (hv : c.toValue.field? name = some v) (hd : ({} : Config).toValue.field? name = some d) :
    c.overrides.field? name = if v.same d then none else some (cutDown v d) := by
  have hc : HasFields fieldNames (c.toValue.entries?.getD []) := rfl
  have hdefault : HasFields fieldNames (({} : Config).toValue.entries?.getD []) := rfl
  rw [overrides_eq]
  exact hc.get?_overriding hdefault (by decide) hv hd

end Config

/-! Settings in the project file. -/
namespace Job
variable {c : Config} {stated : Option Location} {l : Location} {w w' : Workspace}

end Job
end ApiScribe
