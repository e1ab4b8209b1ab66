import Mathlib.Algebra.Order.Field.Rat
import Mathlib.Tactic.Ring
import ApiScribe.Retry
import ApiScribe.Enum.Fetch

/-! Runs of attempts. A run makes its attempts in order and stops at the first that does not fail,
or at the last that it is allowed. -/
namespace ApiScribe
namespace Retry
variable {σ ε α : Type} (attempt : σ → σ × Except ε α)

/-- The state after a number of attempts. -/
def after : Nat → σ → σ
  | 0, s => s
  | i + 1, s => after i (attempt s).1

/-- What the attempt at an index comes to. -/
def result (s : σ) (i : Nat) : Except ε α := (attempt (after attempt i s)).2

/-- The first of some outcomes, so many of them, are all failures. -/
def Fail (outcomes : Nat → Except ε α) (n : Nat) : Prop := ∀ j < n, ∃ e, outcomes j = .error e

theorem Fail.ne_ok {outcomes : Nat → Except ε α} {n k : Nat} (h : Fail outcomes n) (hk : k < n)
    (a : α) : outcomes k ≠ .ok a := by
  obtain ⟨e, he⟩ := h k hk
  simp [he]

/-- Among so many outcomes either all are failures, or one is the first that is none. -/
theorem fail_or_exists_first (outcomes : Nat → Except ε α) (n : Nat) :
    Fail outcomes n ∨ ∃ k < n, Fail outcomes k ∧ ∃ a, outcomes k = .ok a := by
  induction n with
  | zero => exact .inl fun j hj => absurd hj (Nat.not_lt_zero j)
  | succ n ih =>
    rcases ih with hfail | ⟨k, hk, hfirst⟩
    · rcases h : outcomes n with e | a
      · refine .inl fun j hj => ?_
        rcases Nat.lt_succ_iff_lt_or_eq.1 hj with hj | rfl
        · exact hfail j hj
        · exact ⟨e, h⟩
      · exact .inr ⟨n, Nat.lt_succ_self n, hfail, a, h⟩
    · exact .inr ⟨k, Nat.lt_succ_of_lt hk, hfirst⟩

/-- What is true of the course of a run from a state, of at most so many attempts after the
first. -/
structure IsCourse (more : Nat) (s : σ) (c : Course σ ε α) : Prop where
  length_le : c.failures.length ≤ more
  failed : ∀ j (hj : j < c.failures.length), result attempt s j = .error c.failures[j]
  state : c.state = after attempt c.attempts s
  outcome : c.outcome = result attempt s c.failures.length
  stopped : c.failures.length < more → ∃ a, c.outcome = .ok a

theorem isCourse_run (more : Nat) (s : σ) : IsCourse attempt more s (run attempt more s) := by
  induction more generalizing s with
  | zero => exact ⟨le_rfl, by simp [run], rfl, rfl, by simp [run]⟩
  | succ more ih =>
    rcases h : attempt s with ⟨t, r⟩
    cases r with
    | ok a =>
      have hrun : run attempt (more + 1) s = ⟨t, [], .ok a⟩ := by simp [run, h]
      rw [hrun]
      exact ⟨Nat.zero_le _, by simp, by simp [Course.attempts, after, h],
        by simp [result, after, h], fun _ => ⟨a, rfl⟩⟩
    | error e =>
      have hrun : run attempt (more + 1) s =
          { run attempt more t with failures := e :: (run attempt more t).failures } := by
        simp [run, h]
      have ht : (attempt s).1 = t := by rw [h]
      obtain ⟨hlength, hfailed, hstate, houtcome, hstopped⟩ := ih t
      rw [hrun]
      refine ⟨Nat.succ_le_succ hlength, ?_, ?_, ?_,
        fun hlt => hstopped (Nat.lt_of_succ_lt_succ hlt)⟩
      · intro j hj
        cases j with
        | zero => simp [result, after, h]
        | succ j => simpa [result, after, ht] using hfailed j (Nat.lt_of_succ_lt_succ hj)
      · simpa [Course.attempts, after, ht] using hstate
      · simpa [result, after, ht] using houtcome

variable {attempt} {more k : Nat} {s : σ} {c : Course σ ε α}

theorem IsCourse.fail (h : IsCourse attempt more s c) :
    Fail (result attempt s) c.failures.length := fun j hj => ⟨_, h.failed j hj⟩

/-- The first attempt that does not fail is the last one made. -/
theorem IsCourse.length_of_ok (h : IsCourse attempt more s c) (hk : k ≤ more)
    (hfail : Fail (result attempt s) k) {a : α} (hok : result attempt s k = .ok a) :
    c.failures.length = k := by
  rcases lt_trichotomy c.failures.length k with hlt | heq | hgt
  · obtain ⟨b, hb⟩ := h.stopped (by omega)
    exact absurd (h.outcome ▸ hb) (hfail.ne_ok hlt b)
  · exact heq
  · exact absurd hok (h.fail.ne_ok hgt a)

/-- If all attempts fail then all that are allowed are made. -/
theorem IsCourse.length_of_fail (h : IsCourse attempt more s c)
    (hfail : Fail (result attempt s) (more + 1)) : c.failures.length = more := by
  refine (Nat.lt_or_eq_of_le h.length_le).resolve_left fun hlt => ?_
  obtain ⟨a, ha⟩ := h.stopped hlt
  exact absurd (h.outcome ▸ ha) (hfail.ne_ok (Nat.lt_succ_of_lt hlt) a)

/-- The delays of a run in seconds. -/
def Course.sleeps (c : Course σ ε α) : List ℚ := c.delays.map fun halves : Nat => (halves : ℚ) / 2

/-- The delays after so many failures, in seconds: half a second, and each twice the one before. -/
def backoff (failures : Nat) : List ℚ := (List.range failures).map fun i => 1 / 2 * 2 ^ i

theorem Course.sleeps_eq (c : Course σ ε α) : c.sleeps = backoff c.failures.length := by
  refine List.ext_getElem (by simp [sleeps, delays, backoff]) fun i h1 h2 => ?_
  simp only [sleeps, delays, backoff, delay, List.getElem_map, List.getElem_mapIdx,
    List.getElem_range, Nat.pow_eq, Nat.cast_pow, Nat.cast_ofNat]
  ring

end Retry
end ApiScribe

/-! Listings fetched from the web. The attempts to fetch a listing end with the first that finds
values, or with the last one, whose failure is the one reported; unless there are so many failures
that the delay after them is too long to tell. -/
namespace ApiScribe

namespace Web

/-- The answers of an address to the requests to come. -/
def upcoming (w : Web) (url : String) (i : Nat) : WebAnswer :=
  match w.answers.get? url with
  | none | some [] => refused
  | some (a :: more) => (a :: more)[i]?.getD (more.getLast?.getD a)

theorem snd_ask (accept url : String) (w : Web) : (w.ask accept url).2 = w.upcoming url 0 := by
  simp only [ask, upcoming]
  rcases w.answers.get? url with _ | _ | ⟨a, _ | ⟨b, more⟩⟩ <;> rfl

/-- An address that was asked goes on with the answers that are left, and repeats the last one. -/
theorem upcoming_ask (accept url : String) (w : Web) (i : Nat) :
    (w.ask accept url).1.upcoming url i = w.upcoming url (i + 1) := by
  simp only [ask, upcoming]
  rcases h : w.answers.get? url with _ | _ | ⟨a, _ | ⟨b, more⟩⟩
  · simp [h]
  · simp [h]
  · cases i <;> simp [h]
  · simp [Entries.get?_put, List.getLast?_cons]

/-- An answer that sends nobody on is the last one. -/
theorem getWithin_of_turn {accept : String} {more : Nat} {a : Address} {w : Web}
    {page : Except Obstacle Page} (h : turn a (w.upcoming a.text 0) = page.map .page) :
    w.getWithin accept more a = ((w.ask accept a.text).1, page) := by
  rw [← snd_ask accept] at h
  cases page <;> cases more <;> simp only [getWithin, h, Except.map]

end Web

namespace EnumListing

open Retry

/-- What an attempt to fetch a listing comes to, at an address that sends nobody on. -/
theorem result_attempt {url : String} {a : Address} (hstart : Web.start url = .ok a)
    (pages : Nat → Except Web.Obstacle Web.Page) {w : Web} {i : Nat}
    (h : ∀ j ≤ i, Web.turn a (w.upcoming a.text j) = (pages j).map .page) :
    result (attempt url) w i = readListing (pages i) := by
  have hattempt : ∀ {w : Web} {page : Except Web.Obstacle Web.Page},
      Web.turn a (w.upcoming a.text 0) = page.map .page →
        attempt url w = ((w.ask listingContent a.text).1, readListing page) := by
    intro w page hw
    simp only [attempt, Web.get, hstart, Web.getWithin_of_turn hw]
  induction i generalizing w pages with
  | zero => rw [result, after, hattempt (h 0 le_rfl)]
  | succ i ih =>
    have hrest : ∀ j ≤ i, Web.turn a ((w.ask listingContent a.text).1.upcoming a.text j) =
        (pages (j + 1)).map .page := by
      intro j hj
      rw [Web.upcoming_ask]
      exact h (j + 1) (Nat.succ_le_succ hj)
    rw [← ih (fun j => pages (j + 1)) hrest, result, result, after, hattempt (h 0 (Nat.zero_le _))]

/-- A run made so many attempts, with the delays that belong between them. -/
def Made (url : String) (w : Web) (made : Nat)
    (c : Course Web String (Outcome (List (String × String)))) : Prop :=
  c.attempts = made ∧ c.state = after (attempt url) made w ∧ c.sleeps = backoff (made - 1)

/-- What is promised of a run of at most so many attempts whose outcomes are given: it ends with
the first attempt that finds values, and it fails with the words of the last one if none does. -/
structure IsAnswered (allowed : Nat) (url : String)
    (outcomes : Nat → Except String (List (String × String))) (w : Web)
    (c : Course Web String (Outcome (List (String × String))))
    (answer : Outcome (List (String × String))) : Prop where
  found : ∀ k < allowed, Fail outcomes k → ∀ values, outcomes k = .ok values →
    Made url w (k + 1) c ∧ answer = .ok values
  failed : Fail outcomes allowed → ∀ words, outcomes (allowed - 1) = .error words →
    Made url w allowed c ∧ answer = .fail (.network url words)

section
variable (retries : Int) {url : String} {w : Web}

theorem one_le_attempts : 1 ≤ Retry.attempts retries := le_max_right _ _

theorem isCourse_fetch (url : String) (w : Web) :
    IsCourse (attempt url) (min (Retry.attempts retries - 1) mostDelays) w
      (fetch retries url w) := isCourse_run _ _ _

theorem made_fetch : Made url w (fetch retries url w).attempts (fetch retries url w) :=
  ⟨rfl, (isCourse_fetch retries url w).state, Course.sleeps_eq _⟩

variable {outcomes : Nat → Except String (List (String × String))}

theorem fail_result {n : Nat}
    (h : ∀ j < n, result (attempt url) w j = (outcomes j).map .ok) (hfail : Fail outcomes n) :
    Fail (result (attempt url) w) n := by
  intro j hj
  obtain ⟨words, hwords⟩ := hfail j hj
  exact ⟨words, by rw [h j hj, hwords]; rfl⟩

/-- An attempt that finds values, after failures only, ends a run that comes so far. -/
theorem fetch_of_ok {k : Nat} (hk : k ≤ min (Retry.attempts retries - 1) mostDelays)
    (h : ∀ j < k + 1, result (attempt url) w j = (outcomes j).map .ok) (hfail : Fail outcomes k)
    {values : List (String × String)} (hok : outcomes k = .ok values) :
    Made url w (k + 1) (fetch retries url w) ∧
      outcome retries url (fetch retries url w) = .ok values := by
  have hlast : result (attempt url) w k = .ok (.ok values) := by
    rw [h k (Nat.lt_succ_self k), hok]
    rfl
  have hcourse := isCourse_fetch retries url w
  have hlength := hcourse.length_of_ok hk
    (fail_result (fun j hj => h j (Nat.lt_succ_of_lt hj)) hfail) hlast
  have houtcome := hcourse.outcome
  rw [hlength, hlast] at houtcome
  have hmade : (fetch retries url w).attempts = k + 1 := by rw [Course.attempts, hlength]
  exact ⟨hmade ▸ made_fetch retries, by rw [outcome, houtcome]⟩

/-- If no attempt finds values then all are made, up to the one after which the delay cannot be
told; and if there are more to come then, no rule covers that. -/
theorem fetch_of_fail {last : Nat} (hlast : last = min (Retry.attempts retries - 1) mostDelays)
    (h : ∀ j < last + 1, result (attempt url) w j = (outcomes j).map .ok)
    (hfail : Fail outcomes (last + 1)) {words : String} (hwords : outcomes last = .error words) :
    Made url w (last + 1) (fetch retries url w) ∧
      outcome retries url (fetch retries url w) =
        if mostDelays + 1 < Retry.attempts retries then .unexpected
        else .fail (.network url words) := by
  subst hlast
  have hcourse := isCourse_fetch retries url w
  have hlength := hcourse.length_of_fail (fail_result h hfail)
  have houtcome := hcourse.outcome
  rw [hlength, h _ (Nat.lt_succ_self _), hwords] at houtcome
  have hmade : (fetch retries url w).attempts =
      min (Retry.attempts retries - 1) mostDelays + 1 := by rw [Course.attempts, hlength]
  have hmost : mostDelays < Retry.attempts retries - 1 ↔
      mostDelays + 1 < Retry.attempts retries := by omega
  exact ⟨hmade ▸ made_fetch retries, by simp only [outcome, houtcome, Except.map, hmost]⟩

/-- What is promised of a run is kept exactly if no more attempts are allowed than have delays
between them that can be told, or if one of those finds values. -/
theorem isAnswered_fetch_iff
    (h : ∀ i < Retry.attempts retries, result (attempt url) w i = (outcomes i).map .ok) :
    IsAnswered (Retry.attempts retries) url outcomes w (fetch retries url w)
        (outcome retries url (fetch retries url w)) ↔
      Retry.attempts retries ≤ mostDelays + 1 ∨ ¬ Fail outcomes (mostDelays + 1) := by
  have hallowed := one_le_attempts retries
  constructor
  · intro hanswered
    by_contra hmany
    obtain ⟨hmany, hnone⟩ := not_or.1 hmany
    have hfail := not_not.1 hnone
    -- The run ends with the last delay, so neither half of the promise can be kept.
    obtain ⟨words, hwords⟩ := hfail mostDelays (Nat.lt_succ_self _)
    have hmade := (fetch_of_fail retries (by omega)
      (fun j hj => h j (by omega)) hfail hwords).1.1
    rcases fail_or_exists_first outcomes (Retry.attempts retries) with hall | ⟨k, hk, hfirst⟩
    · obtain ⟨last, hlast⟩ := hall (Retry.attempts retries - 1) (by omega)
      have hpromised := (hanswered.failed hall last hlast).1.1
      omega
    · obtain ⟨hbefore, values, hvalues⟩ := hfirst
      have hpromised := (hanswered.found k hk hbefore values hvalues).1.1
      exact hfail.ne_ok (by omega) values hvalues
  · intro hfew
    refine ⟨fun k hk hbefore values hok => ?_, fun hall words hwords => ?_⟩
    · refine fetch_of_ok retries ?_ (fun j hj => h j (by omega)) hbefore hok
      have hearly : k ≤ mostDelays ∨ Retry.attempts retries ≤ mostDelays + 1 := by
        by_contra hlate
        refine hfew.elim (by omega) fun hsome => hsome fun j hj => ?_
        exact hbefore j (by omega)
      omega
    · have hsmall : Retry.attempts retries ≤ mostDelays + 1 := by
        by_contra hlarge
        refine hfew.elim hlarge fun hsome => hsome fun j hj => ?_
        exact hall j (by omega)
      have hlast := fetch_of_fail retries (by omega)
        (fun j hj => h j (by omega)) (fun j hj => hall j (by omega)) hwords
      rwa [if_neg (by omega), Nat.sub_add_cancel hallowed] at hlast

end

/-- The address of a listing of colours. -/
def colourUrl : String := "http://h/Enums/GetAllColour"

/-- The address in its parts. -/
def colourAddress : Address := { scheme := "http", host := "h", path := "/Enums/GetAllColour" }

theorem place_colourAddress : colourAddress.place = "h" := by
  simp [Address.place, Host.text, colourAddress]

theorem text_colourAddress : colourAddress.text = colourUrl := by
  simp only [Address.text, Address.authority, place_colourAddress]
  decide +kernel

theorem start_colourUrl : Web.start colourUrl = .ok colourAddress := by
  have hknown : Web.known (Address.ofText colourUrl) = .ok colourAddress := by decide +kernel
  have hplace : Web.checkPlace colourAddress = .ok () := by
    simp only [Web.checkPlace, place_colourAddress]
    rfl
  simp only [Web.start, hknown, bind, Except.bind]
  rw [if_pos (by decide)]
  simp only [pure, Except.pure, hplace]

/-- Nobody serves the address, and a run of 1026 attempts does not keep what is promised of it. -/
theorem not_isAnswered_refused :
    (∀ i, result (attempt colourUrl) {} i = .error "connection refused") ∧
      Retry.attempts 1026 = 1026 ∧
      ¬ IsAnswered (Retry.attempts 1026) colourUrl (fun _ => .error "connection refused") {}
        (fetch 1026 colourUrl {}) (outcome 1026 colourUrl (fetch 1026 colourUrl {})) := by
  have hrefused : ∀ i, result (attempt colourUrl) {} i = .error "connection refused" := fun i =>
    result_attempt start_colourUrl
      (fun _ => .error (.failure "ConnectError" "connection refused")) fun j _ => rfl
  refine ⟨hrefused, rfl, fun hanswered => ?_⟩
  have hfail : ∀ n, Fail (fun _ => .error "connection refused" :
      Nat → Except String (List (String × String))) n := fun n j _ => ⟨_, rfl⟩
  have hmade := (fetch_of_fail 1026 rfl (fun j _ => hrefused j) (hfail _) rfl).1.1
  have hpromised := (hanswered.failed (hfail _) _ rfl).1.1
  rw [hpromised] at hmade
  exact absurd hmade (by decide)

/-- The address loses the connection, then has no data, then has a listing. -/
def colourWeb : Web :=
  { answers := [(colourUrl, [.failure "ReadTimeout" "", .reply { body := "[]" },
      .reply { body := "\x7b\"Data\": [\x7b\"Key\": 0, \"Value\": \"Red\"\x7d]\x7d" }])] }

/-- What the address has. -/
def colourPages : Nat → Except Web.Obstacle Web.Page
  | 0 => .error (.failure "ReadTimeout" "")
  | 1 => .ok ⟨colourUrl, { body := "[]" }⟩
  | _ =>
    .ok ⟨colourUrl, { body := "\x7b\"Data\": [\x7b\"Key\": 0, \"Value\": \"Red\"\x7d]\x7d" }⟩

/-- What is made of it. -/
def colourOutcomes : Nat → Except String (List (String × String))
  | 0 => .error "ReadTimeout"
  | 1 => .error "response missing Data array"
  | _ => .ok [("0", "Red")]

theorem result_colourWeb (i : Nat) :
    result (attempt colourUrl) colourWeb i = (colourOutcomes i).map .ok := by
  have hturn : ∀ i, Web.turn colourAddress (colourWeb.upcoming colourAddress.text i) =
      (colourPages i).map .page := by
    intro i
    simp only [Web.turn, text_colourAddress]
    match i with
    | 0 => rfl
    | 1 => rfl
    | i + 2 => cases i <;> rfl
  rw [result_attempt start_colourUrl colourPages fun j _ => hturn j]
  match i with
  | 0 => rfl
  | 1 => decide +kernel
  | i + 2 =>
    have hread : readListing (colourPages 2) = .ok (.ok [("0", "Red")]) := by decide +kernel
    exact hread

/-- Of five attempts three are made, with one delay of half a second and one of a second. -/
theorem fetch_colourWeb :
    (fetch 5 colourUrl colourWeb).attempts = 3 ∧
      (fetch 5 colourUrl colourWeb).sleeps = [1 / 2, 1] ∧
      outcome 5 colourUrl (fetch 5 colourUrl colourWeb) = .ok [("0", "Red")] := by
  have hanswered := (isAnswered_fetch_iff 5 fun i _ => result_colourWeb i).2 (.inl (by decide))
  obtain ⟨⟨hattempts, -, hsleeps⟩, hoc⟩ := hanswered.found 2 (by decide)
    (fun j hj => by
      match j, hj with
      | 0, _ => exact ⟨_, rfl⟩
      | 1, _ => exact ⟨_, rfl⟩) [("0", "Red")] rfl
  refine ⟨hattempts, hsleeps.trans ?_, hoc⟩
  simp [backoff, List.range_succ]

end EnumListing
end ApiScribe
