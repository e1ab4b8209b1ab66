/-! Trying again: an attempt that fails is followed by another one after a delay, and each delay is
twice the one before. There is no delay after the last attempt. -/
namespace ApiScribe
namespace Retry

/-- What became of a run of attempts: the failures that were followed by another attempt, and the
outcome of the last one. -/
structure Course (σ ε α : Type) where
  state : σ
  failures : List ε
  outcome : Except ε α

variable {σ ε α : Type}

/-- Attempts until one succeeds, at most `more` of them after the first. -/
def run (attempt : σ → σ × Except ε α) : Nat → σ → Course σ ε α
  | 0, s =>
    let (s, r) := attempt s
    ⟨s, [], r⟩
  | more + 1, s =>
    match attempt s with
    | (s, .ok a) => ⟨s, [], .ok a⟩
    | (s, .error e) =>
      let c := run attempt more s
      { c with failures := e :: c.failures }

/-- The number of attempts that a wish for retries allows: one at least. -/
def attempts (wish : Int) : Nat := max wish.toNat 1

/-- The most delays of a run: the next one would be too long to tell. -/
def mostDelays : Nat := 1024

/-- The delay after the failure at an index, in half seconds. -/
def delay (index : Nat) : Nat := Nat.pow 2 index

/-- The delays of a run, in half seconds. -/
def Course.delays (c : Course σ ε α) : List Nat := c.failures.mapIdx fun i _ => delay i

/-- The number of attempts of a run. -/
def Course.attempts (c : Course σ ε α) : Nat := c.failures.length + 1

/-- Half seconds in seconds with one place. -/
def secondsText (halves : Nat) : String :=
  toString (halves / 2) ++ (if halves % 2 = 0 then ".0" else ".5")

end Retry
end ApiScribe
