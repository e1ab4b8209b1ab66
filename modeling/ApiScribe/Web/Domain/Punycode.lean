/-! Labels in plain characters. The plain characters of a label come first; the others are told by
numbers in increasing order of character and place, each number as the steps from the one before. A
number has digits in a base of 36 whose weights adapt to the size of the numbers so far. -/
namespace ApiScribe
namespace Domain
namespace Punycode

/-- The character of a digit below 36. -/
def digitChar (d : Nat) : Char := if d < 26 then Char.ofNat (97 + d) else Char.ofNat (22 + d)

/-- The digit of a character; case does not count. -/
def digit? (c : Char) : Option Nat :=
  if 'a' ≤ c && c ≤ 'z' then some (c.toNat - 97)
  else if 'A' ≤ c && c ≤ 'Z' then some (c.toNat - 65)
  else if c.isDigit then some (c.toNat - 22)
  else none

theorem digit?_digitChar : ∀ d ∈ List.range 36, digit? (digitChar d) = some d := by decide

/-- A digit below the threshold of its place ends a number. -/
def threshold (place bias : Nat) : Nat :=
  if place ≤ bias then 1 else if bias + 26 ≤ place then 26 else place - bias

theorem threshold_bounds (place bias : Nat) :
    1 ≤ threshold place bias ∧ threshold place bias ≤ 26 := by
  unfold threshold
  split
  · omega
  · split <;> omega

/-- Makes a number small and counts the places that it takes. -/
def shrink (delta place : Nat) : Nat :=
  if 455 < delta then shrink (delta / 35) (place + 36) else place + 36 * delta / (delta + 38)
termination_by delta
decreasing_by omega

/-- The bias after a number, with the count of characters so far. -/
def adapt (delta count : Nat) (isFirst : Bool) : Nat :=
  let delta := if isFirst then delta / 700 else delta / 2
  shrink (delta + delta / count) 0

/-- The digits of a number. -/
def digits (bias place n : Nat) : List Char :=
  let t := threshold place bias
  if n < t then [digitChar n]
  else digitChar (t + (n - t) % (36 - t)) :: digits bias (place + 36) ((n - t) / (36 - t))
termination_by n
decreasing_by
  have := threshold_bounds place bias
  exact Nat.lt_of_le_of_lt (Nat.div_le_self _ _) (by omega)

/-- What was written: the digits, the steps since the last number, the bias, and the count of
characters told. -/
structure Progress where
  out : List Char := []
  delta : Nat := 0
  bias : Nat := 72
  count : Nat

/-- Passes a character of the label while the places of `n` are told; `plain` is the count of plain
characters. -/
def pass (plain n : Nat) (p : Progress) (c : Char) : Progress :=
  if c.toNat < n then { p with delta := p.delta + 1 }
  else if c.toNat = n then
    { out := p.out ++ digits p.bias 36 p.delta
      delta := 0
      bias := adapt p.delta (p.count + 1) (p.count = plain)
      count := p.count + 1 }
  else p

/-- Tells the places of characters in increasing order, the last of them being `n - 1`. -/
def tell (cs : List Char) (plain : Nat) : Nat → List Nat → Progress → Progress
  | _, [], p => p
  | n, m :: ms, p =>
    let p := cs.foldl (pass plain m) { p with delta := p.delta + (m - n) * (p.count + 1) }
    tell cs plain (m + 1) ms { p with delta := p.delta + 1 }

/-- Whether a character is plain. -/
def isPlain (c : Char) : Bool := c.toNat < 128

/-- A label in plain characters. -/
def encode (cs : List Char) : List Char :=
  let plain := cs.filter isPlain
  let others := ((cs.filter (!isPlain ·)).map Char.toNat).mergeSort.eraseDups
  plain ++ (if plain.isEmpty then [] else ['-'])
    ++ (tell cs plain.length 128 others { count := plain.length }).out

/-- Reads a number: the sum so far with it added, and what follows. -/
def number? (bias : Nat) : (place weight sum : Nat) → List Char → Option (Nat × List Char)
  | _, _, _, [] => none
  | place, weight, sum, c :: cs => do
    let d ← digit? c
    let t := threshold place bias
    if d < t then some (sum + d * weight, cs)
    else number? bias (place + 36) (weight * (36 - t)) (sum + d * weight) cs

theorem length_of_number? {bias place weight sum n : Nat} {cs rest : List Char}
    (h : number? bias place weight sum cs = some (n, rest)) : rest.length < cs.length := by
  induction cs generalizing place weight sum with
  | nil => simp [number?] at h
  | cons c cs ih =>
    simp only [number?, bind, Option.bind_eq_some_iff] at h
    obtain ⟨d, _, h⟩ := h
    split at h
    · cases h
      simp
    · have := ih h
      simp only [List.length_cons]
      omega

/-- Puts told characters into a label; the last one had the code point `n`, and `i` is the place after
it. -/
def insert (bias n i : Nat) (label cs : List Char) : Option (List Char) :=
  match cs with
  | [] => some label
  | c :: cs =>
    match _h : number? bias 36 1 i (c :: cs) with
    | none => none
    | some (j, rest) =>
      let count := label.length + 1
      let m := n + j / count
      if m.isValidChar then
        insert (adapt (j - i) count (i = 0)) m (j % count + 1)
          (label.insertIdx (j % count) (Char.ofNat m)) rest
      else none
termination_by cs.length
decreasing_by exact length_of_number? ‹_›

/-- The label that plain characters tell. -/
def decode? (cs : List Char) : Option (List Char) :=
  let back := cs.reverse
  let others := (back.takeWhile (· ≠ '-')).reverse
  let plain := ((back.dropWhile (· ≠ '-')).drop 1).reverse
  insert 72 128 0 plain others

end Punycode
end Domain
end ApiScribe
