import ApiScribe.Fault

/-! The order of scalars: texts by code points, numbers by value, bytes byte by byte, and moments of
one kind by time. Scalars of different kinds have no order, so a list of them cannot be sorted. -/
namespace ApiScribe

/-- A number as a fraction, an infinity, or no number at all. -/
inductive Magnitude
  | fraction (num : Int) (den : Nat)
  | infinite (negative : Bool)
  | undefined
  deriving Repr, DecidableEq

namespace Magnitude

/-- Less; what is no number is neither less nor greater than anything. -/
def lt : Magnitude → Magnitude → Bool
  | undefined, _ => false
  | _, undefined => false
  | infinite a, infinite b => a && !b
  | infinite a, fraction .. => a
  | fraction .., infinite b => !b
  | fraction a b, fraction c d => a * d < c * b

/-- The quantity of a floating-point number. -/
def ofFloat (x : Float) : Magnitude :=
  match Decimal.read x with
  | .finite b =>
    let (num, den) := b.ratio
    .fraction (if b.negative then -(num : Int) else num) den
  | .infinite negative => .infinite negative
  | .undefined => .undefined

end Magnitude

/-- What a scalar is compared by. -/
inductive Rank
  | text (s : String)
  | number (m : Magnitude)
  | bytes (bs : List Nat)
  | moment (kind : MomentKind) (instant : Int)

namespace Rank

/-- Less, if the two can be compared. -/
def lt? : Rank → Rank → Option Bool
  | .text s, .text t => some (decide (s < t))
  | .number m, .number n => some (m.lt n)
  | .bytes bs, .bytes cs => some (decide (bs < cs))
  | .moment k i, .moment l j => if k = l then some (decide (i < j)) else none
  | _, _ => none

/-- Not greater; what cannot be compared is not greater either. -/
def le (a b : Rank) : Bool := (b.lt? a).all not

end Rank

namespace Scalar

/-- What a scalar is compared by; null is not compared. -/
def rank? : Scalar → Option Rank
  | .null => none
  | .bool b => some (.number (.fraction (if b then 1 else 0) 1))
  | .int n => some (.number (.fraction n 1))
  | .float x => some (.number (.ofFloat x))
  | .str s => some (.text s)
  | .bytes bs => some (.bytes (bs.map UInt8.toNat))
  | .moment t => some (.moment t.kind t.instant)

/-- Whether ranks can all be compared with a rank. -/
def areComparable (r : Rank) (rs : List Rank) : Bool := rs.all fun s => (r.lt? s).isSome

/-- Sorts things by a scalar of each; equal ones keep their order. More than one thing must be
comparable. -/
def sortOn {α : Type} (key : α → Scalar) (xs : List α) : Outcome (List α) :=
  if xs.length ≤ 1 then .ok xs
  else do
    let ranked ← Outcome.expect (xs.mapM fun x => (rank? (key x)).map fun r => (r, x))
    match ranked with
    | [] => return []
    | (r, _) :: _ =>
      if areComparable r (ranked.map (·.1)) then
        return (ranked.mergeSort fun p q => p.1.le q.1).map (·.2)
      else .unexpected

/-- Sorts scalars; equal ones keep their order. -/
def sort (xs : List Scalar) : Outcome (List Scalar) := sortOn id xs

end Scalar

/-- The members that a value lists, sorted; they must be scalars. -/
def Value.sortedMembers (v : Value) : Outcome (List Scalar) := do
  let members ← Outcome.expect v.members?
  Scalar.sort (← Outcome.expect (members.mapM Value.scalar?))

end ApiScribe
