import ApiScribe.Decimal.Binary
import ApiScribe.Entries
import ApiScribe.Moment
import ApiScribe.Text.Utf8

/-! Values of decoded documents. Most documents are made of scalars, lists and ordered maps; some
formats add pairs and sets, scalars that are bytes or moments, and keys that are no strings. Integers
and floating-point numbers are kept apart, though equal ones count as the same key. -/
namespace ApiScribe

/-- Scalars. -/
inductive Scalar
  | null
  | bool (b : Bool)
  | int (n : Int)
  | float (x : Float)
  | str (s : String)
  | bytes (bs : Bytes)
  | moment (t : Moment)
  deriving Repr, Inhabited

/-- Decoded documents and their parts. A document that contains itself is unfolded, and `endless`
stands where the unfolding stops. -/
inductive Value
  | scalar (s : Scalar)
  | list (items : List Value)
  | pair (first second : Value)
  | set (members : List Scalar)
  | map (entries : List (Scalar × Value))
  | endless
  deriving Repr, Inhabited

namespace Scalar

/-- The number that a scalar counts as in comparisons; truth values count as one and zero. -/
def int? : Scalar → Option Int
  | .bool b => some (if b then 1 else 0)
  | .int n => some n
  | .float x => Decimal.int? x
  | _ => none

/-- Whether two scalars are equal; numbers of different kinds are equal if their values are. -/
def same : Scalar → Scalar → Bool
  | .null, .null => true
  | .str s, .str t => s == t
  | .bytes bs, .bytes bs' => bs == bs'
  | .moment t, .moment t' => t.same t'
  | .float x, .float y => x == y
  | a, b =>
    match a.int?, b.int? with
    | some m, some n => m == n
    | _, _ => false

instance : BEq Scalar := ⟨same⟩

/-- Whether a scalar counts as set: not null, not false, not zero, not empty. -/
def isSet : Scalar → Bool
  | .null => false
  | .bool b => b
  | .int n => n != 0
  | .float x => !(x == 0.0)
  | .str s => s != ""
  | .bytes bs => !bs.isEmpty
  | .moment _ => true

/-- A key is a string for most purposes. -/
def str? : Scalar → Option String
  | .str s => some s
  | _ => none

/-- How messages call the kind of a scalar. -/
def kindName : Scalar → String
  | .null => "NoneType"
  | .bool _ => "bool"
  | .int _ => "int"
  | .float _ => "float"
  | .str _ => "str"
  | .bytes _ => "bytes"
  | .moment t => if t.kind = .date then "date" else "datetime"

end Scalar

namespace Value

@[match_pattern] abbrev null : Value := .scalar .null
@[match_pattern] abbrev bool (b : Bool) : Value := .scalar (.bool b)
@[match_pattern] abbrev int (n : Int) : Value := .scalar (.int n)
@[match_pattern] abbrev float (x : Float) : Value := .scalar (.float x)
@[match_pattern] abbrev str (s : String) : Value := .scalar (.str s)

/-- An optional string, null when absent. -/
def ofString? : Option String → Value
  | some s => .str s
  | none => .null

/-- A list of strings. -/
def ofStrings (xs : List String) : Value := .list (xs.map .str)

/-- A map with string keys. -/
def record (fields : List (String × Value)) : Value := .map (fields.map fun p => (.str p.1, p.2))

/-- The string that a value is. -/
def str? : Value → Option String
  | .str s => some s
  | _ => none

/-- The entries of a map. -/
def entries? : Value → Option (List (Scalar × Value))
  | .map m => some m
  | _ => none

/-- The value under a string key of a map; none for other values. -/
def field? (v : Value) (key : String) : Option Value :=
  match v with
  | .map m => Entries.get? m (.str key)
  | _ => none

/-- The value under a string key, null when absent. -/
def field (m : List (Scalar × Value)) (key : String) : Value :=
  (Entries.get? m (.str key)).getD .null

/-- Whether a map has a string key. -/
def hasField (m : List (Scalar × Value)) (key : String) : Bool := Entries.has m (.str key)

/-- Whether a value is null. -/
def isNull : Value → Bool
  | .null => true
  | _ => false

/-- Whether a value counts as set: not null, false, zero or empty. -/
def isSet : Value → Bool
  | .scalar s => s.isSet
  | .list items => !items.isEmpty
  | .pair .. => true
  | .set members => !members.isEmpty
  | .map m => !m.isEmpty
  | .endless => true

/-- Whether a value is the given string. -/
def isString (v : Value) (s : String) : Bool :=
  match v with
  | .str t => t == s
  | _ => false

/-- How messages call the kind of a value. -/
def kindName : Value → String
  | .scalar s => s.kindName
  | .list _ => "list"
  | .pair .. => "tuple"
  | .set _ => "set"
  | .map _ => "dict"
  | .endless => "object"

/-- The scalar that a value is. -/
def scalar? : Value → Option Scalar
  | .scalar s => some s
  | _ => none

/-- The members that a value lists: the items of a list, a pair or a set, the keys of a map, the
characters of a string, and bytes as numbers. Other values list nothing. -/
def members? : Value → Option (List Value)
  | .list items => some items
  | .pair a b => some [a, b]
  | .set members => some (members.map .scalar)
  | .map m => some (m.map fun p => .scalar p.1)
  | .str s => some (s.toList.map fun c => .str (String.singleton c))
  | .scalar (.bytes bs) => some (bs.map fun b => .int b.toNat)
  | _ => none

/-- Whether a value never changes, so that it can be a member of a set: a scalar, or a pair of such
values. -/
def isFixed : Value → Bool
  | .scalar _ => true
  | .pair a b => a.isFixed && b.isFixed
  | _ => false

theorem sizeOf_lt_of_get? {m : List (Scalar × Value)} {key : Scalar} {v : Value}
    (h : Entries.get? m key = some v) : sizeOf v < sizeOf (Value.map m) := by
  simp only [Entries.get?, Option.map_eq_some_iff] at h
  obtain ⟨p, hp, rfl⟩ := h
  have h1 := List.sizeOf_lt_of_mem (List.mem_of_find?_eq_some hp)
  obtain ⟨k, v⟩ := p
  simp only [Prod.mk.sizeOf_spec, map.sizeOf_spec] at h1 ⊢
  omega

mutual

/-- Whether two values are equal; the order of a map's entries does not count. -/
def same : Value → Value → Bool
  | .scalar a, .scalar b => a.same b
  | .list xs, .list ys => sameItems xs ys
  | .pair a b, .pair c d => same a c && same b d
  | .set s, .set t => s.all t.contains && t.all s.contains
  | .map m, .map n => m.length == n.length && sameEntries m n
  | _, _ => false

/-- Item by item. -/
def sameItems : List Value → List Value → Bool
  | [], [] => true
  | x :: xs, y :: ys => same x y && sameItems xs ys
  | _, _ => false

/-- Every entry of the first map is in the second. -/
def sameEntries : List (Scalar × Value) → List (Scalar × Value) → Bool
  | [], _ => true
  | (k, v) :: m, n =>
    (match Entries.get? n k with
      | some w => same v w
      | none => false) && sameEntries m n

end

mutual

/-- Whether a value goes on where its unfolding stops. -/
def isEndless : Value → Bool
  | .scalar _ | .set _ => false
  | .list xs => areEndless xs
  | .pair a b => isEndless a || isEndless b
  | .map m => areEntriesEndless m
  | .endless => true

/-- Whether some item is endless. -/
def areEndless : List Value → Bool
  | [] => false
  | x :: xs => isEndless x || areEndless xs

/-- Whether some entry is endless. -/
def areEntriesEndless : List (Scalar × Value) → Bool
  | [] => false
  | (_, v) :: m => isEndless v || areEntriesEndless m

end

mutual

/-- The number of levels of a value. -/
def depth : Value → Nat
  | .list xs => depthItems xs + 1
  | .pair a b => max a.depth b.depth + 1
  | .map m => depthEntries m + 1
  | _ => 1

/-- The number of levels of the deepest item. -/
def depthItems : List Value → Nat
  | [] => 0
  | x :: xs => max (depth x) (depthItems xs)

/-- The number of levels of the deepest entry. -/
def depthEntries : List (Scalar × Value) → Nat
  | [] => 0
  | (_, v) :: m => max (depth v) (depthEntries m)

end

end Value
end ApiScribe
