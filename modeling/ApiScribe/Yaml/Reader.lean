import ApiScribe.Text.Base64
import ApiScribe.Text.LowerCase
import ApiScribe.Text.Number
import ApiScribe.Value
import ApiScribe.Yaml.Graph
import ApiScribe.Yaml.Reading
import ApiScribe.Yaml.Tag

/-! Numbers of scalars. An integer may be binary, octal, hexadecimal or decimal, and both integers
and other numbers may be written in sixtieths. -/
namespace ApiScribe
namespace Yaml

open Text.Number (integer? fraction?)

/-- A sign in front; minus one or one. -/
def sign (cs : List Char) : Int × List Char :=
  let (negative, body) := Text.Number.signed cs
  (if negative then -1 else 1, body)

/-- The integer that a text writes; underscores do not count. -/
def intOf? (text : String) : Option Int := do
  let (s, body) := sign (text.toList.filter (· != '_'))
  let n ← match body with
    | [] => none
    | ['0'] => some 0
    | '0' :: 'b' :: ds => integer? 2 ds
    | '0' :: 'x' :: ds => integer? 16 ds
    | '0' :: ds => integer? 8 ('0' :: ds)
    | ds =>
      if ds.contains ':' then
        (((Text.splitAt ':' ds).mapM (integer? 10)).map fun (ns : List Int) =>
          ns.foldl (fun n d => 60 * n + d) 0)
      else integer? 10 ds
  some (s * n)

/-- The most parts of a number in sixtieths: the weight of the first must be a number itself. -/
def mostParts : Nat := 174

/-- Sums numbers from the smallest sixtieth up. -/
def sixtieths? (xs : List Float) : Option Float :=
  if mostParts < xs.length then none
  else
    some (xs.reverse.foldl (fun (sum, base) x => (sum + x * Decimal.ofInt base, 60 * base))
      ((0.0 : Float), (1 : Int))).1

/-- The number that a text writes; underscores do not count. -/
def floatOf? (text : String) : Option Float := do
  let cs := (Text.lower text).toList.filter (· != '_')
  if cs.isEmpty then none
  else
    let (s, body) := sign cs
    let signed (x : Float) : Float := if s < 0 then -x else x
    let word := String.ofList body
    if word = ".inf" then some (signed (1.0 / 0.0))
    else if word = ".nan" then some (0.0 / 0.0)
    else if body.contains ':' then
      let xs ← (Text.splitAt ':' body).mapM fraction?
      (sixtieths? xs).map signed
    else (fraction? body).map signed

/-- The truth value of a word. -/
def truthOf? (text : String) : Option Bool :=
  let word := Text.lower text
  if word ∈ ["yes", "true", "on"] then some true
  else if word ∈ ["no", "false", "off"] then some false
  else none

end Yaml
end ApiScribe

/-! Values of graphs. A survey finds the scalars round by round: the parts of one round's collections
make up the next round, and of several troubles the first one found counts. Collections are then put
together from the values of their parts. A node that is a part of itself is unfolded. -/
namespace ApiScribe
namespace Yaml

/-- The value, or trouble because the text names one that cannot be. -/
def possible {α : Type} : Option α → Except Trouble α
  | some a => .ok a
  | none => .error .impossible

/-- The moment that a text writes, if there was or will be one; a line feed may follow it. -/
def existingMoment? (cs : List Char) : Option Moment := do
  let (t, _) ← moment? (if cs.getLast? = some '\n' then cs.dropLast else cs)
  if t.exists? then some t else none

/-- The scalar of a text with a tag. -/
def scalarOf (tag : Tag) (text : String) : Except Trouble Scalar :=
  match tag with
  | .null => .ok .null
  | .bool => .bool <$> possible (truthOf? text)
  | .int => .int <$> possible (intOf? text)
  | .float => .float <$> possible (floatOf? text)
  | .str => .ok (.str text)
  | .timestamp => .moment <$> possible (existingMoment? text.toList)
  | .binary =>
    if text.toList.all fun c => c.toNat < 128 then
      match Text.Base64.decode? text.toList with
      | some bs => .ok (.bytes bs)
      | none => .error .malformed
    else .error .malformed
  | _ => .error .malformed

namespace Graph

/-- The text of a node that stands where a text is due: its own, or the one under the value sign of a
mapping. -/
def signText (g : Graph) : Nat → Nat → Except Trouble String
  | 0, _ => .error .impossible
  | fuel + 1, i =>
    match g.node i with
    | .scalar _ text => .ok text
    | .sequence .. => .error .malformed
    | .mapping _ entries =>
      match entries.find? fun e => g.tag e.1 = .value with
      | some (_, value) => g.signText fuel value
      | none => .error .malformed

/-- The scalar that a mapping stands for. -/
def signScalar (g : Graph) (tag : Tag) (i : Nat) : Except Trouble Scalar := do
  if tag = .merge || tag = .value || tag = .other then throw .malformed
  let text ← g.signText (g.nodes.size + 1) i
  if tag = .timestamp then throw .impossible
  scalarOf tag text

end Graph

/-- A survey: the graph with merged keys, the nodes found so far, the scalars among them, and the
collections of the next round, the last one first. -/
structure Survey where
  graph : Graph
  found : Array Bool
  scalars : Array (Option Scalar)
  waiting : List Nat := []

namespace Survey

/-- Steps of a survey. -/
abbrev Step := StateT Survey (Except Trouble) Unit

/-- A survey that has found nothing. -/
def ofGraph (g : Graph) : Survey :=
  { graph := g, found := g.nodes.map fun _ => false, scalars := g.nodes.map fun _ => none }

/-- The scalar of a node, if it is one that was found. -/
def scalar? (s : Survey) (i : Nat) : Option Scalar := (s.scalars[i]?).join

/-- Notes the scalar of a node. -/
def noteScalar (i : Nat) (x : Scalar) : Step :=
  modify fun s => { s with scalars := s.scalars.setIfInBounds i (some x) }

/-- Leaves a node for the next round. -/
def postpone (i : Nat) : Step := modify fun s => { s with waiting := i :: s.waiting }

/-- Finds a node; the scalar of one is known at once. -/
def find (i : Nat) : Step := do
  let isNew ← modifyGet fun s =>
    (s.found[i]? == some false, { s with found := s.found.setIfInBounds i true })
  if isNew then
    let g := (← get).graph
    let n := g.node i
    if n.tag.isCollection then postpone i
    else match n with
      | .scalar tag text => noteScalar i (← scalarOf tag text)
      | .sequence .. => throw .malformed
      | .mapping tag _ => noteScalar i (← g.signScalar tag i)

/-- Finds the key and the value of a mapping with one entry. -/
def findPair (i : Nat) : Step := do
  match (← get).graph.entries i with
  | [(key, value)] =>
    find key
    find value
  | _ => throw .malformed

/-- Finds the key and the value of an entry; keys are scalars. -/
def findEntry (e : Link) : Step := do
  find e.1
  if ((← get).scalar? e.1).isNone then throw .malformed
  find e.2

/-- Merges the keys of a mapping. -/
def mergeKeys (i : Nat) : Step := do
  let g ← (← get).graph.merge i
  modify fun s => { s with graph := g }

/-- Finds the parts of a collection. -/
def visit (i : Nat) : Step := do
  match (← get).graph.node i with
  | .sequence .seq items => items.forM find
  | .sequence .orderedMap items | .sequence .pairs items => items.forM findPair
  | .mapping .map _ | .mapping .set _ =>
    mergeKeys i
    ((← get).graph.entries i).forM findEntry
  | _ => throw .malformed

/-- Visits the collections of the next rounds. -/
def rounds : Nat → Step
  | 0 => pure ()
  | fuel + 1 => do
    let round ← modifyGet fun s => (s.waiting.reverse, { s with waiting := [] })
    if round.isEmpty then pure ()
    else
      round.forM visit
      rounds fuel

/-- The survey of a graph from its root. -/
def ofRoot (root : Nat) (g : Graph) : Except Trouble Survey := do
  let ((), s) ← (find root *> rounds (g.nodes.size + 1)).run (ofGraph g)
  return s

/-- The keys of a mapping. -/
def keys (s : Survey) (entries : List Link) : List Scalar :=
  entries.map fun e => (s.scalar? e.1).getD .null

/-- The members of a set; whole numbers come in increasing order. -/
def setMembers (keys : List Scalar) : List Scalar :=
  let members := (Entries.ofList (keys.map fun k => (k, ()))).keys
  let isInt : Scalar → Bool
    | .int _ => true
    | _ => false
  if members.all isInt then members.mergeSort fun a b => a.int?.getD 0 ≤ b.int?.getD 0 else members

/-- The value of a node by the values of its parts. -/
def assemble (s : Survey) (values : Array Value) (i : Nat) : Value :=
  let part (j : Nat) : Value := (values[j]?).getD .endless
  let pairOf (j : Nat) : Value :=
    match s.graph.entries j with
    | (key, value) :: _ => .pair (part key) (part value)
    | [] => .null
  match s.scalar? i with
  | some x => .scalar x
  | none =>
    match s.graph.node i with
    | .scalar .. => .null
    | .sequence .seq items => .list (items.map part)
    | .sequence _ items => .list (items.map pairOf)
    | .mapping .set entries => .set (setMembers (s.keys entries))
    | .mapping _ entries =>
      .map (Entries.ofList ((s.keys entries).zip (entries.map fun e => part e.2)))

/-- The values of all nodes, from values that may not be complete. -/
def assembleAll (s : Survey) (values : Array Value) : Array Value :=
  s.graph.order.foldl (fun vs i => vs.setIfInBounds i (s.assemble vs i)) values

/-- The times that a node is unfolded within itself. -/
def unfoldings : Nat := 64

/-- The values of all nodes. -/
def values (s : Survey) : Array Value :=
  let none := s.graph.nodes.map fun _ => Value.endless
  if s.graph.loops then Nat.repeat s.assembleAll unfoldings none else s.assembleAll none

end Survey

/-- Reads a text; an empty one is null. -/
def read (text : String) : Except Trouble Value := do
  match ← Graph.ofTokens (← tokens text.toList).toList with
  | some (root, g) =>
    let s ← Survey.ofRoot root g
    return (s.values[root]?).getD .null
  | none => return .null

end Yaml
end ApiScribe
