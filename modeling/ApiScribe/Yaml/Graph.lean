import ApiScribe.Yaml.Cursor
import ApiScribe.Yaml.Tag

/-! Graphs of nodes: what a text describes, each node with its tag. Nodes are known by number, and
the parts of a collection are given by their numbers, so one node can be a part of several others
and even of itself. -/
namespace ApiScribe
namespace Yaml

/-- An entry of a mapping: the numbers of its key and its value. -/
abbrev Link := Nat × Nat

/-- Nodes. -/
inductive Node
  | scalar (tag : Tag) (text : String)
  | sequence (tag : Tag) (items : List Nat)
  | mapping (tag : Tag) (entries : List Link)
  deriving Repr

namespace Node

/-- The empty scalar that stands where a node is left out. -/
def empty : Node := .scalar .null ""

/-- The tag of a node. -/
def tag : Node → Tag
  | .scalar t _ => t
  | .sequence t _ => t
  | .mapping t _ => t

/-- A node with another tag. -/
def withTag (t : Tag) : Node → Node
  | .scalar _ text => .scalar t text
  | .sequence _ items => .sequence t items
  | .mapping _ entries => .mapping t entries

/-- A mapping with other entries; other nodes stay as they are. -/
def withEntries (entries : List Link) : Node → Node
  | .mapping t _ => .mapping t entries
  | n => n

/-- The entries of a mapping; other nodes have none. -/
def entries : Node → List Link
  | .mapping _ entries => entries
  | _ => []

end Node

/-- The nodes of a text. `order` lists their numbers so that the parts of a node come before it,
unless the node is a part of itself; `loops` says whether any node is. -/
structure Graph where
  nodes : Array Node
  order : List Nat
  loops : Bool
  deriving Repr

namespace Graph

/-- The node with a number. -/
def node (g : Graph) (i : Nat) : Node := (g.nodes[i]?).getD .empty

/-- Changes the node with a number. -/
def change (g : Graph) (i : Nat) (f : Node → Node) : Graph :=
  { g with nodes := g.nodes.modify i f }

/-- The tag of a node. -/
def tag (g : Graph) (i : Nat) : Tag := (g.node i).tag

/-- The entries of a node. -/
def entries (g : Graph) (i : Nat) : List Link := (g.node i).entries

/-- The number of nodes and entries. -/
def size (g : Graph) : Nat :=
  g.nodes.foldl (fun n node => n + node.entries.length + 1) 0

end Graph
end Yaml
end ApiScribe

/-! Merge keys. The value under a merge key is a mapping, or a list of mappings from the last to the
first; their entries come in front of the entries of the mapping that has the key. A value sign that
stands as a key is a text. -/
namespace ApiScribe
namespace Yaml
namespace Graph

/-- Whether some key of a mapping stands for something else. -/
def hasSigns (g : Graph) (entries : List Link) : Bool :=
  entries.any fun e => g.tag e.1 = .merge || g.tag e.1 = .value

/-- Without the entry at an index. -/
def dropEntry (g : Graph) (i index : Nat) : Graph :=
  g.change i (.withEntries ((g.entries i).eraseIdx index))

mutual

/-- Merges the keys of a mapping from an index on; `merged` holds the entries gathered so far. -/
def mergeFrom (fuel i index : Nat) (merged : List Link) (g : Graph) :
    Except Trouble (List Link × Graph) :=
  match fuel with
  | 0 => .error .malformed
  | fuel + 1 =>
    match (g.entries i)[index]? with
    | none => .ok (merged, g)
    | some (key, value) =>
      match g.tag key with
      | .merge => do
        let g := g.dropEntry i index
        match g.node value with
        | .mapping .. =>
          let g ← mergeWithin fuel value g
          mergeFrom fuel i index (merged ++ g.entries value) g
        | .sequence _ items =>
          let (entries, g) ← mergeItems fuel items [] g
          mergeFrom fuel i index (merged ++ entries) g
        | .scalar .. => .error .malformed
      | .value => mergeFrom fuel i (index + 1) merged (g.change key (.withTag .str))
      | _ => mergeFrom fuel i (index + 1) merged g

/-- Merges the keys of mappings in a list; `gathered` holds the entries so far. -/
def mergeItems (fuel : Nat) (items : List Nat) (gathered : List Link) (g : Graph) :
    Except Trouble (List Link × Graph) :=
  match fuel, items with
  | 0, _ => .error .malformed
  | _, [] => .ok (gathered, g)
  | fuel + 1, i :: items =>
    match g.node i with
    | .mapping .. => do
      let g ← mergeWithin fuel i g
      mergeItems fuel items (g.entries i ++ gathered) g
    | _ => .error .malformed

/-- Merges the keys of a mapping. -/
def mergeWithin (fuel i : Nat) (g : Graph) : Except Trouble Graph :=
  match fuel with
  | 0 => .error .malformed
  | fuel + 1 => do
    if !g.hasSigns (g.entries i) then return g
    let (merged, g) ← mergeFrom fuel i 0 [] g
    return g.change i (.withEntries (merged ++ g.entries i))

end

/-- The graph with the keys of a mapping merged. -/
def merge (g : Graph) (i : Nat) : Except Trouble Graph :=
  if g.hasSigns (g.entries i) then mergeWithin (4 * g.size + 16) i g else .ok g

end Graph
end Yaml
end ApiScribe
