import ApiScribe.Yaml.Graph
import ApiScribe.Yaml.Lexer

/-! Graphs from tokens. An alias stands for the node with its anchor, which may still be under way
and so become a part of itself. A text holds one graph or none. -/
namespace ApiScribe
namespace Yaml

/-- The most levels of nodes. -/
def mostLevels : Nat := 486

/-- The tokens still to read, what tag handles stand for, the numbers of anchored nodes, the nodes so
far without those under way, the numbers of complete nodes, the last one first, whether an alias stood
for a node under way, and the number of levels under way. -/
structure Reading where
  tokens : List Token
  handles : List (String × String) := []
  anchors : List (String × Nat) := []
  nodes : Array (Option Node) := #[]
  complete : List Nat := []
  loops : Bool := false
  levels : Nat := 0

/-- Reading tokens. -/
abbrev Read (α : Type) := StateT Reading (Except Trouble) α

namespace Reading

/-- The next token. -/
def peek : Read (Option Token) := return (← get).tokens.head?

/-- Leaves the next token behind. -/
def drop : Read Unit := modify fun r => { r with tokens := r.tokens.tail }

/-- The text is not well formed. -/
def malformed {α : Type} : Read α := throw .malformed

/-- Whether the next token is one of the given ones. -/
def isNext (ts : List Token) : Read Bool := return (← peek).any (ts.contains ·)

/-- The next token must be the given one. -/
def skip (t : Token) : Read Unit := do
  if (← peek) = some t then drop else malformed

/-- The number of a new node, which is under way. -/
def openNode : Read Nat := modifyGet fun r => (r.nodes.size, { r with nodes := r.nodes.push none })

/-- Completes the node with a number. -/
def closeNode (i : Nat) (node : Node) : Read Nat := do
  modify fun r =>
    { r with nodes := r.nodes.setIfInBounds i (some node), complete := i :: r.complete }
  return i

/-- A new node that is complete. -/
def newNode (node : Node) : Read Nat := do closeNode (← openNode) node

/-- The node that stands where one is left out. -/
def empty : Read Nat := newNode .empty

/-- Gives a node its anchor; two nodes must not share one. -/
def anchorNode (anchor : Option String) (i : Nat) : Read Unit := do
  match anchor with
  | some a =>
    if ((← get).anchors.lookup a).isSome then malformed
    else modify fun r => { r with anchors := (a, i) :: r.anchors }
  | none => pure ()

/-- One level further in. -/
def enter : Read Unit := do
  if mostLevels ≤ (← get).levels then throw .impossible
  modify fun r => { r with levels := r.levels + 1 }

/-- One level further out. -/
def leave : Read Unit := modify fun r => { r with levels := r.levels - 1 }

/-- The full name of a tag. -/
def tagName (handle : Option String) (suffix : String) : Read String := do
  match handle with
  | none => return suffix
  | some h => match (← get).handles.lookup h with
    | some lead => return lead ++ suffix
    | none => malformed

/-- The anchor and the tag in front of a node, in either order. -/
def properties : Read (Option String × Option String) := do
  match ← peek with
  | some (.anchor a) =>
    drop
    match ← peek with
    | some (.tag h s) =>
      drop
      return (some a, some (← tagName h s))
    | _ => return (some a, none)
  | some (.tag h s) =>
    drop
    match ← peek with
    | some (.anchor a) =>
      drop
      return (some a, some (← tagName h s))
    | _ => return (none, some (← tagName h s))
  | _ => return (none, none)

/-- The tag of a scalar: as stated, or by its text if it is plain. -/
def scalarTag (stated : Option String) (text : String) (plain : Bool) : Tag :=
  match stated with
  | none => if plain then .ofPlain text else .str
  | some "!" => .ofPlain text
  | some name => .ofName name

/-- The tag of a collection: as stated, or the common one. -/
def collectionTag (stated : Option String) (common : Tag) : Tag :=
  match stated with
  | none => common
  | some "!" => common
  | some name => .ofName name

/-- The node of an alias. -/
def aliased (name : String) : Read Nat := do
  match (← get).anchors.lookup name with
  | some i =>
    if ((← get).nodes[i]?).join.isNone then modify fun r => { r with loops := true }
    return i
  | none => malformed

/-- The scalar of a node that is left out, if it may be. -/
def leftOut (optional : Bool) (stated : Option String) : Read Node :=
  if optional then return .scalar (scalarTag stated "" true) "" else malformed

mutual

/-- Reads a node. `block` says whether block collections may stand here, and `indentless` whether
entries of a list may stand at the column of the block around them. -/
def node (fuel : Nat) (block indentless : Bool) : Read Nat :=
  match fuel with
  | 0 => malformed
  | fuel + 1 => do
    match ← peek with
    | some (.aliasOf name) =>
      drop
      aliased name
    | _ =>
      let (anchor, stated) ← properties
      let i ← openNode
      anchorNode anchor i
      enter
      let result ← content fuel block indentless (anchor.isSome || stated.isSome) stated
      leave
      closeNode i result

/-- Reads a node after its anchor and tag; with one of them it may be left out. -/
def content (fuel : Nat) (block indentless optional : Bool) (stated : Option String) :
    Read Node :=
  match fuel with
  | 0 => malformed
  | fuel + 1 => do
    match ← peek with
    | some (.scalar text plain) =>
      drop
      return .scalar (scalarTag stated text plain) text
    | some .flowSequence =>
      drop
      return .sequence (collectionTag stated .seq) (← flowItems fuel true)
    | some .flowMapping =>
      drop
      return .mapping (collectionTag stated .map) (← flowEntries fuel true)
    | some .entry =>
      if indentless then
        return .sequence (collectionTag stated .seq) (← indentlessItems fuel)
      else leftOut optional stated
    | some .blockSequence =>
      if block then
        drop
        return .sequence (collectionTag stated .seq) (← blockItems fuel)
      else leftOut optional stated
    | some .blockMapping =>
      if block then
        drop
        return .mapping (collectionTag stated .map) (← blockEntries fuel)
      else leftOut optional stated
    | _ => leftOut optional stated

/-- Reads a node unless one of the given tokens shows that it is left out. -/
def nodeUnless (fuel : Nat) (stops : List Token) (block indentless : Bool) : Read Nat :=
  match fuel with
  | 0 => malformed
  | fuel + 1 => do
    if ← isNext stops then empty else node fuel block indentless

/-- The items of a block list. -/
def blockItems (fuel : Nat) : Read (List Nat) :=
  match fuel with
  | 0 => malformed
  | fuel + 1 => do
    if ← isNext [.entry] then
      drop
      let item ← nodeUnless fuel [.entry, .blockEnd] true false
      return item :: (← blockItems fuel)
    else
      skip .blockEnd
      return []

/-- The items of a list at the column of the block around it. -/
def indentlessItems (fuel : Nat) : Read (List Nat) :=
  match fuel with
  | 0 => malformed
  | fuel + 1 => do
    if ← isNext [.entry] then
      drop
      let item ← nodeUnless fuel [.entry, .key, .value, .blockEnd] true false
      return item :: (← indentlessItems fuel)
    else return []

/-- The value of an entry, if there is one. -/
def valueUnless (fuel : Nat) (stops : List Token) (block : Bool) : Read Nat :=
  match fuel with
  | 0 => malformed
  | fuel + 1 => do
    if ← isNext [.value] then
      drop
      nodeUnless fuel stops block block
    else empty

/-- The entries of a block mapping. -/
def blockEntries (fuel : Nat) : Read (List Link) :=
  match fuel with
  | 0 => malformed
  | fuel + 1 => do
    if ← isNext [.key] then
      drop
      let key ← nodeUnless fuel [.key, .value, .blockEnd] true true
      let value ← valueUnless fuel [.key, .value, .blockEnd] true
      return (key, value) :: (← blockEntries fuel)
    else
      skip .blockEnd
      return []

/-- The items of a list in brackets; an item may be a single entry of a mapping. -/
def flowItems (fuel : Nat) (first : Bool) : Read (List Nat) :=
  match fuel with
  | 0 => malformed
  | fuel + 1 => do
    if ← isNext [.flowSequenceEnd] then
      drop
      return []
    if !first then skip .flowEntry
    if ← isNext [.key] then
      drop
      let key ← nodeUnless fuel [.value, .flowEntry, .flowSequenceEnd] false false
      let value ← valueUnless fuel [.flowEntry, .flowSequenceEnd] false
      let item ← newNode (.mapping .map [(key, value)])
      return item :: (← flowItems fuel false)
    else if ← isNext [.flowSequenceEnd] then
      drop
      return []
    else
      let item ← node fuel false false
      return item :: (← flowItems fuel false)

/-- The entries of a mapping in braces; an entry without a colon has an empty value. -/
def flowEntries (fuel : Nat) (first : Bool) : Read (List Link) :=
  match fuel with
  | 0 => malformed
  | fuel + 1 => do
    if ← isNext [.flowMappingEnd] then
      drop
      return []
    if !first then skip .flowEntry
    if ← isNext [.key] then
      drop
      let key ← nodeUnless fuel [.value, .flowEntry, .flowMappingEnd] false false
      let value ← valueUnless fuel [.flowEntry, .flowMappingEnd] false
      return (key, value) :: (← flowEntries fuel false)
    else if ← isNext [.flowMappingEnd] then
      drop
      return []
    else
      let key ← node fuel false false
      let value ← empty
      return (key, value) :: (← flowEntries fuel false)

end

/-- Reads the directives in front of a document: one version at most, of the first major number,
and no handle twice. -/
def directives : Nat → Bool → List (String × String) → Read (List (String × String))
  | 0, _, _ => malformed
  | fuel + 1, versioned, handles => do
    match ← peek with
    | some (.versionDirective major) =>
      if versioned || major ≠ 1 then malformed
      else
        drop
        directives fuel true handles
    | some (.tagDirective handle lead) =>
      if (handles.lookup handle).isSome then malformed
      else
        drop
        directives fuel versioned ((handle, lead) :: handles)
    | some .otherDirective =>
      drop
      directives fuel versioned handles
    | _ => return handles

/-- What handles stand for unless a directive says otherwise. -/
def commonHandles : List (String × String) := [("!", "!"), ("!!", Tag.root)]

/-- Leaves the signs for the end of a document behind. -/
def dropEnds : Nat → Read Unit
  | 0 => pure ()
  | fuel + 1 => do
    if ← isNext [.documentEnd] then
      drop
      dropEnds fuel
    else pure ()

/-- The document with a start sign, if there is one. -/
def explicitDocument (fuel : Nat) : Read (Option Nat) := do
  dropEnds fuel
  match ← peek with
  | none => return none
  | some _ =>
    let handles ← directives fuel false []
    skip .documentStart
    modify fun r => { r with handles := handles ++ commonHandles }
    match ← peek with
    | none => return some (← empty)
    | some (.versionDirective _) | some (.tagDirective ..) | some .otherDirective
    | some .documentStart | some .documentEnd => return some (← empty)
    | some _ => return some (← node fuel true false)

/-- The first document, and then nothing. -/
def stream (fuel : Nat) : Read (Option Nat) := do
  let first ← match ← peek with
    | none | some (.versionDirective _) | some (.tagDirective ..) | some .otherDirective
    | some .documentStart => explicitDocument fuel
    | some _ =>
      modify fun r => { r with handles := commonHandles }
      pure (some (← node fuel true false))
  dropEnds fuel
  match ← peek with
  | none => return first
  | some _ => malformed

/-- The graph of the nodes that were read. -/
def graph (r : Reading) : Graph :=
  { nodes := r.nodes.map (·.getD .empty), order := r.complete.reverse, loops := r.loops }

end Reading

/-- The graph that tokens describe with the number of its root, if they describe one. -/
def Graph.ofTokens (ts : List Token) : Except Trouble (Option (Nat × Graph)) := do
  let (root, r) ← (Reading.stream (4 * ts.length + 4)).run { tokens := ts }
  return root.map fun i => (i, r.graph)

end Yaml
end ApiScribe
