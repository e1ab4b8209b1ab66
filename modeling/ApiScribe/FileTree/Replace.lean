import ApiScribe.FileTree

/-! Replacing a file: the new content is written to a temporary file beside the old one, the old one
is taken away, and the temporary file is renamed. When a step is refused the temporary file is taken
away again. -/
namespace ApiScribe
namespace FileTree

/-- The steps of a replacement. -/
inductive ReplaceStep
  | makeParents
  | createTemporary
  | fillTemporary
  | removeOld
  | rename
  deriving Repr, DecidableEq

/-- All steps in order. -/
def ReplaceStep.all : List ReplaceStep :=
  [makeParents, createTemporary, fillTemporary, removeOld, rename]

/-- What is to be replaced with what, seen from the current directory. -/
structure Replacement where
  current : List String
  target : Location
  content : Bytes
  deriving Repr, DecidableEq

/-- A replacement under way: the tree, and the place of the temporary file if there is one. -/
structure ReplaceState where
  tree : FileTree
  temporary : Option (List String) := none
  deriving Repr, DecidableEq

/-- A name for a temporary file that goes with a name. -/
def temporaryName (name : String) (n : Nat) : String := "." ++ name ++ "." ++ toString n ++ ".tmp"

/-- A name beside a file that nothing in a directory has. -/
def freeName (t : FileTree) (directory : List String) (name : String) : Nat → Nat → String
  | 0, n => temporaryName name n
  | tries + 1, n =>
    if (t.node? (directory ++ [temporaryName name n])).isSome then
      t.freeName directory name tries (n + 1)
    else temporaryName name n

/-- The place for the temporary file in a directory. -/
def temporaryPlace (t : FileTree) (directory : List String) (name : String) : List String :=
  directory ++ [t.freeName directory name t.nodes.length 0]

/-- The bytes of the name of a temporary file beyond those of the name it goes with: two points, an
ending, and eight characters that differ from run to run, for which a number stands here. -/
def temporaryExtra : Nat := 14

/-- Whether the name of a temporary file fits beside a name in a directory. -/
def hasRoom (directory : List String) (name : String) : Bool :=
  name.utf8ByteSize + temporaryExtra ≤ nameLimit &&
    (Location.text ⟨"/", directory ++ [name]⟩).utf8ByteSize + temporaryExtra ≤ pathLimit

namespace Replacement

/-- Creates the temporary file. -/
def create (r : Replacement) (s : ReplaceState) : ReplaceState × Option Refused :=
  match s.tree.locate r.current r.target.parent with
  | .error e => (s, some ⟨e, r.target.parent⟩)
  | .ok directory =>
    let place := s.tree.temporaryPlace directory r.target.name
    if hasRoom directory r.target.name then
      (⟨s.tree.put place (.file []), some place⟩, none)
    else (s, some ⟨.nameTooLong, ⟨"/", place⟩⟩)

/-- Takes away the old file, if there is one. -/
def removeOld (r : Replacement) (s : ReplaceState) : ReplaceState × Option Refused :=
  match s.tree.at? r.current r.target with
  | none => (s, none)
  | some _ => match s.tree.remove r.current r.target with
    | .ok t => ({ s with tree := t }, none)
    | .error e => (s, some ⟨e, r.target⟩)

/-- Gives the temporary file the name of the target. -/
def rename (r : Replacement) (s : ReplaceState) : ReplaceState × Option Refused :=
  match s.temporary, s.tree.locate r.current r.target with
  | some place, .ok target =>
    let content := match s.tree.node? place with
      | some (.file content) => content
      | _ => []
    (⟨(s.tree.drop place).put target (.file content), none⟩, none)
  | _, .error e => (s, some ⟨e, r.target⟩)
  | none, .ok _ => (s, some ⟨.missing, r.target⟩)

/-- One step. -/
def step (r : Replacement) (s : ReplaceState) : ReplaceStep → ReplaceState × Option Refused
  | .makeParents =>
    let (t, refused) := s.tree.makePath r.current r.target.parent
    ({ s with tree := t }, refused)
  | .createTemporary => r.create s
  | .fillTemporary =>
    match s.temporary with
    | some place => ({ s with tree := s.tree.put place (.file r.content) }, none)
    | none => (s, none)
  | .removeOld => r.removeOld s
  | .rename => r.rename s

/-- Steps one after the other, up to the first that is refused. -/
def steps (r : Replacement) : List ReplaceStep → ReplaceState → ReplaceState × Option Refused
  | [], s => (s, none)
  | x :: xs, s =>
    match r.step s x with
    | (s, none) => r.steps xs s
    | (s, some e) => (s, some e)

/-- The tree without the temporary file. -/
def cleaned (s : ReplaceState) : FileTree :=
  match s.temporary with
  | some place => s.tree.drop place
  | none => s.tree

/-- The whole replacement: the tree afterwards, and what was refused. -/
def run (r : Replacement) (t : FileTree) : FileTree × Option Refused :=
  let (s, refused) := r.steps ReplaceStep.all ⟨t, none⟩
  (cleaned s, refused)

end Replacement

/-- Replaces the file at a location. -/
def replace (t : FileTree) (current : List String) (target : Location) (content : Bytes) :
    FileTree × Option Refused :=
  Replacement.run ⟨current, target, content⟩ t

end FileTree
end ApiScribe
