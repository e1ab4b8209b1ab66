import ApiScribe.Entries
import ApiScribe.Location
import ApiScribe.Text.Utf8
import ApiScribe.Value.Shown

/-! File trees: what stands where, seen from the root. A location is followed step by step, and
every step has to start in a directory; what a tree refuses it refuses with one of a few causes. -/
namespace ApiScribe

/-- What stands at a place of a tree. -/
inductive FileNode
  | file (content : Bytes)
  | directory
  deriving Repr, DecidableEq, Inhabited

/-- The files and directories of a tree, each under its steps from the root. -/
structure FileTree where
  nodes : Entries (List String) FileNode := []
  deriving Repr, DecidableEq, Inhabited

/-- Why a tree refuses. -/
inductive Refusal
  | missing
  | existing
  | notDirectory
  | isDirectory
  | nameTooLong
  deriving Repr, DecidableEq

namespace Refusal

/-- The number of a cause. -/
def number : Refusal → Nat
  | missing => 2
  | existing => 17
  | notDirectory => 20
  | isDirectory => 21
  | nameTooLong => 36

/-- The words for a cause. -/
def words : Refusal → String
  | missing => "No such file or directory"
  | existing => "File exists"
  | notDirectory => "Not a directory"
  | isDirectory => "Is a directory"
  | nameTooLong => "File name too long"

/-- The wording of a refusal at a location. -/
def text (r : Refusal) (l : Location) : String :=
  "[Errno " ++ toString r.number ++ "] " ++ r.words ++ ": " ++ shownText l.text

end Refusal

namespace FileTree

/-- What stands at a place; the root is always a directory. -/
def node? (t : FileTree) (place : List String) : Option FileNode :=
  match place with
  | [] => some .directory
  | _ => t.nodes.get? place

/-- Puts something at a place. -/
def put (t : FileTree) (place : List String) (n : FileNode) : FileTree := ⟨t.nodes.put place n⟩

/-- Takes away what stands at a place. -/
def drop (t : FileTree) (place : List String) : FileTree :=
  ⟨t.nodes.filter fun p => p.1 ≠ place⟩

/-- Takes away what stands at a place and all below. -/
def dropAll (t : FileTree) (place : List String) : FileTree :=
  ⟨t.nodes.filter fun p => !place.isPrefixOf p.1⟩

/-- The most bytes of a name. -/
def nameLimit : Nat := 255

/-- One step from a place: down to a name, or up. -/
def enter (t : FileTree) (place : List String) (step : String) : Except Refusal (List String) :=
  match t.node? place with
  | none => .error .missing
  | some (.file _) => .error .notDirectory
  | some .directory =>
    if step = ".." then .ok place.dropLast
    else if step.utf8ByteSize > nameLimit then .error .nameTooLong
    else .ok (place ++ [step])

/-- Step by step from a place. -/
def follow (t : FileTree) (place : List String) : List String → Except Refusal (List String)
  | [] => .ok place
  | s :: ss =>
    match t.enter place s with
    | .ok place => t.follow place ss
    | .error r => .error r

/-- The most bytes of a path. -/
def pathLimit : Nat := 4095

/-- The place that a location leads to from the current directory. -/
def locate (t : FileTree) (current : List String) (l : Location) : Except Refusal (List String) :=
  if l.text.utf8ByteSize > pathLimit then .error .nameTooLong
  else t.follow (if l.lead = "" then current else []) l.steps

/-- What stands at a location. -/
def at? (t : FileTree) (current : List String) (l : Location) : Option FileNode :=
  match t.locate current l with
  | .ok place => t.node? place
  | .error _ => none

/-- Whether a directory stands at a location. -/
def isDirectory (t : FileTree) (current : List String) (l : Location) : Bool :=
  match t.at? current l with
  | some .directory => true
  | _ => false

/-- The content of the file at a location. -/
def read (t : FileTree) (current : List String) (l : Location) : Except Refusal Bytes :=
  match t.locate current l with
  | .error r => .error r
  | .ok place => match t.node? place with
    | none => .error .missing
    | some .directory => .error .isDirectory
    | some (.file content) => .ok content

/-- The names in the directory at a place. -/
def names (t : FileTree) (place : List String) : List String :=
  t.nodes.filterMap fun p =>
    match p.1.getLast? with
    | some name => if p.1.dropLast = place then some name else none
    | none => none

/-- The files below a place, by their steps from there. -/
def filesBelow (t : FileTree) (place : List String) : Entries (List String) Bytes :=
  t.nodes.filterMap fun p =>
    match p.2 with
    | .file content =>
      if place.isPrefixOf p.1 && place.length < p.1.length then
        some (p.1.drop place.length, content)
      else none
    | .directory => none

/-- Makes a directory. -/
def makeDirectory (t : FileTree) (current : List String) (l : Location) :
    Except Refusal FileTree :=
  match t.locate current l with
  | .error r => .error r
  | .ok place => match t.node? place with
    | some _ => .error .existing
    | none => .ok (t.put place .directory)

/-- A refusal and the location that was refused. -/
structure Refused where
  refusal : Refusal
  location : Location
  deriving Repr, DecidableEq

/-- The wording of a refusal. -/
def Refused.text (r : Refused) : String := r.refusal.text r.location

/-- Makes a directory, which may be there already. -/
def ensureDirectory (t : FileTree) (current : List String) (l : Location) :
    FileTree × Option Refused :=
  match t.makeDirectory current l with
  | .ok t => (t, none)
  | .error r => (t, if t.isDirectory current l then none else some ⟨r, l⟩)

/-- Makes a directory and those above it that are missing, `levels` of them at most. -/
def makeDirectories (current : List String) :
    Nat → Location → FileTree → FileTree × Option Refused
  | levels, l, t =>
    match t.makeDirectory current l, levels with
    | .error .missing, levels + 1 =>
      match makeDirectories current levels l.parent t with
      | (t, some r) => (t, some r)
      | (t, none) => t.ensureDirectory current l
    | _, _ => t.ensureDirectory current l

/-- Makes a directory and all above it that are missing. -/
def makePath (t : FileTree) (current : List String) (l : Location) : FileTree × Option Refused :=
  makeDirectories current l.steps.length l t

/-- Takes away the file at a location. -/
def remove (t : FileTree) (current : List String) (l : Location) : Except Refusal FileTree :=
  match t.locate current l with
  | .error r => .error r
  | .ok place => match t.node? place with
    | none => .error .missing
    | some .directory => .error .isDirectory
    | some (.file _) => .ok (t.drop place)

end FileTree
end ApiScribe
