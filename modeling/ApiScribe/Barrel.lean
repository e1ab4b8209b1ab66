import ApiScribe.Entries
import ApiScribe.Location
import ApiScribe.Plan
import ApiScribe.Text.Character

/-! Barrels: index files that export again whatever is below their directory. Each source climbs
from its directory to the nearest root above it: its own directory exports the module, and every
directory on the way exports the step below it. -/
namespace ApiScribe
namespace Barrel

/-- The name of index files. -/
def indexName : String := "index.ts"

/-- Whether a file name is that of a module that barrels export: neither an index nor a
declaration. -/
def isModuleName (name : String) : Bool :=
  name.endsWith ".ts" && !name.endsWith ".d.ts" && name != indexName

/-- Whether a planned file is a module that barrels export. -/
def isSource (path : String) : Bool := isModuleName (Location.ofPath path).name

/-- The name of a module: that of its file without the three characters of its ending. -/
def moduleName (file : Location) : String :=
  String.ofList (file.name.toList.take (file.name.length - 3))

/-- Whether a root bounds the climb of a source. -/
def isRootOf (source root : Location) : Bool := root == Location.here || source.isBelow root

/-- The deepest root that bounds the climb of a source. -/
def nearestRoot (roots : List Location) (source : Location) : Option Location :=
  (roots.filter (isRootOf source)).foldl (fun best r =>
    match best with
    | none => some r
    | some b => if b.steps.length < r.steps.length then some r else some b) none

/-- What directories export for their subdirectories: each directory up to the root is exported
by the one above it. Directories are given as their steps, last first. -/
def climb (root : List String) : List String → List (List String × String)
  | [] => []
  | name :: above => if name :: above = root then [] else (above, name) :: climb root above

/-- The exports that a source calls for: directories and what they export. -/
def exportsOf (roots : List Location) (source : Location) : List (Location × String) :=
  match nearestRoot roots source with
  | none => []
  | some root =>
    (source.parent, moduleName source)
      :: (climb root.steps.reverse source.parent.steps.reverse).map fun p =>
        (⟨source.lead, p.1.reverse⟩, p.2)

/-- The directories with the names that they export. -/
def exportsByDirectory (roots sources : List Location) : Entries Location (List String) :=
  (sources.flatMap (exportsOf roots)).foldl (fun m p => m.push p.1 p.2) []

/-- The line that exports a name again. -/
def exportLine (name : String) : String := "export * from \"./" ++ name ++ "\";\n"

/-- The text of a barrel: one line for each name, in sorted order. -/
def text (names : List String) : String :=
  String.join ((names.eraseDups.mergeSort fun a b => decide (a ≤ b)).map exportLine)

/-- The barrels that sources call for, by directory. -/
def build (roots sources : List Location) : Entries Location String :=
  (exportsByDirectory roots sources).mapValues text

/-- The path of the barrel of a directory. -/
def path (directory : Location) : String := (directory.below indexName).text

/-- The barrels as planned files, by path. -/
def files (barrels : Entries Location String) : List PlannedFile :=
  (barrels.map fun p => (⟨path p.1, p.2⟩ : PlannedFile)).mergeSort
    fun a b => decide (a.path ≤ b.path)

/-- Whether a line is one that barrels are made of. -/
def isExportLine (line : List Char) : Bool :=
  match Text.after? "export * from \"./".toList line with
  | some rest =>
    let name := rest.takeWhile (· ≠ '"')
    !name.isEmpty && rest.dropWhile (· ≠ '"') == ['"', ';']
  | none => false

/-- Whether the text of an index file holds anything but exports. -/
def isHandWritten (content : String) : Bool :=
  !((Text.lines content.toList).map Text.trim |>.filter (!·.isEmpty)).all isExportLine

end Barrel

/-- What is done to planned files before they are formatted. -/
inductive Layout
  /-- Nothing. -/
  | plain
  /-- Barrels are added below some directories. -/
  | barrels (roots : List String)
  deriving Repr, DecidableEq

namespace Layout

/-- Without slashes at either end. -/
def stripSlashes (s : String) : String :=
  String.ofList (((s.toList.dropWhile (· = '/')).reverse.dropWhile (· = '/')).reverse)

/-- The directories that get barrels; empty names do not count. -/
def rootsOf (roots : List String) : List Location :=
  (roots.map stripSlashes |>.filter (· ≠ "")).map Location.ofPath

/-- The files with barrels for those that are modules; a barrel takes the place of a planned file
with its path. -/
def withBarrels (roots : List String) (files : List PlannedFile) : List PlannedFile :=
  let sources := (files.filter fun f => Barrel.isSource f.path).map fun f => Location.ofPath f.path
  let barrels := Barrel.files (Barrel.build (rootsOf roots) sources)
  files.filter (fun f => !barrels.any (·.path == f.path)) ++ barrels

/-- The files after layout. -/
def apply : Layout → List PlannedFile → List PlannedFile
  | plain, files => files
  | barrels roots, files => withBarrels roots files

end Layout
end ApiScribe
