import ApiScribe.Command.Run

/-! The program. It takes in the files that a run may see, runs the command line on them, and puts
back what changed. There is no connection to the web from here, so every address refuses. -/
namespace ApiScribe
namespace Program

/-- The steps of an absolute path. -/
def stepsOf (path : String) : List String := (Location.ofPath path).steps

/-- Takes in a file, or a directory with all below. -/
partial def takeIn (path : String) (t : FileTree) : IO FileTree := do
  let real ← IO.FS.realPath path
  if ← real.isDir then
    let mut t := t.put (stepsOf real.toString) .directory
    for e in ← real.readDir do
      t ← takeIn e.path.toString t
    return t
  else
    let content ← IO.FS.readBinFile real
    return t.put (stepsOf real.toString) (.file content.toList)

/-- Takes in what words name, where they name anything. -/
def takeInNamed (words : List String) (t : FileTree) : IO FileTree :=
  words.foldlM (fun t w => do
    try takeIn w t catch _ => return t) t

/-- The variables that a run may ask for. -/
def variableNames : List String :=
  ["CLIENTGEN_INPUT", "CLIENTGEN_OUTPUT", "CLIENTGEN_BASE_URL", "XDG_DATA_HOME", "HOME"]

/-- The environment of a run. -/
def environment : IO (Entries String String) :=
  variableNames.filterMapM fun n => return (← IO.getEnv n).map fun v => (n, v)

/-- The rest of a stream. -/
partial def readRest (s : IO.FS.Stream) (front : ByteArray) : IO ByteArray := do
  let more ← s.read 65536
  if more.isEmpty then return front else readRest s (front ++ more)

/-- What a run may see. -/
def workspace (words : List String) : IO Workspace := do
  let here ← IO.FS.realPath "."
  let current := stepsOf here.toString
  let (tree, _) := ({} : FileTree).makePath [] ⟨"/", current⟩
  let tree ← takeInNamed words (← takeIn "." tree)
  let input ←
    if words.contains "-" then do
      let bytes ← readRest (← IO.getStdin) ByteArray.empty
      pure bytes.toList
    else pure []
  return { tree, current, input, environment := ← environment
           time := toString (← IO.monoMsNow) }

/-- Puts back the files that a run wrote. -/
def putBack (before after : FileTree) : IO Unit :=
  after.nodes.forM fun (place, n) => do
    let l : Location := ⟨"/", place⟩
    if before.node? place != some n then
      match n with
      | .directory => IO.FS.createDirAll l.text
      | .file content =>
        IO.FS.createDirAll l.parent.text
        IO.FS.writeBinFile l.text ⟨content.toArray⟩

/-- Does what a command line asks for; the exit code. -/
def run (words : List String) : IO UInt32 := do
  let w ← workspace words
  let (r, after) := (Invocation.ofWords words).run w
  putBack w.tree after.tree
  IO.print r.out
  IO.eprint r.err
  return UInt32.ofNat r.code.toNat

end Program
end ApiScribe

/-- The entry point. -/
def main (words : List String) : IO UInt32 := ApiScribe.Program.run words
