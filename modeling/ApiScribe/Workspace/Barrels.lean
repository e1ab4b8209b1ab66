import ApiScribe.Barrel
import ApiScribe.Workspace

/-! Barrels for a directory that is there already. An index file that holds anything but exports was
written by hand; it is kept, with a warning. -/
namespace ApiScribe
namespace Job

/-- Whether a list of steps comes before another or is the same, step by step. -/
def stepsLe (a b : List String) : Bool := !decide (b < a)

/-- The modules below a directory, seen from there. -/
def modulesBelow (root : Location) : Job (List Location) := do
  if !(← isDirectory root) then return []
  let w ← get
  match w.tree.locate w.current root with
  | .error _ => return []
  | .ok place =>
    let files := (w.tree.filesBelow place).keys.map fun steps => (⟨"", steps⟩ : Location)
    return files.filter fun l => Barrel.isModuleName l.name

/-- Whether an index file is there and was written by hand. -/
def isHandWritten (index : Location) : Job Bool := do
  if !(← isFile index) then return false
  match ← read index with
  | .error r => fail (.write index.text ("cannot read existing barrel: " ++ r.text index))
  | .ok bs => match textOf bs with
    | some s => return Barrel.isHandWritten s
    | none => fail (.write index.text ("cannot read existing barrel: " ++ Text.flawText bs))

/-- The barrels of a directory that may be written, given all barrels in order. -/
def keepHandWritten (root : Location) : List (Location × String) → Job (List PlannedFile)
  | [] => return []
  | (directory, content) :: more => do
    let index := (root.below directory.text).below Barrel.indexName
    if ← isHandWritten index then
      note .warning ("Keeping hand-written " ++ index.text)
      keepHandWritten root more
    else
      let path := (directory.below Barrel.indexName).text
      return ⟨path, content⟩ :: (← keepHandWritten root more)

/-- The barrels for the modules below a directory. -/
def planBarrels (root : Location) : Job (List PlannedFile) := do
  let modules ← modulesBelow root
  let barrels := Barrel.build [Location.here] modules
  note .debug ("Scanned " ++ toString modules.length ++ " sources under " ++ root.text ++ ", "
    ++ toString barrels.length ++ " barrels")
  keepHandWritten root (barrels.mergeSort fun a b => stepsLe a.1.steps b.1.steps)

end Job
end ApiScribe
