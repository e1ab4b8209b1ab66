import ApiScribe.Config
import ApiScribe.Enum.Fetch
import ApiScribe.Enum.Listing
import ApiScribe.Enum.Patch
import ApiScribe.Enum.Source
import ApiScribe.Workspace.Source

/-! What a workspace knows of enums: patch files, the enums in source files, and listings on the web
that become patches. -/
namespace ApiScribe
namespace Job

/-- The patches in a file: a patch document, or only a list of patches. -/
def readPatches (path : String) : Job (List EnumPatch) := do
  let v ← readJson (Location.ofPath path)
  match v with
  | .list _ => match Check.list EnumPatch.check v with
    | .ok patches => return patches
    | .bad issues => fail (.invalidPatches path "list[EnumPatch]" issues)
  | .map _ => match PatchDocument.check v with
    | .ok d => return d.patches
    | .bad issues => fail (.invalidPatches path "EnumPatchDocument" issues)
  | v => fail (.patchesOfKind path v.kindName)

/-- Writes a patch document to a file. -/
def writePatches (path : String) (d : PatchDocument) : Job Unit :=
  replace (Location.ofPath path) (Text.utf8 (Json.stored.write d.toValue ++ "\n"))

/-- Whether a name in a directory is that of a source file that may declare an enum. -/
def isEnumFile (name : String) : Bool := name.endsWith ".ts" && !name.endsWith ".d.ts"

/-- Adds the enum of a source file, unless there is none; a file that cannot be read is skipped. -/
def addSource (found : SourceEnums) (file : Location) : Job SourceEnums := do
  match ← read file with
  | .error r =>
    note .debug ("Skipping " ++ file.text ++ ": " ++ r.text file)
    return found
  | .ok bs => match textOf bs with
    | none =>
      note .debug ("Skipping " ++ file.text ++ ": " ++ Text.flawText bs)
      return found
    | some s => match SourceEnum.read s with
      | none => return found
      | some e => return if e.members.isEmpty then found else found.put e.name e.members

/-- The enums that the source files in a directory declare. -/
def sourceEnums (directory : Location) : Job SourceEnums := do
  if !(← isDirectory directory) then return []
  let w ← get
  match w.tree.locate w.current directory with
  | .error _ => return []
  | .ok place =>
    let names := ((w.tree.names place).filter isEnumFile).mergeSort fun a b => decide (a ≤ b)
    names.foldlM (fun found name => addSource found (directory.below name)) []

/-- The values that a listing on the web holds. -/
def listedValues (retries : Int) (url : String) : Job (List (String × String)) := do
  let w ← get
  let c := EnumListing.fetch retries url w.web
  set { w with web := c.state, delays := w.delays ++ c.delays }
  for n in EnumListing.retryNotes url (Retry.attempts retries) c.failures do
    note .debug n
  ofOutcome (EnumListing.outcome retries url c)

/-- A text without slashes at its end. -/
def withoutEndSlashes (s : String) : String :=
  String.ofList (s.toList.reverse.dropWhile (· = '/')).reverse

/-- The patches made of listings below a base address, one after the other. -/
def listedPatches (options : EnumFetch) (base : String) :
    List EnumListing → Job (List EnumPatch)
  | [] => return []
  | l :: ls => do
    let url := base ++ l.path
    note .debug ("Fetching enum " ++ l.enumName ++ " from " ++ url)
    let values ← listedValues options.maxRetries url
    let p := EnumListing.patch l.enumName options.namingStrategy values
    return p :: (← listedPatches options base ls)

/-- Makes patches of the listings of a document and writes them to a file. Nothing is written if a
listing cannot be fetched. -/
def exportPatches (document : Value) (options : EnumFetch) : Job PatchDocument := do
  match options.baseUrl with
  | none | some "" => fail .noBaseUrl
  | some base =>
    let listings ← ofOutcome (EnumListing.ofDocument document)
    let d : PatchDocument := { patches := ← listedPatches options (withoutEndSlashes base) listings }
    writePatches options.output d
    return d

end Job
end ApiScribe
