import ApiScribe.Document
import ApiScribe.Workspace

/-! Where documents come from: a file, the input stream or the web. The name of the file or the
content type of the reply hints at the format. -/
namespace ApiScribe

/-- Where a document comes from. -/
inductive Source
  | input
  | web (url : String)
  | file (path : String)
  deriving Repr, DecidableEq

/-- The source that a user names. -/
def Source.ofName (name : String) : Source :=
  if name = "-" then .input
  else if name.startsWith "http://" || name.startsWith "https://" then .web name
  else .file name

namespace Job

/-- The document on the input stream. -/
def documentFromInput : Job Value := do
  let text ← readInput
  if Text.blank text then fail .emptyStdin
  ofOutcome (Document.decode (.ofName "stdin") text)

/-- The document in a file. -/
def documentFromFile (path : String) : Job Value := do
  let l := Location.ofPath path
  if !(← isFile l) then fail (.documentNotFound path)
  let text ← readText l
  if Text.blank text then fail (.documentEmpty path)
  ofOutcome (Document.decode (.ofSuffix l.suffix) text)

/-- The document at a web address. -/
def documentFromWeb (url : String) : Job Value := do
  match ← fetch "*/*" url with
  | .error (.failure _ words) => fail (.fetchFailed url words)
  | .error _ => ofOutcome .unexpected
  | .ok page =>
    let r := page.reply
    if !Status.isSuccess r.status then fail (.httpStatus r.status url)
    let type := (r.header? "content-type").getD ""
    ofOutcome (Document.decode (.ofContentType type) (← ofOutcome (Outcome.expect r.text?)))

/-- The document at a source. -/
def document : Source → Job Value
  | .input => documentFromInput
  | .web url => documentFromWeb url
  | .file path => documentFromFile path

/-- The value in a JSON file. -/
def readJson (l : Location) : Job Value := do
  if !(← isFile l) then fail (.fileNotFound l.text)
  ofOutcome (Document.readJson (.invalidJsonFile l.text) (← readText l))

end Job
end ApiScribe
