import ApiScribe.Json.Reader
import ApiScribe.Yaml.Reader
import ApiScribe.Fault

/-! Documents from text, as JSON or YAML. Unless the text is known to be YAML, JSON is tried
first; unless it is known to be JSON, YAML is tried after that. -/
namespace ApiScribe
namespace Document

/-- What is known of the format of a text. -/
inductive Hint
  | json
  | yaml
  | either
  deriving Repr, DecidableEq

/-- The hint that a word gives. -/
def Hint.ofName (name : String) : Hint :=
  if name = "json" then .json else if name = "yaml" then .yaml else .either

/-- The hint that a content type gives. -/
def Hint.ofContentType (type : String) : Hint :=
  let has (word : String) := (Text.cut? word.toList type.toList).isSome
  if has "json" then .json else if has "yaml" || has "yml" then .yaml else .either

/-- The hint that the ending of a file name gives. -/
def Hint.ofSuffix (suffix : String) : Hint :=
  let s := Text.lower suffix
  if s = ".json" then .json else if s = ".yaml" || s = ".yml" then .yaml else .either

/-- A document must be a map. -/
def asMap (v : Value) : Outcome Value :=
  match v with
  | .map m => .ok (.map m)
  | .null => .fail (.notAMapping "empty document")
  | v => .fail (.notAMapping v.kindName)

/-- Decodes YAML after JSON failed for the given reason, if it was tried. -/
def decodeYaml (jsonError : Option String) (text : String) : Outcome Value :=
  match Yaml.read text with
  | .ok v => asMap v
  | .error .malformed => .fail (.undecodable jsonError)
  | .error .impossible => .unexpected

/-- Reads JSON text; what is not well formed is blamed as told. -/
def readJson (blame : String → Fault) (text : String) : Outcome Value :=
  match Json.read text with
  | .ok v => .ok v
  | .error e => if e.isFormal then .fail (blame e.text) else .unexpected

/-- Decodes a text. -/
def decode (hint : Hint) (text : String) : Outcome Value :=
  match hint with
  | .yaml => decodeYaml none text
  | .json => do asMap (← readJson .invalidJson text)
  | .either => match Json.read text with
    | .ok v => asMap v
    | .error e => if e.isFormal then decodeYaml (some e.text) text else .unexpected

end Document
end ApiScribe
