import ApiScribe.Fault
import ApiScribe.Json.Reader
import ApiScribe.Json.Writer
import ApiScribe.Retry
import ApiScribe.Web

/-! Fetching listed enum values: a listing is a record whose data holds an entry with a key and a
label for each value. Whatever goes wrong in an attempt is put into words, and the words of the last
attempt are the ones reported. -/
namespace ApiScribe
namespace EnumListing

/-- The first of some fields that holds anything. -/
def firstField (m : List (Scalar × Value)) : List String → Option Value
  | [] => none
  | k :: ks =>
    let v := Value.field m k
    if v.isNull then firstField m ks else some v

/-- The text of a key or label: a text is itself, all else is its JSON text. -/
def entryText : Value → String
  | .str s => s
  | v => Json.oneLineRaw.write v

/-- The key and label of an entry; without a key there is nothing to list. -/
def entryOf : Value → Option (String × String)
  | .map m => do
    let key ← firstField m ["Key", "key"]
    some (entryText key, ((firstField m ["Value", "value"]).map entryText).getD "")
  | _ => none

/-- The keys and labels that a listing holds. -/
def valuesOf (listing : Value) : Except String (List (String × String)) :=
  match listing.field? "Data" with
  | some (.list items) => .ok (items.filterMap entryOf)
  | _ => .error "response missing Data array"

/-- A text without a byte order mark in front. -/
def withoutMark (s : String) : String :=
  match s.toList with
  | '\ufeff' :: rest => String.ofList rest
  | _ => s

/-- The keys and labels that a text holds. A text of too many levels ends the run. -/
def readText (text : String) : Except String (Outcome (List (String × String))) :=
  match Json.read (withoutMark text) with
  | .ok v => (valuesOf v).map .ok
  | .error e => if e.complaint = .tooDeep then .ok .unexpected else .error e.text

/-- The keys and labels that a fetched listing holds. A way that leads to no address ends the run. -/
def readListing : Except Web.Obstacle Web.Page → Except String (Outcome (List (String × String)))
  | .error (.failure kind words) => .error (if words = "" then kind else words)
  | .error (.unusable words) => .error words
  | .error .astray => .ok .unexpected
  | .ok page =>
    if Status.isSuccess page.reply.status then readText page.reply.body
    else .error (Status.complaint page.reply.status page.url)

/-- The kind of content that a listing has. -/
def listingContent : String := "application/json"

/-- One attempt to fetch a listing. -/
def attempt (url : String) (w : Web) :
    Web × Except String (Outcome (List (String × String))) :=
  let (w, fetched) := w.get listingContent url
  (w, readListing fetched)

/-- Attempts to fetch a listing. What no rule covers ends the attempts. -/
def fetch (retries : Int) (url : String) (w : Web) :
    Retry.Course Web String (Outcome (List (String × String))) :=
  Retry.run (attempt url) (min (Retry.attempts retries - 1) Retry.mostDelays) w

/-- What a run of attempts came to. No rule covers a delay that is too long to tell. -/
def outcome (retries : Int) (url : String)
    (c : Retry.Course Web String (Outcome (List (String × String)))) :
    Outcome (List (String × String)) :=
  match c.outcome with
  | .ok values => values
  | .error words =>
    if Retry.mostDelays < Retry.attempts retries - 1 then .unexpected
    else .fail (.network url words)

/-- What is noted of the failures of a run that were followed by another attempt. -/
def retryNotes (url : String) (allowed : Nat) (failures : List String) : List String :=
  failures.mapIdx fun i words =>
    "Fetching " ++ url ++ " failed: " ++ words ++ ", retrying in "
      ++ Retry.secondsText (Retry.delay i) ++ "s (attempt " ++ toString (i + 1) ++ "/"
      ++ toString allowed ++ ")"

end EnumListing
end ApiScribe
