import ApiScribe.Web.Address
import ApiScribe.Web.Reply
import ApiScribe.Web.Status

/-! The web as far as it answers: for each address the answers still to come, of which the last one
repeats, and a record of what was asked. Replies that send the reader on are followed. -/
namespace ApiScribe

/-- What comes back for a request: a reply, or a failed connection with its kind and words. -/
inductive WebAnswer
  | reply (r : Reply)
  | failure (kind words : String)
  deriving Repr, DecidableEq, Inhabited

/-- A request: the address asked for and the kind of content wanted. -/
structure WebRequest where
  url : String
  accept : String
  deriving Repr, DecidableEq, Inhabited

/-- The answers still to come and the requests made so far. -/
structure Web where
  answers : Entries String (List WebAnswer) := []
  requests : List WebRequest := []
  deriving Repr, DecidableEq, Inhabited

/-- The text of a request in records. -/
def WebRequest.text (r : WebRequest) : String :=
  "GET " ++ r.url ++ " accept=" ++ r.accept

namespace Web

/-- The answer of an address that nobody serves. -/
def refused : WebAnswer := .failure "ConnectError" "connection refused"

/-- Asks once. -/
def ask (accept url : String) (w : Web) : Web × WebAnswer :=
  let w := { w with requests := w.requests ++ [⟨url, accept⟩] }
  match w.answers.get? url with
  | none | some [] => (w, refused)
  | some [a] => (w, a)
  | some (a :: more) => ({ w with answers := w.answers.put url more }, a)

/-- What keeps a request from a page. -/
inductive Obstacle
  /-- A failed exchange, with its kind and words. -/
  | failure (kind words : String)
  /-- A text on the way that cannot be sent or read. -/
  | unusable (words : String)
  /-- A way that leads to no address. -/
  | astray
  deriving Repr, DecidableEq, Inhabited

/-- A page: a reply and the address that it came from. -/
structure Page where
  url : String
  reply : Reply
  deriving Repr, DecidableEq, Inhabited

/-- The host of an address as it reads, with the names in it that plain characters tell. -/
def shownHost (a : Address) : Except Obstacle (List Char) :=
  let host := a.host.toList
  if Text.startsWith Domain.plainSign host then
    (Domain.full host).mapError fun f => .unusable f.text
  else .ok host

/-- Passes if a request can name the place of an address. -/
def checkPlace (a : Address) : Except Obstacle Unit := do
  let host ← shownHost a
  match Text.Ascii.complaint? a.place with
  | some words => if !host.isEmpty then throw (.unusable words)
  | none => return ()

/-- An address that is known to be one. -/
def known (a : Except Address.Flaw Address) : Except Obstacle Address := a.mapError fun _ => .astray

/-- The address where a request starts. -/
def start (url : String) : Except Obstacle Address := do
  let a ← known (Address.ofText url)
  let a ← if a.isAbsolute then pure a else known a.rooted
  checkPlace a
  return a

/-- An address without its fragment, and the fragment. -/
def splitFragment (url : List Char) : List Char × List Char :=
  if url.contains '#' then
    let fragment := Text.afterLast '#' url
    (url.take (url.length - fragment.length - 1), fragment)
  else (url, [])

/-- Whether an address says in front of a colon how to ask for it. -/
def hasKind (url : List Char) : Bool :=
  let kind := url.takeWhile fun c => c ≠ '/' && c ≠ ':'
  !kind.isEmpty && (url.drop kind.length).head? = some ':'

/-- Passes if a reply from an address can be read: its headers are plain, and the address says how
it was asked for. -/
def checkReply (url : String) (r : Reply) : Except Obstacle Unit := do
  if let some words := r.complaint? then throw (.unusable words)
  let (bare, fragment) := splitFragment url.toList
  if !hasKind bare then
    let shown := if fragment.isEmpty then String.ofList bare else url
    throw (.unusable ("unknown url type: " ++ shownText shown))

/-- The address to which a page sends the reader. What the target does not say is taken from the
address of the page, and so is the fragment if the target has none. -/
def onward (page : Address) (target : String) : Except Obstacle Address := do
  let goal ← (Address.ofText target).mapError fun f =>
    .failure "RemoteProtocolError" ("Invalid URL in location header: " ++ f.text ++ ".")
  let goal ←
    if goal.scheme = "" then pure goal
    else do
      let _ ← shownHost goal
      if goal.host ≠ "" then pure goal
      else
        let host ← shownHost page
        let host := if host.contains ':' then '[' :: host ++ [']'] else host
        known (Address.ofChanged goal.parts (some host))
  let goal ←
    if goal.isAbsolute then pure goal
    else known (Address.ofText (String.ofList (Link.resolve page.text.toList goal.text.toList)))
  let fragment := Escaped.decode ((page.fragment.map String.toList).getD [])
  let goal ←
    if fragment.isEmpty || goal.fragment.getD "" ≠ "" then pure goal
    else known (Address.ofChanged { goal.parts with fragment := some fragment } none)
  checkPlace goal
  return goal

/-- Where an answer leads: to a page, or on to another address. -/
inductive Turn
  | page (p : Page)
  | onward (goal : Address)
  deriving Repr, DecidableEq, Inhabited

/-- Where an answer of an address leads. -/
def turn (a : Address) : WebAnswer → Except Obstacle Turn
  | .failure kind words => .error (.failure kind words)
  | .reply r => do
    checkReply a.text r
    match Status.isRedirect r.status, r.header? "location" with
    | true, some target => return .onward (← onward a target)
    | _, _ => return .page ⟨a.text, r⟩

/-- The most replies that are followed. -/
def mostRedirects : Nat := 20

/-- What is said if there are more replies to follow. -/
def tooManyRedirects : Obstacle :=
  .failure "TooManyRedirects" "Exceeded maximum allowed redirects."

/-- Asks, and follows replies that send the reader on, `more` of them at most. -/
def getWithin (accept : String) : Nat → Address → Web → Web × Except Obstacle Page
  | 0, a, w =>
    let (w, answer) := w.ask accept a.text
    match turn a answer with
    | .error o => (w, .error o)
    | .ok (.page p) => (w, .ok p)
    | .ok (.onward _) => (w, .error tooManyRedirects)
  | more + 1, a, w =>
    let (w, answer) := w.ask accept a.text
    match turn a answer with
    | .error o => (w, .error o)
    | .ok (.page p) => (w, .ok p)
    | .ok (.onward goal) => getWithin accept more goal w

/-- Asks for an address, following replies that send the reader on. -/
def get (accept url : String) (w : Web) : Web × Except Obstacle Page :=
  match start url with
  | .error o => (w, .error o)
  | .ok a => w |> getWithin accept mostRedirects a

end Web
end ApiScribe
