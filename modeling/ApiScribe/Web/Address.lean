import ApiScribe.Web.Host

/-! Web addresses in their parts. The written form of an address is normal: scheme and host in lower
case, no socket number where the scheme implies it, no points as steps, and characters that a part
cannot hold replaced. -/
namespace ApiScribe

/-- An address in its parts. -/
structure Address where
  scheme : String := ""
  user : String := ""
  host : String := ""
  socket : Option Int := none
  path : String := ""
  query : Option String := none
  fragment : Option String := none
  deriving Repr, DecidableEq, Inhabited

namespace Address

/-- What is wrong with a text that is no address. -/
inductive Flaw
  | tooLong
  | control (c : Char) (index : Nat)
  | host (flaw : Host.Flaw) (text : List Char)
  | socket (text : List Char)
  | pathAfterHost
  | pathOfSlashes
  | pathOfColon
  deriving Repr, DecidableEq

/-- The wording of a flaw. -/
def Flaw.text : Flaw → String
  | tooLong => "URL too long"
  | control c index =>
    "Invalid non-printable ASCII character in URL, " ++ shownText (String.singleton c)
      ++ " at position " ++ toString index ++ "."
  | host flaw text => "Invalid " ++ flaw.kind ++ ": " ++ shownText (String.ofList text)
  | socket text => "Invalid port: " ++ shownText (String.ofList text)
  | pathAfterHost => "For absolute URLs, path must be empty or begin with '/'"
  | pathOfSlashes => "Relative URLs cannot have a path starting with '//'"
  | pathOfColon => "Relative URLs cannot have a path starting with ':'"

/-- The parts of a text that writes an address, as they stand. -/
structure Parts where
  scheme : List Char := []
  authority : List Char := []
  path : List Char := []
  query : Option (List Char) := none
  fragment : Option (List Char) := none
  deriving Repr, DecidableEq, Inhabited

/-- Splits off what stands in front of the first of some characters. -/
def upTo (stops cs : List Char) : List Char × List Char :=
  (cs.takeWhile (!stops.contains ·), cs.dropWhile (!stops.contains ·))

/-- Whether a character can stand in a scheme after the first letter. -/
def isSchemeChar (c : Char) : Bool := c.isAlphanum || c == '+' || c == '.' || c == '-'

/-- The scheme in front of a text, and the rest. -/
def splitScheme (cs : List Char) : List Char × List Char :=
  match cs.takeWhile isSchemeChar, cs.dropWhile isSchemeChar with
  | name, ':' :: rest => if name.head?.all Char.isAlpha then (name, rest) else ([], cs)
  | _, _ => ([], cs)

/-- The authority in front of a text, and the rest. -/
def splitAuthority : List Char → List Char × List Char
  | '/' :: '/' :: rest => upTo ['/', '?', '#'] rest
  | cs => ([], cs)

/-- A part that a character opens, if the text starts with it. -/
def opened (mark : Char) (stops : List Char) : List Char → Option (List Char) × List Char
  | [] => (none, [])
  | c :: rest =>
    if c = mark then
      let (part, rest) := upTo stops rest
      (some part, rest)
    else (none, c :: rest)

/-- The parts of a text. -/
def Parts.ofChars (cs : List Char) : Parts :=
  let (scheme, rest) := splitScheme cs
  let (authority, rest) := splitAuthority rest
  let (path, rest) := upTo ['?', '#'] rest
  let (query, rest) := opened '?' ['#'] rest
  let (fragment, _) := opened '#' [] rest
  { scheme, authority, path, query, fragment }

/-- The host in front of a text that names a host and a socket, and the rest. -/
def splitHost (cs : List Char) : List Char × List Char :=
  let bracketed := (cs.reverse.dropWhile (· ≠ ']')).reverse
  if cs.head? = some '[' && !bracketed.isEmpty then (bracketed, cs.drop bracketed.length)
  else upTo [':'] cs

/-- User, host and socket of an authority. -/
def splitPlaces (authority : List Char) : List Char × List Char × List Char :=
  let back := authority.reverse
  let user := ((back.dropWhile (· ≠ '@')).drop 1).reverse
  let (host, rest) := splitHost (back.takeWhile (· ≠ '@')).reverse
  (user, host, if rest.head? = some ':' then rest.drop 1 else rest)

/-- The socket numbers that schemes imply. -/
def impliedSockets : List (String × Int) :=
  [("ftp", 21), ("http", 80), ("https", 443), ("ws", 80), ("wss", 443)]

/-- The number of a socket, unless the scheme implies it. -/
def readSocket (scheme cs : List Char) : Except Flaw (Option Int) :=
  if cs.isEmpty then .ok none
  else match Text.Number.integer? 10 cs with
    | none => .error (.socket cs)
    | some n => .ok (if impliedSockets.lookup (String.ofList scheme) = some n then none else some n)

/-- Passes if a path may stand after a scheme and an authority or where there are none. -/
def checkPath (afterScheme afterAuthority : Bool) (path : List Char) : Except Flaw Unit := do
  if afterAuthority && !path.isEmpty && path.head? ≠ some '/' then throw .pathAfterHost
  if !afterAuthority && !afterScheme then
    if path.take 2 = ['/', '/'] then throw .pathOfSlashes
    if path.head? = some ':' then throw .pathOfColon

/-- Steps without points, the last one first; two points take back the step before, but not the
root. -/
def withoutPoints (back : List (List Char)) : List (List Char) → List (List Char)
  | [] => back
  | s :: ss =>
    if s = ['.'] then withoutPoints back ss
    else if s = ['.', '.'] then withoutPoints (if back = [[]] then back else back.drop 1) ss
    else withoutPoints (s :: back) ss

/-- A path without points as steps. -/
def normalPath (path : List Char) : List Char :=
  (['/'] : List Char).intercalate (withoutPoints [] (Text.splitAt '/' path)).reverse

/-- The most characters of an address. -/
def mostCharacters : Nat := 65536

/-- Passes if a text is not too long and each of its characters can be seen. -/
def checkChars (cs : List Char) : Except Flaw Unit := do
  if mostCharacters < cs.length then throw .tooLong
  match cs.findIdx? fun c => c.toNat < 32 || c.toNat = 127 with
  | some i => throw (.control ((cs[i]?).getD ' ') i)
  | none => return ()

/-- The address of parts. A host that is given takes the place of the one in the authority. -/
def ofParts (p : Parts) (host? : Option (List Char)) : Except Flaw Address := do
  let (user, named, socket) := splitPlaces p.authority
  let user := Escaped.encode Escaped.inUser user
  let named := host?.getD named
  let host ← (Host.read named).mapError fun f => .host f named
  let socket ← readSocket p.scheme socket
  let afterAuthority := !user.isEmpty || !host.isEmpty || socket.isSome
  checkPath (!p.scheme.isEmpty) afterAuthority p.path
  let path := if p.scheme.isEmpty && !afterAuthority then p.path else normalPath p.path
  return {
    scheme := String.ofList (p.scheme.map Char.toLower)
    user := String.ofList user
    host := String.ofList host
    socket
    path := String.ofList (Escaped.encode Escaped.inPath path)
    query := p.query.map fun cs => String.ofList (Escaped.encode Escaped.inQuery cs)
    fragment := p.fragment.map fun cs => String.ofList (Escaped.encode Escaped.inFragment cs) }

/-- The address that a text writes. -/
def ofText (text : String) : Except Flaw Address := do
  checkChars text.toList
  ofParts (.ofChars text.toList) none

/-- Host and socket of an address. -/
def place (a : Address) : String :=
  Host.text a.host ++ (a.socket.map fun n => ":" ++ toString n).getD ""

/-- User, host and socket of an address. -/
def authority (a : Address) : String := (if a.user = "" then "" else a.user ++ "@") ++ a.place

/-- The text of an address. -/
def text (a : Address) : String :=
  (if a.scheme = "" then "" else a.scheme ++ ":")
    ++ (if a.authority = "" then "" else "//" ++ a.authority)
    ++ a.path
    ++ (a.query.map ("?" ++ ·)).getD "" ++ (a.fragment.map ("#" ++ ·)).getD ""

/-- The parts of an address. -/
def parts (a : Address) : Parts :=
  { scheme := a.scheme.toList, authority := a.authority.toList, path := a.path.toList
    query := a.query.map String.toList, fragment := a.fragment.map String.toList }

/-- The address of parts that were changed, each of which must be a text that an address holds. -/
def ofChanged (p : Parts) (host? : Option (List Char)) : Except Flaw Address := do
  checkChars p.authority
  checkChars p.path
  checkChars (p.query.getD [])
  checkChars (p.fragment.getD [])
  checkChars (host?.getD [])
  ofParts p host?

/-- Whether an address says by itself where it leads. -/
def isAbsolute (a : Address) : Bool := a.scheme ≠ "" && a.host ≠ ""

/-- The address from which a request with nothing known of its place starts: one at the root. -/
def rooted (a : Address) : Except Flaw Address :=
  ofChanged { path := '/' :: a.path.toList.dropWhile (· = '/'), query := a.query.map String.toList }
    none

end Address
end ApiScribe

/-! Links. A link that does not say by itself where it leads is followed from the address of the page
that holds it: from its place if it names none, and from its path if the link's path does not start
at the root. -/
namespace ApiScribe
namespace Link

/-- The schemes whose links are followed from the address of a page. -/
def schemes : List String :=
  ["ftp", "http", "gopher", "nntp", "imap", "wais", "file", "https", "shttp", "mms", "prospero",
   "rtsp", "rtsps", "rtspu", "sftp", "svn", "svn+ssh", "ws", "wss"]

/-- The schemes of which the last step of a path may have parameters. -/
def schemesWithParameters : List String :=
  ["ftp", "prospero", "http", "imap", "https", "shttp", "rtsp", "rtsps", "rtspu", "mms", "sftp"]

/-- A path and the parameters of its last step, which a semicolon opens. -/
def splitParameters (scheme : List Char) (path : List Char) : List Char × List Char :=
  let start := path.length - (Text.afterLast '/' path).length
  let step := path.drop start
  if schemesWithParameters.contains (String.ofList scheme) && step.contains ';' then
    (path.take start ++ step.takeWhile (· ≠ ';'), (step.dropWhile (· ≠ ';')).drop 1)
  else (path, [])

/-- The text of an address that names its place. -/
def written (p : Address.Parts) (path parameters : List Char) : List Char :=
  let path := if parameters.isEmpty then path else path ++ ';' :: parameters
  let path := if path.isEmpty || path.head? = some '/' then path else '/' :: path
  let part (mark : Char) (cs : List Char) := if cs.isEmpty then [] else mark :: cs
  p.scheme ++ ':' :: '/' :: '/' :: p.authority ++ path ++ part '?' (p.query.getD [])
    ++ part '#' (p.fragment.getD [])

/-- The steps of a path from those of the path of a page: the last step of the page is left, and empty
steps in between count for nothing. -/
def stepsFrom (page path : List Char) : List (List Char) :=
  if path.head? = some '/' then Text.splitAt '/' path
  else
    let steps := Text.splitAt '/' page
    let all := (if steps.getLast? = some [] then steps else steps.dropLast) ++ Text.splitAt '/' path
    let more := all.drop 1
    all.take 1 ++ more.dropLast.filter (!·.isEmpty) ++ more.getLast?.toList

/-- Steps without points, the last one first; two points take back the step before. -/
def withoutPoints (back : List (List Char)) : List (List Char) → List (List Char)
  | [] => back
  | s :: ss =>
    if s = ['.'] then withoutPoints back ss
    else if s = ['.', '.'] then withoutPoints (back.drop 1) ss
    else withoutPoints (s :: back) ss

/-- The path of a link on a page; a path that ends in points ends in a slash, and the path is never
empty. -/
def follow (page path : List Char) : List Char :=
  let steps := stepsFrom page path
  let back := withoutPoints [] steps
  let endsInPoints := steps.getLast? = some ['.'] || steps.getLast? = some ['.', '.']
  let path := (['/'] : List Char).intercalate (if endsInPoints then [] :: back else back).reverse
  if path.isEmpty then ['/'] else path

/-- The text of the address that a link on a page leads to. -/
def resolve (page link : List Char) : List Char :=
  let base := Address.Parts.ofChars page
  let goal := Address.Parts.ofChars link
  let goal := if goal.scheme.isEmpty then { goal with scheme := base.scheme } else goal
  let (path, parameters) := splitParameters goal.scheme goal.path
  if link.isEmpty then page
  else if goal.scheme ≠ base.scheme || !schemes.contains (String.ofList goal.scheme) then link
  else if !goal.authority.isEmpty then written goal path parameters
  else
    let goal := { goal with authority := base.authority }
    let (basePath, baseParameters) := splitParameters base.scheme base.path
    if path.isEmpty && parameters.isEmpty then
      let query := if (goal.query.getD []).isEmpty then base.query else goal.query
      written { goal with query } basePath baseParameters
    else written goal (follow basePath path) parameters

end Link
end ApiScribe
