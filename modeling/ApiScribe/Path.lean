import ApiScribe.Text.Search

/-! Paths as text, their steps separated by slashes. Everything here is lexical: no file system
is asked. -/
namespace ApiScribe
namespace Path

/-- The steps of a path, with the empty ones around and between slashes. -/
def steps (p : String) : List String := Text.splitString '/' p

/-- Whether a path starts at the root. -/
def isAbsolute (p : String) : Bool := p.startsWith "/"

/-- One more step: empty ones and points go nowhere, and two points undo the step before, if
there is one to undo. `done` holds the steps so far, last first. -/
def step (absolute : Bool) (done : List String) (s : String) : List String :=
  if s = "" || s = "." then done
  else if s ≠ ".." then s :: done
  else match done with
    | [] => if absolute then [] else [".."]
    | last :: before => if last = ".." then ".." :: done else before

/-- Steps without detours. -/
def normalSteps (absolute : Bool) (ss : List String) : List String :=
  (ss.foldl (step absolute) []).reverse

/-- The slashes in front: two are kept, more count as one. -/
def lead (p : String) : String :=
  if !isAbsolute p then ""
  else if p.startsWith "//" && !p.startsWith "///" then "//" else "/"

/-- A path without detours; the empty one is a point. -/
def normal (p : String) : String :=
  let text := lead p ++ "/".intercalate (normalSteps (isAbsolute p) (steps p))
  if text = "" then "." else text

/-- A path below another, or on its own if it starts at the root. -/
def join (a b : String) : String :=
  if isAbsolute b then b
  else if a = "" || a.endsWith "/" then a ++ b
  else a ++ "/" ++ b

/-- What stands before the last slash; slashes at the end of it are cut unless nothing else is
there. -/
def directory (p : String) : String :=
  let head := (p.toList.reverse.dropWhile (· ≠ '/'))
  let cut := head.dropWhile (· = '/')
  String.ofList (if cut.isEmpty then head else cut).reverse

/-- A path without the ending of its last step. Points in front of a name belong to the name. -/
def withoutSuffix (p : String) : String :=
  let back := p.toList.reverse
  let name := back.takeWhile (· ≠ '/')
  let suffix := name.takeWhile (· ≠ '.')
  match name.dropWhile (· ≠ '.') with
  | '.' :: stem =>
    if stem.any (· ≠ '.') then String.ofList ((back.drop (suffix.length + 1)).reverse) else p
  | _ => p

/-- The directory that relative paths start from; any one would do that is not named in them. -/
def base : List String := ["", "home", "work", "project"]

/-- The steps of a path from the root. -/
def rooted (p : String) : List String :=
  normalSteps true (if isAbsolute p then steps p else base ++ steps p)

/-- Steps to go up and then down, from one place to another. -/
def between : List String → List String → List String
  | a :: from_, b :: to_ =>
    if a = b then between from_ to_ else (a :: from_).map (fun _ => "..") ++ b :: to_
  | from_, to_ => from_.map (fun _ => "..") ++ to_

/-- The path that leads from a directory to another path; there is none to an empty path. -/
def relative? (target start : String) : Option String :=
  if target = "" then none
  else
    let ss := between (rooted start) (rooted target)
    some (if ss.isEmpty then "." else "/".intercalate ss)

end Path
end ApiScribe
