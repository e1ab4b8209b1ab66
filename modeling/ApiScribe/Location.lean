import ApiScribe.Path

/-! Locations: paths in steps, without empty steps and points. Two points stay a step, since what
is above a step is known to the file system only. -/
namespace ApiScribe

/-- A path in steps; `lead` holds the slashes in front of it. -/
structure Location where
  lead : String := ""
  steps : List String := []
  deriving Repr, DecidableEq, Inhabited

namespace Location

/-- Whether a text between slashes is a step. -/
def isStep (s : String) : Bool := s ≠ "" && s ≠ "."

/-- The location that a path names. -/
def ofPath (p : String) : Location := ⟨Path.lead p, (Path.steps p).filter isStep⟩

/-- The directory that every relative location is below. -/
def here : Location := {}

/-- The text of a location. -/
def text (l : Location) : String :=
  let t := l.lead ++ "/".intercalate l.steps
  if t = "" then "." else t

/-- The last step, or the empty text if there is none. -/
def name (l : Location) : String := l.steps.getLastD ""

/-- One step up; what is at the top stays there. -/
def parent (l : Location) : Location := { l with steps := l.steps.dropLast }

/-- Whether a file system can hold a location: none of its steps has the character that ends
names. -/
def isStorable (l : Location) : Bool := l.steps.all fun s => !s.toList.contains '\x00'

/-- A path below a location, or on its own if it starts at the root. -/
def below (l : Location) (path : String) : Location :=
  let p := ofPath path
  if p.lead = "" then { l with steps := l.steps ++ p.steps } else p

/-- Whether a location is properly below another. -/
def isBelow (l root : Location) : Bool :=
  l.lead == root.lead && root.steps.length < l.steps.length && root.steps.isPrefixOf l.steps

/-- The ending of the last step, with its point; a name that starts or ends with its only point
has none. -/
def suffix (l : Location) : String :=
  let back := l.name.toList.reverse
  let ending := back.takeWhile (· ≠ '.')
  match back.dropWhile (· ≠ '.') with
  | '.' :: stem => if ending.isEmpty || stem.isEmpty then "" else String.ofList ('.' :: ending.reverse)
  | _ => ""

end Location
end ApiScribe
