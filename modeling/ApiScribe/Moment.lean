/-! Dates of the calendar, and moments: a date with a time of the day, which may say how far its
zone lies from the common one. A moment is counted from the first of all days, so moments of one
kind can be compared. -/
namespace ApiScribe

/-- The time of a day, with the offset of its zone in minutes. -/
structure Clock where
  hour : Nat
  minute : Nat
  second : Nat
  micro : Nat
  offset : Option Int
  deriving Repr, DecidableEq, Inhabited

/-- A date, with or without the time of the day. -/
structure Moment where
  year : Nat
  month : Nat
  day : Nat
  clock : Option Clock
  deriving Repr, DecidableEq, Inhabited

/-- The kinds of moments: a date, a time without a zone, and a time in a zone. -/
inductive MomentKind
  | date
  | bare
  | zoned
  deriving Repr, DecidableEq

namespace Moment

/-- The kind of a moment. -/
def kind (t : Moment) : MomentKind :=
  match t.clock with
  | none => .date
  | some c => if c.offset.isSome then .zoned else .bare

/-- Whether a year has a 29th of February. -/
def isLeap (year : Nat) : Bool := year % 4 == 0 && (year % 100 != 0 || year % 400 == 0)

/-- The number of days of a month. -/
def daysIn (year month : Nat) : Nat :=
  if month == 2 then (if isLeap year then 29 else 28)
  else if month ∈ [4, 6, 9, 11] then 30 else 31

/-- Whether the calendar has the date and the day has the time. -/
def exists? (t : Moment) : Bool :=
  1 ≤ t.year && 1 ≤ t.month && t.month ≤ 12 && 1 ≤ t.day && t.day ≤ daysIn t.year t.month
    && t.clock.all fun c =>
      c.hour < 24 && c.minute < 60 && c.second < 60 && c.offset.all fun o => o.natAbs < 1440

/-- The number of days before a year. -/
def daysBeforeYear (year : Nat) : Nat :=
  let past := year - 1
  365 * past + past / 4 - past / 100 + past / 400

/-- The number of days of a year before a month. -/
def daysBeforeMonth (year month : Nat) : Nat :=
  (List.range (month - 1)).foldl (fun n i => n + daysIn year (i + 1)) 0

/-- The millionths of a second from the first of all days to a moment, in the common zone if it has
a zone. -/
def instant (t : Moment) : Int :=
  let days : Int := daysBeforeYear t.year + daysBeforeMonth t.year t.month + t.day
  match t.clock with
  | none => days
  | some c =>
    let minutes := (days * 24 + c.hour) * 60 + c.minute - c.offset.getD 0
    (minutes * 60 + c.second) * 1000000 + c.micro

/-- Whether two moments are equal: of one kind and at one instant. -/
def same (t u : Moment) : Bool := t.kind == u.kind && t.instant == u.instant

/-- A number with at least `width` digits. -/
def padded (width n : Nat) : String :=
  let ds := toString n
  String.ofList (List.replicate (width - ds.length) '0') ++ ds

/-- The text of the date. -/
def dateText (t : Moment) : String :=
  padded 4 t.year ++ "-" ++ padded 2 t.month ++ "-" ++ padded 2 t.day

/-- The text of an offset. -/
def offsetText (o : Int) : String :=
  (if o < 0 then "-" else "+") ++ padded 2 (o.natAbs / 60) ++ ":" ++ padded 2 (o.natAbs % 60)

/-- The text of the time of the day. -/
def clockText (c : Clock) : String :=
  padded 2 c.hour ++ ":" ++ padded 2 c.minute ++ ":" ++ padded 2 c.second
    ++ (if c.micro = 0 then "" else "." ++ padded 6 c.micro)
    ++ (match c.offset with
        | some o => offsetText o
        | none => "")

/-- The text of a moment. -/
def text (t : Moment) : String :=
  match t.clock with
  | none => t.dateText
  | some c => t.dateText ++ " " ++ clockText c

/-- Names with values, as the inside of a larger value shows an offset. -/
def offsetShown (o : Int) : String :=
  if o = 0 then "datetime.timezone.utc"
  else
    let days := if o < 0 then ["days=-1"] else []
    let seconds := 60 * (if o < 0 then o + 1440 else o)
    "datetime.timezone(datetime.timedelta("
      ++ ", ".intercalate (days ++ ["seconds=" ++ toString seconds]) ++ "))"

/-- How the inside of a larger value shows a moment. -/
def shown (t : Moment) : String :=
  let date := [t.year, t.month, t.day]
  match t.clock with
  | none => "datetime.date(" ++ ", ".intercalate (date.map toString) ++ ")"
  | some c =>
    let time := if c.micro ≠ 0 then [c.hour, c.minute, c.second, c.micro]
      else if c.second ≠ 0 then [c.hour, c.minute, c.second] else [c.hour, c.minute]
    let zone := match c.offset with
      | some o => ["tzinfo=" ++ offsetShown o]
      | none => []
    "datetime.datetime(" ++ ", ".intercalate ((date ++ time).map toString ++ zone) ++ ")"

end Moment
end ApiScribe
