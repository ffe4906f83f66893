import StripePruning.Number.Reading
import StripePruning.Text.Blank
import StripePruning.Text.Shape

/-!
# Dates and times

Days are counted from the first of January 1970 in the Gregorian calendar,
extended to all years.  Times of day are counted in seconds and nanoseconds.
The second 60 is a leap second: it counts as second 59 with a further whole
second of nanoseconds.
-/

namespace StripePruning

namespace Delimited

/-! ## Days -/

/-- Whether a year has 366 days. -/
def isLeapYear (year : Int) : Bool :=
  year % 4 = 0 && (year % 100 ≠ 0 || year % 400 = 0)

/-- The number of days of a month, none if there is no such month. -/
def monthLength (year : Int) (month : Nat) : Nat :=
  match month with
  | 1 | 3 | 5 | 7 | 8 | 10 | 12 => 31
  | 4 | 6 | 9 | 11 => 30
  | 2 => if isLeapYear year then 29 else 28
  | _ => 0

/-- The days from the first of January of year 1 to that of a year. -/
def daysBeforeYear (year : Int) : Int :=
  let past := year - 1
  365 * past + past / 4 - past / 100 + past / 400

/-- The days of a year before a month. -/
def daysBeforeMonth (year : Int) (month : Nat) : Nat :=
  (List.range month).foldl (fun days past => days + monthLength year past) 0

/-- The greatest and the least year that dates are read for. -/
def lastYear : Int := 262142
@[inherit_doc lastYear]
def firstYear : Int := -262143

/-- The number of a day, if there is such a day. -/
def dayNumber? (year : Int) (month day : Nat) : Option Int :=
  if firstYear ≤ year ∧ year ≤ lastYear ∧ 1 ≤ day ∧ day ≤ monthLength year month then
    some (daysBeforeYear year + daysBeforeMonth year month + (day - 1 : Nat) - daysBeforeYear 1970)
  else
    none

/-! ## Points in time -/

/-- A point in time.  A leap second has more than a second of nanoseconds. -/
structure Instant where
  seconds : Int
  nanos : Nat

/-- The seconds of a day. -/
def daySeconds : Int := 86400

/-- The day that a point in time lies in. -/
def Instant.day (t : Instant) : Int :=
  t.seconds / daySeconds

/-- A point in time in units of `10 ^ -places` seconds, as far as full units
have passed.  Whole seconds stand still in a leap second, and finer units go on
through it. -/
def Instant.inUnits (t : Instant) (places : Nat) : Int :=
  if places = 0 then t.seconds
  else t.seconds * Nat.pow 10 places + (t.nanos / Nat.pow 10 (9 - places) : Nat)

/-- The seconds and nanoseconds of a time of day, if there is such a time. -/
def timeOfDay? (hour minute second nanos : Nat) : Option Instant :=
  if hour ≤ 23 ∧ minute ≤ 59 ∧ second ≤ 60 then
    let seconds := hour * 3600 + minute * 60 + min second 59
    some { seconds, nanos := if second = 60 then 1000000000 + nanos else nanos }
  else
    none

/-! ## Reading -/

/-- The number that the digits of a text from a position on stand for. -/
def numberAt (text : List Char) (position length : Nat) : Nat :=
  ((digitsValue? ((text.drop position).take length))).getD 0

/-- The day at the start of a text, written as year, month and day, and the
rest of the text. -/
def leadingDay? (text : List Char) : Option (Int × List Char) := do
  let rest ← afterShape? Char.isDigit dateShape text
  let day ← dayNumber? (numberAt text 0 4) (numberAt text 5 2) (numberAt text 8 2)
  return (day, rest)

/-- The nanoseconds that the digits behind a point stand for, of which nine
count. -/
def nanosOf (digits : List Char) : Nat :=
  let digits := digits.take 9
  numberAt digits 0 9 * Nat.pow 10 (9 - digits.length)

/-- The nanoseconds behind a point, if there is one, and the rest of the text.
A point without digits is refused. -/
def fraction? : List Char → Option (Nat × List Char)
  | '.' :: rest =>
    let digits := rest.takeWhile Char.isDigit
    if digits.isEmpty then none else some (nanosOf digits, rest.dropWhile Char.isDigit)
  | rest => some (0, rest)

/-- The shape of a time of day without colons. -/
def denseTimeShape : List Char := "000000".toList

/-- The time of day at the start of a text, with or without colons, and the
rest of the text.  Without colons no digit follows in the next two places. -/
def leadingTime? (text : List Char) : Option (Instant × List Char) :=
  match afterShape? Char.isDigit timeShape text with
  | some rest => do
    let (nanos, rest) ← fraction? rest
    let time ← timeOfDay? (numberAt text 0 2) (numberAt text 3 2) (numberAt text 6 2) nanos
    return (time, rest)
  | none => do
    let rest ← afterShape? Char.isDigit denseTimeShape text
    if (rest.take 2).any Char.isDigit then none
    else
      let time ← timeOfDay? (numberAt text 0 2) (numberAt text 2 2) (numberAt text 4 2) 0
      return (time, rest)

/-- The seconds of an offset of hours and minutes, which is less than a day. -/
def offset? (negative : Bool) (hours minutes : Nat) : Option Int :=
  let seconds : Int := hours * 3600 + minutes * 60
  if seconds < daySeconds then some (if negative then -seconds else seconds) else none

/-- The seconds of an offset without its sign: hours, or hours and minutes with
or without a colon. -/
def unsignedZone? (negative : Bool) (text : List Char) : Option Int :=
  if hasShape Char.isDigit "00:00".toList text then
    offset? negative (numberAt text 0 2) (numberAt text 3 2)
  else if hasShape Char.isDigit "0000".toList text then
    offset? negative (numberAt text 0 2) (numberAt text 2 2)
  else if hasShape Char.isDigit "00".toList text then
    offset? negative (numberAt text 0 2) 0
  else none

/-- How many seconds a zone is ahead: nothing and the letter `z` stand for none,
and blanks may stand before an offset. -/
def zone? (text : List Char) : Option Int :=
  match text with
  | [] => some 0
  | ['z'] => some 0
  | ['Z'] => some 0
  | _ =>
    match trimBlanksLeft text with
    | '+' :: rest => unsignedZone? false rest
    | '-' :: rest => unsignedZone? true rest
    | _ => none

/-- The point in time that a text stands for: a day, or a day, a separator, a
time of day and a zone. -/
def instant? (text : List Char) : Option Instant := do
  let (day, rest) ← leadingDay? text
  match rest with
  | [] => return { seconds := day * daySeconds, nanos := 0 }
  | separator :: rest =>
    if separator = 'T' ∨ separator = 't' ∨ separator = ' ' then
      let (time, rest) ← leadingTime? rest
      let ahead ← zone? rest
      return { seconds := day * daySeconds + time.seconds - ahead, nanos := time.nanos }
    else none

/-- The day of a date with a signed year of at least four digits. -/
def signedDay? (negative : Bool) (text : List Char) : Option Int := do
  let (year, rest) ← cutAt? '-' text
  let (month, day) ← cutAt? '-' rest
  if year.length < 4 then none
  else
    let year ← digitsValue? year
    dayNumber? (if negative then -year else year) (← readSize? month) (← readSize? day)

/-- The one or two digits at the start of a text, and the rest of it. -/
def shortNumber? (text : List Char) : Option (Nat × List Char) :=
  let digits := text.takeWhile Char.isDigit
  if digits.length = 1 ∨ digits.length = 2 then
    (digitsValue? digits).map fun n => (n, text.dropWhile Char.isDigit)
  else none

/-- The day of a short date: eight digits, or a year of four digits, a month
and a day of one or two.  Behind the day anything but a digit is ignored. -/
def shortDay? (text : List Char) : Option Int :=
  if hasShape Char.isDigit "00000000".toList text then
    dayNumber? (numberAt text 0 4) (numberAt text 4 2) (numberAt text 6 2)
  else do
    let rest ← afterShape? Char.isDigit "0000-".toList text
    let (month, rest) ← shortNumber? rest
    let rest ← after? ['-'] rest
    let (day, rest) ← shortNumber? rest
    if rest.any Char.isDigit then none else dayNumber? (numberAt text 0 4) month day

/-- The day that a text of `size` bytes stands for.  More than ten bytes are read
as a point in time. -/
def day? (size : Nat) : List Char → Option Int
  | '+' :: text => signedDay? false text
  | '-' :: text => signedDay? true text
  | text => if 10 < size then (instant? text).map Instant.day else shortDay? text

end Delimited

end StripePruning
