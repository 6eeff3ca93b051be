/-
  Courier/Cron/Schedule.lean
  ==========================
  **Schedules and the search for the next occurrence.**

  A schedule lists the values that each field of a calendar and clock may have.
  The search for the next occurrence walks years, months, days, hours, minutes and
  seconds upwards, starting just after the last run on local clocks, and takes the
  first reading that the schedule allows and that local clocks ever show.  The day
  of the month and the day of the week must both fit.  A reading that clocks show
  twice stands for the earlier of its two instants.
-/
import Courier.Time.Zone

namespace Courier.Cron

open Courier.Time

/-- The values that each field may have, in ascending order. -/
structure Schedule where
  seconds : List Nat
  minutes : List Nat
  hours : List Nat
  days : List Nat
  months : List Nat
  /-- The days of the week; 1 is Sunday. -/
  weekdays : List Nat
  years : List Nat
deriving DecidableEq, Repr

/-- The values of a field that are still ahead: all of them, or while every larger field has its
    first value those from a first value on. -/
def ahead (values : List Nat) (first : Option Nat) : List Nat :=
  match first with
  | none => values
  | some least => values.filter (least ≤ ·)

/-- The first value of a field, as long as the larger field has its own first value. -/
def firstBelow (first : Option Nat) (value : Nat) (next : Nat) : Option Nat :=
  if first = some value then some next else none

namespace Schedule

/-- The instants, earliest first, at which local clocks show a reading. -/
def instantsOf (zone : Zone) (date : Date) (hour minute second : Nat) : List Instant :=
  (zone.instants ({ date, hour, minute, second, nanos := 0 : Civil }).toSeconds).map
    Instant.ofSeconds

/-- The first occurrence of a day.  `first` is the hour, minute and second from which on the
    search begins, if the day is the first one. -/
def firstOfDay (s : Schedule) (zone : Zone) (date : Date) (first : Option Civil) :
    Option Instant :=
  let firstHour := first.map (·.hour)
  (ahead s.hours firstHour).findSome? fun hour =>
    let firstMinute := first.bind fun t => firstBelow firstHour hour t.minute
    (ahead s.minutes firstMinute).findSome? fun minute =>
      let firstSecond := first.bind fun t => firstBelow firstMinute minute t.second
      (ahead s.seconds firstSecond).findSome? fun second =>
        (instantsOf zone date hour minute second).head?

/-- Whether the schedule allows a date's day of the week. -/
def allowsWeekday (s : Schedule) (date : Date) : Bool := s.weekdays.contains (date.weekday + 1)

/-- The first occurrence whose local reading is not before a given one. -/
def firstFrom (s : Schedule) (zone : Zone) (t : Civil) : Option Instant :=
  let firstYear := some t.date.year.toNat
  (ahead s.years firstYear).findSome? fun year =>
    let firstMonth := firstBelow firstYear year t.date.month
    (ahead s.months firstMonth).findSome? fun month =>
      let firstDay := firstBelow firstMonth month t.date.day
      ((ahead s.days firstDay).filter (· ≤ daysInMonth year month)).findSome? fun day =>
        let date : Date := ⟨year, month, day⟩
        if s.allowsWeekday date then
          s.firstOfDay zone date (if firstDay = some day then some t else none)
        else none

/-- The reading of local clocks one second after an instant. -/
def readingAfter (zone : Zone) (last : Instant) : Civil :=
  let second := last.seconds + 1
  Civil.ofSeconds (second + zone.offsetAt second) 0

/-- The occurrence that follows an instant. -/
def next (s : Schedule) (zone : Zone) (last : Instant) : Option Instant :=
  s.firstFrom zone (readingAfter zone last)

end Schedule

end Courier.Cron
