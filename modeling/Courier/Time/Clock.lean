/-
  Courier/Time/Clock.lean
  =======================
  **The clocks of a running service.**

  Three clocks matter: the time of day, by which executions are recorded and
  schedules are judged; the uptime, by which loops sleep, and which never goes
  back; and the clock of the store, by which leases end.  `Clock` holds what is
  needed to read all three.
-/
import Courier.Time.Instant

namespace Courier.Time

/-- The state of the clocks. -/
structure Clock where
  /-- The time of day at which the uptime was zero. -/
  origin : Instant
  /-- The time since the service came up. -/
  uptime : Span := 0
  /-- How far the clock of the store is ahead of the time of day. -/
  storeShift : Span := 0
deriving DecidableEq, Repr, Inhabited

namespace Clock

/-- The time of day. -/
def now (c : Clock) : Instant := c.origin + c.uptime

/-- The time on the clock of the store. -/
def storeNow (c : Clock) : Instant := c.now + c.storeShift

/-- The clocks when the uptime has reached a value. -/
def at_ (c : Clock) (uptime : Span) : Clock := { c with uptime }

/-- The clocks as soon as the uptime is at least a value. -/
def reach (c : Clock) (uptime : Span) : Clock := if c.uptime < uptime then c.at_ uptime else c

theorem reach_of_le {c : Clock} {t : Span} (h : t ≤ c.uptime) : c.reach t = c :=
  if_neg (Int.not_lt.2 h)

theorem uptime_reach (c : Clock) (t : Span) :
    (c.reach t).uptime = if c.uptime < t then t else c.uptime := by
  unfold reach
  split <;> rfl

theorem le_uptime_reach (c : Clock) (t : Span) : t ≤ (c.reach t).uptime := by
  simp only [uptime_reach, Span.le_iff, Span.lt_iff]
  split <;> omega

theorem uptime_le_reach (c : Clock) (t : Span) : c.uptime ≤ (c.reach t).uptime := by
  simp only [uptime_reach, Span.le_iff, Span.lt_iff]
  split <;> omega

theorem at_eq_reach {c : Clock} {t : Span} (h : c.uptime ≤ t) : c.at_ t = c.reach t := by
  unfold reach
  split
  · rfl
  · rename_i hnot
    rw [Span.le_antisymm (Int.not_lt.1 hnot) h, at_]

theorem uptime_reach_of_le {c : Clock} {t : Span} (h : c.uptime ≤ t) : (c.reach t).uptime = t := by
  rw [← at_eq_reach h, at_]

theorem reach_reach {t u : Span} (c : Clock) (h : t ≤ u) : (c.reach t).reach u = c.reach u := by
  by_cases hlate : t ≤ c.uptime
  · rw [reach_of_le hlate]
  · have hless : c.uptime ≤ t := Int.le_of_lt (Int.not_le.1 hlate)
    rw [← at_eq_reach hless, ← at_eq_reach (Int.le_trans hless h)]
    exact (at_eq_reach (c := c.at_ t) h).symm

/-- The clocks after a span of time. -/
def after (c : Clock) (span : Span) : Clock := c.at_ (c.uptime + span)

end Clock

end Courier.Time
