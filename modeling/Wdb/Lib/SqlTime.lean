import Mathlib

/-! `timestamptz` and `interval` arithmetic as PostgreSQL does it.

    An instant is a number of microseconds since the epoch, in UTC. Subtracting two instants gives
    whole days and a time part; adding an interval adds the days in the local time of the session's
    time zone and the time part afterwards, so that addition undoes subtraction only while the
    zone's offset does not change in between. -/

namespace SqlTime

/-- Microseconds of a day of 24 hours. -/
def usecsPerDay : ℤ := 86400000000

/-- An interval without months: days and a time part in microseconds. -/
structure Interval where
  day : ℤ
  time : ℤ
  deriving DecidableEq

/-- The length by which intervals are compared: a day counts as 24 hours. -/
def Interval.span (i : Interval) : ℤ := i.day * usecsPerDay + i.time

/-- Fold full 24-hour periods of a difference into days (`interval_justify_hours`). -/
def justifyHours (d : ℤ) : Interval := ⟨d.tdiv usecsPerDay, d.tmod usecsPerDay⟩

/-- `a - b` for two instants (`timestamp_mi`). -/
def timestampMi (a b : ℤ) : Interval := justifyHours (a - b)

/-- A time zone: the offset to UTC before the first transition, and the transitions in order of
    time, each with the offset that holds from it on. -/
structure TimeZone where
  initial : ℤ
  transitions : List (ℤ × ℤ)
  deriving DecidableEq

namespace TimeZone

/-- The last offset of a list of transitions, `o` when it is empty. -/
def lastOffset (o : ℤ) (l : List (ℤ × ℤ)) : ℤ := (l.getLast?.map Prod.snd).getD o

/-- The offset in force at an instant. -/
def offsetAt (z : TimeZone) (t : ℤ) : ℤ :=
  lastOffset z.initial (z.transitions.filter fun b => b.1 ≤ t)

/-- The first transition after an instant, if any: its time, and the offset from then on
    (`pg_next_dst_boundary`; the offset before it is `offsetAt`). -/
def nextDstBoundary (z : TimeZone) (t : ℤ) : Option (ℤ × ℤ) := z.transitions.find? fun b => t < b.1

/-- The offset by which a local time is read (`DetermineTimeZoneOffset`). In a spring-forward gap the
    offset before the transition is preferred, in a fall-back overlap the one after it. -/
def determineTimeZoneOffset (z : TimeZone) (l : ℤ) : ℤ :=
  let before := z.offsetAt (l - usecsPerDay)
  match z.nextDstBoundary (l - usecsPerDay) with
  | none => before
  | some (boundary, after) =>
    if l - before < boundary ∧ l - after < boundary then before
    else if boundary < l - before ∧ boundary ≤ l - after then after
    else if l - after < l - before then before
    else after

end TimeZone

/-- `t + i` for an instant and an interval (`timestamptz_pl_interval`). -/
def timestamptzPlInterval (z : TimeZone) (t : ℤ) (i : Interval) : ℤ :=
  let moved :=
    if i.day = 0 then t
    else
      let l := t + z.offsetAt t + i.day * usecsPerDay
      l - z.determineTimeZoneOffset l
  moved + i.time

/-- Adding back, in zone `z`, the difference of `a` to `b` gives `a`. -/
def AddsBack (z : TimeZone) (a b : ℤ) : Prop := timestamptzPlInterval z b (timestampMi a b) = a

instance (z : TimeZone) (a b : ℤ) : Decidable (AddsBack z a b) :=
  inferInstanceAs (Decidable (_ = _))

@[simp] theorem span_justifyHours (d : ℤ) : (justifyHours d).span = d := by
  unfold justifyHours Interval.span
  have := Int.mul_tdiv_add_tmod d usecsPerDay
  rw [mul_comm] at this
  exact this

@[simp] theorem span_timestampMi (a b : ℤ) : (timestampMi a b).span = a - b :=
  span_justifyHours _

end SqlTime
