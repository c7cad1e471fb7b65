namespace TradingLoad

/-- A day of the proleptic Gregorian calendar. -/
structure Date where
  year : Int
  month : Nat
  day : Nat
  deriving DecidableEq, Repr

namespace Date

def isLeapYear (year : Int) : Bool := year % 4 = 0 && (year % 100 ≠ 0 || year % 400 = 0)

def daysInMonth (year : Int) (month : Nat) : Nat :=
  if month = 2 then if isLeapYear year then 29 else 28
  else if month = 4 ∨ month = 6 ∨ month = 9 ∨ month = 11 then 30
  else 31

/-- The first and the last year of the calendar. -/
def firstYear : Int := -262143

def lastYear : Int := 262142

/-- The day exists, in a year of the calendar. -/
def Valid (d : Date) : Prop :=
  firstYear ≤ d.year ∧ d.year ≤ lastYear ∧ 1 ≤ d.month ∧ d.month ≤ 12 ∧
    1 ≤ d.day ∧ d.day ≤ daysInMonth d.year d.month

instance (d : Date) : Decidable d.Valid := by unfold Valid; infer_instance

def next (d : Date) : Date :=
  if d.day < daysInMonth d.year d.month then { d with day := d.day + 1 }
  else if d.month < 12 then { d with month := d.month + 1, day := 1 }
  else ⟨d.year + 1, 1, 1⟩

def previous (d : Date) : Date :=
  if 1 < d.day then { d with day := d.day - 1 }
  else if 1 < d.month then ⟨d.year, d.month - 1, daysInMonth d.year (d.month - 1)⟩
  else ⟨d.year - 1, 12, 31⟩

end Date

/-- A moment: a day, the minute of that day, the second of that minute and its nanoseconds. -/
structure Timestamp where
  date : Date
  minuteOfDay : Nat
  second : Nat
  nanosecond : Nat
  deriving DecidableEq, Repr

namespace Timestamp

/-- The moment from which computers count. -/
def epoch : Timestamp := ⟨⟨1970, 1, 1⟩, 0, 0, 0⟩

def minutesPerDay : Nat := 24 * 60

def Valid (t : Timestamp) : Prop :=
  t.date.Valid ∧ t.minuteOfDay < minutesPerDay ∧
    (t.second < 60 ∧ t.nanosecond < 1000000000 ∨
      t.second = 59 ∧ t.nanosecond < 2000000000)

instance (t : Timestamp) : Decidable t.Valid := by unfold Valid; infer_instance

def hour (t : Timestamp) : Nat := t.minuteOfDay / 60

def minute (t : Timestamp) : Nat := t.minuteOfDay % 60

/-- The moment at which a clock `offset` minutes ahead of UTC shows `t`. An offset is shorter than a
day, so at most the neighbouring day is reached. -/
def toUtc (t : Timestamp) (offset : Int) : Timestamp :=
  let shifted := (t.minuteOfDay : Int) - offset
  if shifted < 0 then
    { t with date := t.date.previous, minuteOfDay := (shifted + minutesPerDay).toNat }
  else if (minutesPerDay : Int) ≤ shifted then
    { t with date := t.date.next, minuteOfDay := (shifted - minutesPerDay).toNat }
  else
    { t with minuteOfDay := shifted.toNat }

theorem toUtc_zero {t : Timestamp} (h : t.minuteOfDay < minutesPerDay) : t.toUtc 0 = t := by
  have h₁ : ¬ (t.minuteOfDay : Int) < 0 := by omega
  have h₂ : ¬ (minutesPerDay : Int) ≤ (t.minuteOfDay : Int) := by omega
  simp [toUtc, h₁, h₂]

end Timestamp

end TradingLoad
