import KnowledgeKiln.Core.Py

/-!
# `datetime.date`

A `Date` is a day of the proleptic Gregorian calendar, years 1 to 9999.
Two dates compare as their ordinals do, so `d - timedelta(days=n)` is kept as
an ordinal (`Date.subDays`); it raises `OverflowError` below 0001-01-01 and
for a `timedelta` longer than 999999999 days.
-/
namespace KnowledgeKiln.Core

def isLeap (y : Nat) : Bool := y % 4 == 0 && (y % 100 != 0 || y % 400 == 0)

/-- Days of month `m` of a year. -/
def daysInMonth (y : Nat) : Nat → Nat
  | 2 => if isLeap y then 29 else 28
  | 4 | 6 | 9 | 11 => 30
  | _ => 31

structure Date where
  year : Nat
  month : Nat
  day : Nat
  year_mem : 1 ≤ year ∧ year ≤ 9999
  month_mem : 1 ≤ month ∧ month ≤ 12
  day_mem : 1 ≤ day ∧ day ≤ daysInMonth year month
  deriving DecidableEq, Repr

namespace Date

/-- Days before the first of month `m`. -/
def daysBeforeMonth (y : Nat) : Nat → Nat
  | 0 | 1 => 0
  | m + 2 => daysBeforeMonth y (m + 1) + daysInMonth y (m + 1)

/-- `d.toordinal()`: 1 for 0001-01-01. -/
def toordinal (d : Date) : Nat :=
  let y := d.year - 1
  y * 365 + y / 4 - y / 100 + y / 400 + daysBeforeMonth d.year d.month + d.day

/-- `str(d)` -/
def isoformat (d : Date) : Str :=
  padStr 4 d.year ++ "-" ++ padStr 2 d.month ++ "-" ++ padStr 2 d.day

/-- The ordinal of `d - timedelta(days=n)`. -/
def subDays (d : Date) (n : Nat) : Py Nat :=
  if 999999999 < n ∨ d.toordinal ≤ n then throw .overflowError else pure (d.toordinal - n)

/-- `(a - b).days` -/
def daysSince (a b : Date) : Int := a.toordinal - b.toordinal

theorem subDays_ok {d : Date} {n k : Nat} :
    d.subDays n = .ok k ↔ n ≤ 999999999 ∧ n < d.toordinal ∧ d.toordinal - n = k := by
  unfold subDays
  split
  · simp; omega
  · simp; omega

theorem daysInMonth_le (y m : Nat) : daysInMonth y m ≤ 31 := by
  unfold daysInMonth
  split
  · split <;> omega
  all_goals omega

theorem daysBeforeMonth_le (y : Nat) : ∀ m, daysBeforeMonth y m ≤ 31 * m
  | 0 | 1 => Nat.zero_le _
  | m + 2 => by
    have ih := daysBeforeMonth_le y (m + 1)
    have hm := daysInMonth_le y (m + 1)
    unfold daysBeforeMonth
    omega

/-- A day is no further from the first one than the longest `timedelta`. -/
theorem toordinal_le (d : Date) : d.toordinal ≤ 999999999 := by
  have hy := d.year_mem
  have hm := d.month_mem
  have hd := d.day_mem
  have hbefore := daysBeforeMonth_le d.year d.month
  have hmonth := daysInMonth_le d.year d.month
  unfold toordinal
  dsimp only
  omega

end Date

example : (⟨2024, 2, 29, by decide, by decide, by decide⟩ : Date).toordinal = 738945 := by decide

end KnowledgeKiln.Core
