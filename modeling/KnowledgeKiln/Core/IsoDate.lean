import KnowledgeKiln.Core.Date

/-!
# `date.fromisoformat`

The ISO 8601 texts Python reads as a date: `YYYY-MM-DD`, `YYYYMMDD`, and the week dates
`YYYY-Www-D`, `YYYYWwwD` with or without their day. A text in the extended format has a dash
between any two parts, one in the basic format has none.

* `fromIsoformat_isoformat`: it reads what `isoformat` writes.
* `exists_digit_of_fromIsoformat`: what it reads holds a digit.
-/
namespace KnowledgeKiln.Core.Date

/-- `date(year, month, day)`; `none` for a `ValueError`. -/
def ofParts (year month day : Nat) : Option Date :=
  if h : (1 ≤ year ∧ year ≤ 9999) ∧ (1 ≤ month ∧ month ≤ 12) ∧
      (1 ≤ day ∧ day ≤ daysInMonth year month) then
    some ⟨year, month, day, h.1, h.2.1, h.2.2⟩
  else none

/-! ## Week dates -/

/-- The ordinal of a day of a year. -/
def ordinal (year month day : Nat) : Nat :=
  let y := year - 1
  y * 365 + y / 4 - y / 100 + y / 400 + daysBeforeMonth year month + day

/-- The Monday of the week with the year's first Thursday, as an ordinal. -/
def isoWeekOneMonday (year : Nat) : Nat :=
  let firstDay := ordinal year 1 1
  let weekday := (firstDay + 6) % 7
  if 3 < weekday then firstDay - weekday + 7 else firstDay - weekday

/-- Years of 53 weeks start on a Thursday, or on a Wednesday if they are leap years. -/
def weeksInYear (year : Nat) : Nat :=
  let weekday := ordinal year 1 1 % 7
  if weekday = 4 ∨ weekday = 3 ∧ isLeap year then 53 else 52

/-- The day of this ordinal, if it lies in the year. -/
def ofOrdinal (ord year : Nat) : Option Date :=
  (List.range 12).findSome? fun i =>
    if ordinal year (i + 1) 1 ≤ ord then ofParts year (i + 1) (ord + 1 - ordinal year (i + 1) 1)
    else none

/-- `date.fromisocalendar(year, week, day)`; `none` for a `ValueError`. -/
def ofWeek (year week day : Nat) : Option Date :=
  if 1 ≤ year ∧ year ≤ 9999 ∧ 1 ≤ week ∧ week ≤ weeksInYear year ∧ 1 ≤ day ∧ day ≤ 7 then
    [year, year + 1, year - 1].findSome?
      (ofOrdinal (isoWeekOneMonday year + (week - 1) * 7 + (day - 1)))
  else none

/-! ## Texts -/

/-- A number of exactly `n` digits, and the text behind it. -/
def takeDigits (n : Nat) (s : Str) : Option (Nat × Str) :=
  if (s.take n).length = n ∧ (s.take n).all Char.isDigit then
    some (Nat.ofDigitChars 10 (s.take n) 0, s.drop n)
  else none

/-- The text behind the dash that the extended format has between two parts. -/
def takeDash (extended : Bool) (s : Str) : Option Str :=
  if extended then (if s.head? = some '-' then some s.tail else none) else some s

/-- The text is used up. -/
def atEnd (s : Str) (d : Option Date) : Option Date := if s = [] then d else none

/-- What follows the `W` of a week date. -/
def readWeek (extended : Bool) (year : Nat) (s : Str) : Option Date := do
  let (week, s) ← takeDigits 2 s
  if s = [] then ofWeek year week 1
  else
    let s ← takeDash extended s
    let (day, s) ← takeDigits 1 s
    atEnd s (ofWeek year week day)

def readMonth (extended : Bool) (year : Nat) (s : Str) : Option Date := do
  let (month, s) ← takeDigits 2 s
  let s ← takeDash extended s
  let (day, s) ← takeDigits 2 s
  atEnd s (ofParts year month day)

/-- `date.fromisoformat(s)`; `none` for a `ValueError`. -/
def fromIsoformat (s : Str) : Option Date := do
  let (year, s) ← takeDigits 4 s
  let extended := decide (s.head? = some '-')
  let s ← takeDash extended s
  if s.head? = some 'W' then readWeek extended year s.tail else readMonth extended year s

theorem padStr_length {width n : Nat} (hw : 0 < width) (hn : n < 10 ^ width) :
    (padStr width n).length = width := by
  have hle : (natStr n).length ≤ width := (Nat.length_toDigits_le_iff (by decide) hw).mpr hn
  rw [padStr, List.length_append, List.length_replicate]
  omega

theorem all_isDigit_padStr (width n : Nat) : (padStr width n).all Char.isDigit = true := by
  rw [padStr, List.all_append, Bool.and_eq_true]
  constructor
  · exact List.all_eq_true.mpr fun c hc => by rw [List.eq_of_mem_replicate hc]; rfl
  · exact List.all_eq_true.mpr fun c hc =>
      Nat.isDigit_of_mem_toDigits (by decide) (by decide) hc

/-- A padded number is read back. -/
theorem takeDigits_padStr {width n : Nat} (hw : 0 < width) (hn : n < 10 ^ width) (rest : Str) :
    takeDigits width (padStr width n ++ rest) = some (n, rest) := by
  have hlen := padStr_length hw hn
  have htake : (padStr width n ++ rest).take width = padStr width n := by
    rw [List.take_append_of_le_length hlen.ge, List.take_of_length_le hlen.le]
  have hdrop : (padStr width n ++ rest).drop width = rest := by
    rw [List.drop_append_of_le_length hlen.ge, List.drop_of_length_le hlen.le, List.nil_append]
  rw [takeDigits, htake, hdrop, if_pos ⟨hlen, all_isDigit_padStr width n⟩, padStr,
    Nat.ofDigitChars_append, Nat.ofDigitChars_replicate_zero, Nat.mul_zero]
  exact congrArg (fun m => some (m, rest)) Nat.ofDigitChars_ten_toDigits

theorem ofParts_self (d : Date) : ofParts d.year d.month d.day = some d :=
  dif_pos ⟨d.year_mem, d.month_mem, d.day_mem⟩

/-- The text of a date reads as the date. -/
theorem fromIsoformat_isoformat (d : Date) : fromIsoformat d.isoformat = some d := by
  have hyear := d.year_mem
  have hmonth := d.month_mem
  have hday := d.day_mem.2.trans (daysInMonth_le _ _)
  have hiso : d.isoformat =
      padStr 4 d.year ++ '-' :: (padStr 2 d.month ++ '-' :: padStr 2 d.day) := by
    simp [isoformat]
  have hread := @takeDigits_padStr 4 d.year (by decide) (by omega)
    ('-' :: (padStr 2 d.month ++ '-' :: padStr 2 d.day))
  have hread' := @takeDigits_padStr 2 d.month (by decide) (by omega) ('-' :: padStr 2 d.day)
  have hread'' := @takeDigits_padStr 2 d.day (by decide) (by omega) []
  -- a month starts with a digit, not with the `W` of a week
  have hhead : (padStr 2 d.month ++ '-' :: padStr 2 d.day).head? ≠ some 'W' := by
    obtain ⟨c, cs, hc⟩ : ∃ c cs, padStr 2 d.month = c :: cs :=
      List.exists_cons_of_length_pos (by rw [padStr_length (by decide) (by omega)]; decide)
    have hdigit := List.all_eq_true.mp (all_isDigit_padStr 2 d.month) c (by simp [hc])
    rw [hc]
    rintro h
    cases Option.some.inj h
    exact absurd hdigit (by decide)
  rw [List.append_nil] at hread''
  rw [hiso, fromIsoformat, hread]
  simp only [Option.bind_eq_bind, Option.bind_some, List.head?_cons, decide_true, takeDash,
    if_true, List.tail_cons, if_neg hhead]
  rw [readMonth, hread']
  simp only [Option.bind_eq_bind, Option.bind_some, List.head?_cons, takeDash, if_true,
    List.tail_cons]
  rw [hread'']
  simp only [Option.bind_some, atEnd, if_true]
  exact ofParts_self d

theorem takeDigits_some {n : Nat} {s : Str} {p : Nat × Str} (h : takeDigits n s = some p) :
    (s.take n).length = n ∧ (s.take n).all Char.isDigit = true := by
  unfold takeDigits at h
  split at h
  · rename_i hd
    exact hd
  · cases h

/-- What is read holds a digit. -/
theorem exists_digit_of_fromIsoformat {s : Str} {d : Date} (h : fromIsoformat s = some d) :
    ∃ c ∈ s, c.isDigit = true := by
  obtain ⟨p, hp, -⟩ := Option.bind_eq_some_iff.mp h
  obtain ⟨hlen, hall⟩ := takeDigits_some hp
  obtain ⟨c, cs, hc⟩ : ∃ c cs, s.take 4 = c :: cs :=
    List.exists_cons_of_length_pos (by rw [hlen]; decide)
  have hmem : c ∈ s.take 4 := by simp [hc]
  exact ⟨c, List.mem_of_mem_take hmem, List.all_eq_true.mp hall c hmem⟩

/-- The first and the last week of 2020. -/
example : (fromIsoformat "2020-W01-1").map isoformat = some "2019-12-30".toList ∧
    (fromIsoformat "2020W537").map isoformat = some "2021-01-03".toList := by
  decide +kernel

end KnowledgeKiln.Core.Date
