import CText.Proofs.Calendar.Dates
import Mathlib.Order.Monotone.Basic
import Mathlib.Tactic.IntervalCases
import Mathlib.Tactic.Ring

/-!
# Dates from day numbers

The computation reckons in years that begin in March and in eras of four hundred years. It finds the
year of an era by a division that would be off by the leap days, had these not been taken away
before; a month it finds by a line through the lengths of the months. Both come out right on every
day: the date of a day number is a date of the calendar, and that of the next number is the next
date.
-/

namespace CText.Calendar

/-! ## Years that begin in March -/

/-- How many days the year has that begins in March; the leap day at its end counts for the year in
which it lies. -/
def marchLength (year : Int) : Nat := if IsLeap (year + 1) then 366 else 365

/-- The days before a year that begins in March, counted from the year 0. -/
def marchStart (year : Int) : Int := 365 * year + year / 4 - year / 100 + year / 400

theorem marchLength_cases (year : Int) :
    marchLength year = 365 ∧ ¬ IsLeap (year + 1) ∨ marchLength year = 366 ∧ IsLeap (year + 1) := by
  unfold marchLength
  split
  next h => exact .inr ⟨rfl, h⟩
  next h => exact .inl ⟨rfl, h⟩

theorem marchLength_bounds (year : Int) : 365 ≤ marchLength year ∧ marchLength year ≤ 366 := by
  rcases marchLength_cases year with ⟨hlen, -⟩ | ⟨hlen, -⟩ <;> omega

theorem marchStart_succ (year : Int) :
    marchStart (year + 1) = marchStart year + marchLength year := by
  unfold marchStart
  rcases marchLength_cases year with ⟨hlen, hleap⟩ | ⟨hlen, hleap⟩ <;>
  · unfold IsLeap at hleap
    omega

/-- Every day lies in a year that begins in March. -/
theorem exists_march (n : Int) :
    ∃ (year : Int) (day : Nat), day < marchLength year ∧ n = marchStart year + day := by
  induction n using Int.induction_on with
  | zero => exact ⟨0, 0, by decide, rfl⟩
  | succ n ih =>
    obtain ⟨year, day, hday, hn⟩ := ih
    by_cases hlast : day + 1 < marchLength year
    · exact ⟨year, day + 1, hlast, by omega⟩
    · have hnext := marchStart_succ year
      have hlen := marchLength_bounds (year + 1)
      exact ⟨year + 1, 0, by omega, by omega⟩
  | pred n ih =>
    obtain ⟨year, day, hday, hn⟩ := ih
    cases day with
    | succ day => exact ⟨year, day, by omega, by omega⟩
    | zero =>
      have hnext := marchStart_succ (year - 1)
      have hlen := marchLength_bounds (year - 1)
      rw [Int.sub_add_cancel] at hnext
      exact ⟨year - 1, marchLength (year - 1) - 1, by omega, by omega⟩

/-- Of the quotients by 36524 and 146096 the first tells the hundreds of years, but for the last day
of an era, where both are one too many. -/
theorem hundreds_eq {c days : Nat} (hc : c < 4) (h : days < 36524 ∨ c = 3 ∧ days = 36524) :
    (36524 * c + days) / 36524 = c + (36524 * c + days) / 146096 := by
  omega

/-- Four years have a day more than 1460, and a hundred years 24 days more than 25 times 1460. What
these days add to the quotient by 1460 is a day at the most, and that only late in a year. -/
theorem yearOfEra_parts {c q p day : Nat} (hc : c < 4) (hq : q < 25) (hp : p < 4)
    (hday : day ≤ 364 ∨ day = 365 ∧ p = 3 ∧ (q = 24 → c = 3)) :
    yearOfEra (36524 * c + (1461 * q + 365 * p + day)) = 100 * c + 4 * q + p := by
  have hsplit : 36524 * c + (1461 * q + 365 * p + day) =
      (24 * c + q + 365 * p + day) + (25 * c + q) * 1460 := by
    ring
  have hfours : (36524 * c + (1461 * q + 365 * p + day)) / 1460 =
      (24 * c + q + 365 * p + day) / 1460 + (25 * c + q) := by
    rw [hsplit, Nat.add_mul_div_right _ _ (by decide)]
  have hextra : (24 * c + q + 365 * p + day) / 1460 ≤ day ∧
      day < 365 + (24 * c + q + 365 * p + day) / 1460 := by
    omega
  have hyears : 36524 * c + (1461 * q + 365 * p + day) -
      ((24 * c + q + 365 * p + day) / 1460 + (25 * c + q)) + c =
        day - (24 * c + q + 365 * p + day) / 1460 + (100 * c + 4 * q + p) * 365 := by
    omega
  rw [yearOfEra, hfours, hundreds_eq hc (by omega), ← Nat.add_assoc, Nat.add_sub_cancel, hyears,
    Nat.add_mul_div_right _ _ (by decide), Nat.div_eq_of_lt (by omega), Nat.zero_add]

/-- The year of an era is found on every day of it. -/
theorem yearOfEra_eq {year day : Nat} (era : Int) (hyear : year < 400)
    (hday : day < marchLength (era * 400 + year)) : yearOfEra (eraStart year + day) = year := by
  obtain ⟨c, q, p, hc, hq, hp, rfl⟩ :
      ∃ c q p, c < 4 ∧ q < 25 ∧ p < 4 ∧ year = 100 * c + 4 * q + p :=
    ⟨year / 100, year % 100 / 4, year % 4, by omega, by omega, by omega, by omega⟩
  have hstart : eraStart (100 * c + 4 * q + p) + day =
      36524 * c + (1461 * q + 365 * p + day) := by
    unfold eraStart
    omega
  rw [hstart]
  apply yearOfEra_parts hc hq hp
  rcases marchLength_cases (era * 400 + (100 * c + 4 * q + p : Nat)) with
    ⟨hlen, -⟩ | ⟨hlen, hleap⟩
  · omega
  · unfold IsLeap at hleap
    omega

/-! ## Months from March on -/

/-- The days before the end of a month in a year that begins in March. -/
def monthEnd (year : Int) (month : Nat) : Nat :=
  if month = 11 then marchLength year else monthStart (month + 1)

/-- A date by the year that begins in March, the month of it and the day. -/
def Date.inMarchYear (year : Int) (month day : Nat) : Date :=
  if month < 10 then ⟨year, month + 3, day⟩ else ⟨year + 1, month - 9, day⟩

variable {year : Int} {month day : Nat}

/-- Every day lies in a month. -/
theorem exists_month (h : day < marchLength year) :
    ∃ month ≤ 11, monthStart month ≤ day ∧ day < monthEnd year month := by
  have hlength := marchLength_bounds year
  refine ⟨(5 * day + 2) / 153, by omega, ?_, ?_⟩
  · unfold monthStart
    omega
  · unfold monthEnd monthStart
    split
    · exact h
    · omega

/-- The computed month is the one that the day lies in. -/
theorem month_eq (hstart : monthStart month ≤ day) (hend : day < monthEnd year month) :
    (5 * day + 2) / 153 = month := by
  have hlength := marchLength_bounds year
  unfold monthStart at hstart
  unfold monthEnd monthStart at hend
  split at hend <;> omega

theorem ofMarch_eq (hmonth : month ≤ 11) (hstart : monthStart month ≤ day)
    (hend : day < monthEnd year month) :
    Date.ofMarch year day = .inMarchYear year month (day - monthStart month + 1) := by
  unfold Date.ofMarch Date.inMarchYear
  rw [month_eq hstart hend]
  by_cases hten : month < 10
  · have hlate : ¬ month + 3 ≤ 2 := by omega
    simp only [if_pos hten, if_neg hlate, Int.add_zero]
  · have hearly : month - 9 ≤ 2 := by omega
    simp only [if_neg hten, if_pos hearly]

/-- A month reaches from its start to its end. -/
theorem monthStart_add_monthLength (year : Int) (day : Nat) (hmonth : month ≤ 11) :
    monthStart month + monthLength (Date.inMarchYear year month day).year
      (Date.inMarchYear year month day).month = monthEnd year month := by
  have hfebruary : 337 + monthLength (year + 1) 2 = marchLength year := by
    unfold monthLength marchLength
    rw [if_pos rfl]
    split <;> rfl
  rcases Nat.lt_or_eq_of_le hmonth with hbefore | rfl
  · interval_cases month <;> rfl
  · exact hfebruary

theorem valid_inMarchYear (hmonth : month ≤ 11) (hday : 1 ≤ day)
    (hend : monthStart month + day ≤ monthEnd year month) :
    (Date.inMarchYear year month day).Valid := by
  have hlength := monthStart_add_monthLength year day hmonth
  have hfields : 1 ≤ (Date.inMarchYear year month day).month ∧
      (Date.inMarchYear year month day).month ≤ 12 ∧
      (Date.inMarchYear year month day).day = day := by
    unfold Date.inMarchYear
    split <;> exact ⟨by dsimp only; omega, by dsimp only; omega, rfl⟩
  constructor <;> omega

/-- The next day is in the same month, in the next one, or in the March that follows. -/
theorem next_inMarchYear (hmonth : month ≤ 11) :
    (Date.inMarchYear year month day).next =
      if monthStart month + day < monthEnd year month then .inMarchYear year month (day + 1)
      else if month < 11 then .inMarchYear year (month + 1) 1
      else .inMarchYear (year + 1) 0 1 := by
  have hlength := monthStart_add_monthLength year day hmonth
  have hday : (Date.inMarchYear year month day).day = day := by
    unfold Date.inMarchYear
    split <;> rfl
  have hmore : monthStart month + day < monthEnd year month ↔
      (Date.inMarchYear year month day).day < monthLength (Date.inMarchYear year month day).year
        (Date.inMarchYear year month day).month := by
    omega
  rw [Date.next]
  split
  next hwithin =>
    rw [if_pos (hmore.2 hwithin)]
    unfold Date.inMarchYear
    split <;> rfl
  next hlast =>
    rw [if_neg (mt hmore.1 hlast)]
    clear hlength hday hmore hlast
    interval_cases month <;> rfl

/-! ## Day after day -/

/-- An era, a year of it and a day of the year are found on every day. -/
theorem era_eq {n : Int} (hday : day < marchLength year) (hn : n = marchStart year + day) :
    n / 146097 = year / 400 ∧ (n % 146097).toNat = eraStart (year % 400).toNat + day ∧
      yearOfEra (eraStart (year % 400).toNat + day) = (year % 400).toNat := by
  have hyear : (year / 400) * 400 + ((year % 400).toNat : Int) = year := by omega
  have hstart : marchStart year = 146097 * (year / 400) + eraStart (year % 400).toNat := by
    unfold marchStart eraStart
    omega
  have hrange : eraStart (year % 400).toNat + day < 146097 := by
    have hlength := marchLength_cases year
    unfold IsLeap at hlength
    unfold eraStart
    omega
  exact ⟨by omega, by omega, yearOfEra_eq (year / 400) (by omega) (by rwa [hyear])⟩

theorem ofDays_eq {n : Int} (hday : day < marchLength year)
    (hn : n + 719468 = marchStart year + day) : Date.ofDays n = .ofMarch year day := by
  obtain ⟨hera, hdayOfEra, hyear⟩ := era_eq hday hn
  have hparts : ((year % 400).toNat : Int) + year / 400 * 400 = year := by omega
  unfold Date.ofDays
  dsimp only
  rw [hera, hdayOfEra, hyear, hparts, Nat.add_sub_cancel_left]

theorem monthEnd_le (year : Int) (hmonth : month ≤ 11) : monthEnd year month ≤ marchLength year := by
  have hlength := marchLength_bounds year
  unfold monthEnd monthStart
  split <;> omega

theorem monthStart_lt_monthEnd (year : Int) (hmonth : month ≤ 11) :
    monthStart month < monthEnd year month := by
  have hlength := monthStart_add_monthLength year 1 hmonth
  have hpos := monthLength_pos (Date.inMarchYear year month 1).year
    (Date.inMarchYear year month 1).month
  omega

/-- A day number has the date that its year and its month from March on give it. -/
theorem ofDays_inMarchYear {n : Int} (hmonth : month ≤ 11)
    (hend : monthStart month + day < monthEnd year month)
    (hn : n + 719468 = marchStart year + (monthStart month + day : Nat)) :
    Date.ofDays n = .inMarchYear year month (day + 1) := by
  have hle := monthEnd_le year hmonth
  rw [ofDays_eq (by omega) hn, ofMarch_eq hmonth (Nat.le_add_right _ _) hend,
    Nat.add_sub_cancel_left]

/-- Every day number has a year and a month from March on. -/
theorem exists_inMarchYear (n : Int) :
    ∃ (year : Int) (month day : Nat), month ≤ 11 ∧ monthStart month + day < monthEnd year month ∧
      n + 719468 = marchStart year + (monthStart month + day : Nat) := by
  obtain ⟨year, dayOfYear, hday, hn⟩ := exists_march (n + 719468)
  obtain ⟨month, hmonth, hstart, hend⟩ := exists_month hday
  exact ⟨year, month, dayOfYear - monthStart month, hmonth, by omega, by omega⟩

/-- Day numbers have dates of the calendar. -/
theorem valid_ofDays (n : Int) : (Date.ofDays n).Valid := by
  obtain ⟨year, month, day, hmonth, hend, hn⟩ := exists_inMarchYear n
  rw [ofDays_inMarchYear hmonth hend hn]
  exact valid_inMarchYear hmonth (Nat.le_add_left 1 day) hend

/-- The next day number has the next date. -/
theorem ofDays_succ (n : Int) : Date.ofDays (n + 1) = (Date.ofDays n).next := by
  obtain ⟨year, month, day, hmonth, hend, hn⟩ := exists_inMarchYear n
  rw [ofDays_inMarchYear hmonth hend hn, next_inMarchYear hmonth]
  split
  next hwithin => exact ofDays_inMarchYear hmonth hwithin (by omega)
  next hlast =>
    split
    next hbefore =>
      have hnext : monthEnd year month = monthStart (month + 1) := if_neg (by omega)
      exact ofDays_inMarchYear hbefore (monthStart_lt_monthEnd year hbefore) (by omega)
    next hfebruary =>
      have hnext : monthEnd year month = marchLength year := if_pos (by omega)
      have hyear := marchStart_succ year
      have hmarch : monthStart 0 = 0 := rfl
      exact ofDays_inMarchYear (Nat.zero_le 11) (monthStart_lt_monthEnd _ (Nat.zero_le 11))
        (by omega)

/-! ## All days -/

theorem ofDays_lt_iff {m n : Int} : Date.ofDays m < Date.ofDays n ↔ m < n := by
  have hmono : StrictMono Date.ofDays :=
    strictMono_int_of_lt_succ fun n => ofDays_succ n ▸ (Date.ofDays n).lt_next
  exact hmono.lt_iff_lt

theorem ofDays_inj {m n : Int} : Date.ofDays m = Date.ofDays n ↔ m = n := by
  constructor
  · intro h
    have hlt := ofDays_lt_iff.not.1 h.not_lt
    have hgt := ofDays_lt_iff.not.1 h.not_gt
    omega
  · rintro rfl
    rfl

/-- The date of a day number from 0 on lies that many days after the first of January 1970. -/
theorem liesAfter_ofDays (n : Nat) : (Date.ofDays n).LiesAfter n := by
  induction n with
  | zero =>
    have hepoch : Date.ofDays (0 : Nat) = Date.epoch := rfl
    rw [hepoch]
    exact ⟨le_refl _, by rw [Date.daysUpTo_epoch, Set.encard_empty, Nat.cast_zero]⟩
  | succ n ih =>
    rw [Nat.cast_succ, ofDays_succ]
    exact ih.next (valid_ofDays n)

/-- It is the only date that does. -/
theorem liesAfter_iff (n : Nat) (date : Date) :
    date.Valid ∧ date.LiesAfter n ↔ date = Date.ofDays n := by
  constructor
  · rintro ⟨hvalid, hlies⟩
    exact hlies.unique hvalid (valid_ofDays n) (liesAfter_ofDays n)
  · rintro rfl
    exact ⟨valid_ofDays n, liesAfter_ofDays n⟩

end CText.Calendar
