import CText.Checked.Calendar
import CText.Proofs.Calendar.Reckoning

/-!
# Dates fit their widths

As far as a clock of 64 bits can count, the computation of a date stays far below what a signed
number of 64 bits can hold, no quotient is of a negative number, and month and day are cut to their
width without loss.
-/

namespace CText.Checked

open Calendar

theorem signed_eq {operation : Arithmetic} {n : Int}
    (h : -9223372036854775808 ≤ n ∧ n < 9223372036854775808) : signed operation n = .ok n :=
  if_pos h

theorem takenSigned_eq {n : Nat} (h : n < 9223372036854775808) : takenSigned n = n := by
  unfold takenSigned
  apply Int.bmod_eq_of_le <;> omega

theorem lowBits_eq {n : Nat} (h : n < 4294967296) : lowBits n = n := by
  unfold lowBits
  omega

theorem yearOfEra_eq {n : Nat} (h : n < 146097) : yearOfEra n = .ok (Calendar.yearOfEra n) := by
  have hnonneg : (0 : Int) ≤ n := Int.natCast_nonneg n
  unfold yearOfEra Calendar.yearOfEra
  rw [Int.tdiv_eq_ediv_of_nonneg hnonneg, Int.tdiv_eq_ediv_of_nonneg hnonneg,
    Int.tdiv_eq_ediv_of_nonneg hnonneg, signed_eq (by omega), ok_bind, signed_eq (by omega),
    ok_bind, signed_eq (by omega), ok_bind, Int.tdiv_eq_ediv_of_nonneg (by omega)]
  have hcast : ((n : Int) - n / 1460 + n / 36524 - n / 146096) / 365 =
      ((n - n / 1460 + n / 36524 - n / 146096) / 365 : Nat) := by
    omega
  rw [hcast]
  rfl

theorem eraStart_eq {n : Nat} (h : n < 400) : eraStart n = .ok (Calendar.eraStart n) := by
  have hnonneg : (0 : Int) ≤ n := Int.natCast_nonneg n
  unfold eraStart Calendar.eraStart
  rw [Int.tdiv_eq_ediv_of_nonneg hnonneg, Int.tdiv_eq_ediv_of_nonneg hnonneg,
    signed_eq (by omega), ok_bind, signed_eq (by omega), ok_bind, signed_eq (by omega)]
  have hcast : (365 * (n : Int) + n / 4 - n / 100) = (365 * n + n / 4 - n / 100 : Nat) := by
    omega
  rw [hcast]

theorem monthOfDay_eq {n : Nat} (h : n ≤ 366) : monthOfDay n = .ok ((5 * n + 2) / 153 : Nat) := by
  unfold monthOfDay
  rw [signed_eq (by omega), ok_bind, signed_eq (by omega), ok_bind,
    Int.tdiv_eq_ediv_of_nonneg (by omega)]
  rfl

theorem monthStart_eq {n : Nat} (h : n ≤ 11) : monthStart n = .ok (Calendar.monthStart n) := by
  unfold monthStart Calendar.monthStart
  rw [signed_eq (by omega), ok_bind, signed_eq (by omega), ok_bind,
    Int.tdiv_eq_ediv_of_nonneg (by omega)]
  rfl

/-- A date as it is worked out, if no number leaves its width. -/
theorem reckon_eq {n year : Int} {month day : Nat} (hsmall : 0 ≤ n ∧ n < 9223372036854000000)
    (hmonth : month ≤ 11) (hend : Calendar.monthStart month + day < monthEnd year month)
    (hn : n + 719468 = marchStart year + (Calendar.monthStart month + day : Nat)) :
    reckon n = .ok ⟨year, (if month < 10 then month + 3 else month - 9 : Nat), (day + 1 : Nat)⟩ := by
  have hlength := marchLength_bounds year
  have hdayOfYear := Nat.lt_of_lt_of_le hend (monthEnd_le year hmonth)
  obtain ⟨hera, hdayOfEra, hyear⟩ := era_eq hdayOfYear hn
  have hparts : ((year % 400).toNat : Int) + year / 400 * 400 = year := by omega
  have hnat : (n + 719468) % 146097 =
      (Calendar.eraStart (year % 400).toNat + (Calendar.monthStart month + day) : Nat) := by
    omega
  have hfirst : ((Calendar.eraStart (year % 400).toNat + (Calendar.monthStart month + day) : Nat) :
      Int) - Calendar.eraStart (year % 400).toNat = (Calendar.monthStart month + day : Nat) := by
    omega
  have hsecond : ((Calendar.monthStart month + day : Nat) : Int) - Calendar.monthStart month + 1 =
      (day + 1 : Nat) := by
    omega
  unfold reckon
  rw [signed_eq (by omega), ok_bind]
  dsimp only
  rw [hera, hnat, yearOfEra_eq (by omega), ok_bind, hyear, eraStart_eq (by omega), ok_bind, hfirst,
    signed_eq (by omega), ok_bind, monthOfDay_eq (by omega), ok_bind,
    month_eq (Nat.le_add_right _ _) hend, monthStart_eq hmonth, ok_bind,
    signed_eq (by omega), ok_bind, hsecond, signed_eq (by omega), ok_bind]
  by_cases hten : month < 10
  · rw [if_pos (by omega), if_pos hten, signed_eq (by omega), ok_bind, signed_eq (by omega),
      ok_bind, signed_eq (by omega), ok_bind, hparts]
    rfl
  · have hcast : (month : Int) - 9 = (month - 9 : Nat) := by omega
    rw [if_neg (by omega), if_neg hten, signed_eq (by omega), ok_bind, signed_eq (by omega),
      ok_bind, signed_eq (by omega), ok_bind, hparts, hcast]
    rfl

/-- Whether month and day keep what was worked out for them when they are cut to their width. -/
def Reckoning.Kept (r : Reckoning) : Prop :=
  (lowBits r.month : Int) = r.month ∧ (lowBits r.day : Int) = r.day

theorem dateOfDays_eq {n : Nat} (h : n ≤ (2 ^ 64 - 1) / 86400) :
    (∃ r, reckon n = .ok r ∧ r.Kept) ∧ dateOfDays n = .ok (Date.ofDays n) := by
  obtain ⟨year, month, day, hmonth, hend, hn⟩ := exists_inMarchYear n
  have hlength := marchLength_bounds year
  have hdayOfYear := Nat.lt_of_lt_of_le hend (monthEnd_le year hmonth)
  have hyear : -1000 ≤ year ∧ year ≤ 1000000000000 := by
    unfold marchStart at hn
    omega
  have hrun := reckon_eq (by omega) hmonth hend hn
  generalize hfound : (if month < 10 then month + 3 else month - 9) = calendarMonth at hrun
  have hlow : lowBits (calendarMonth : Int) = calendarMonth :=
    lowBits_eq (by rw [← hfound]; split <;> omega)
  have hlowDay : lowBits ((day + 1 : Nat) : Int) = day + 1 := lowBits_eq (by omega)
  refine ⟨⟨_, hrun, by dsimp only; rw [hlow], by dsimp only; rw [hlowDay]⟩, ?_⟩
  rw [dateOfDays, hrun, ok_bind]
  dsimp only
  rw [hlow, hlowDay, signed_eq (by split <;> omega), ok_bind, ofDays_eq hdayOfYear hn, Date.ofMarch,
    month_eq (Nat.le_add_right _ _) hend, hfound, Nat.add_sub_cancel_left]
  rfl

/-- Times of a clock of 64 bits are written without a step that goes wrong. -/
theorem utcChars_eq {seconds : Nat} (h : seconds < 2 ^ 64) (millis : Nat) :
    utcChars seconds millis = .ok (Calendar.utcChars seconds millis) := by
  have hdays : seconds / 86400 ≤ (2 ^ 64 - 1) / 86400 := by omega
  rw [utcChars, takenSigned_eq (by omega), (dateOfDays_eq hdays).2]
  rfl

end CText.Checked
