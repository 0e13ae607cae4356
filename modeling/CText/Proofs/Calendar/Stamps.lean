import CText.Proofs.Checked.Calendar
import CText.Proofs.Text.Padded

/-!
# Times as texts

The text of a time tells the date and the time of day from the year down to the thousandths of a
second, each number with as many digits in every text, as long as the year has four. So the texts
stand in the order of the times. Nothing is said of later years: their texts are longer.
-/

namespace CText.Calendar

open Checked (reckon dateOfDays)
open Text

namespace Date

variable {a b : Date}

theorem eq_iff : a = b ↔ a.year = b.year ∧ a.month = b.month ∧ a.day = b.day := by
  constructor
  · rintro rfl
    exact ⟨rfl, rfl, rfl⟩
  · rintro ⟨hyear, hmonth, hday⟩
    cases a
    cases b
    cases hyear
    cases hmonth
    cases hday
    rfl

/-- A date of the calendar whose year has four digits at the most. -/
structure Short (date : Date) : Prop where
  valid : date.Valid
  year_nonneg : 0 ≤ date.year
  year_le : date.year ≤ 9999

theorem Valid.day_lt (h : a.Valid) : a.day < 32 := by
  have hday := h.day_le
  unfold monthLength at hday
  split_ifs at hday <;> omega

theorem short_ofDays {n : Nat} (h : (ofDays n).year ≤ 9999) : (ofDays n).Short := by
  have hafter := (liesAfter_ofDays n).1
  rw [← not_lt, lt_iff] at hafter
  have hepoch : epoch.year = 1970 := rfl
  exact ⟨valid_ofDays n, by omega, h⟩

end Date

theorem yearChars_append_lt_iff {y z : Int} {s t : List Char} (hy : 0 ≤ y ∧ y ≤ 9999)
    (hz : 0 ≤ z ∧ z ≤ 9999) : yearChars y ++ s < yearChars z ++ t ↔ y < z ∨ y = z ∧ s < t := by
  obtain ⟨m, rfl⟩ := Int.eq_ofNat_of_zero_le hy.1
  obtain ⟨n, rfl⟩ := Int.eq_ofNat_of_zero_le hz.1
  have hchars (k : Nat) : yearChars k = padded 4 k := rfl
  rw [hchars, hchars, padded_append_lt_iff (by decide) (by omega) (by omega), Int.ofNat_lt,
    Int.natCast_inj]

/-- The texts of times of day on given dates are in the order of the dates and the times. -/
theorem stampChars_lt_iff {a b : Date} {r s m n : Nat} (ha : a.Short) (hb : b.Short)
    (hr : r < 86400) (hs : s < 86400) (hm : m < 1000) (hn : n < 1000) :
    stampChars a r m < stampChars b s n ↔ a < b ∨ a = b ∧ (r < s ∨ r = s ∧ m < n) := by
  have hmonth := ha.valid.month_le
  have hmonth' := hb.valid.month_le
  have hday := ha.valid.day_lt
  have hday' := hb.valid.day_lt
  have hend : ¬ ['Z'] < ['Z'] := by decide
  unfold stampChars
  simp only [List.append_assoc, List.cons_append]
  rw [yearChars_append_lt_iff ⟨ha.year_nonneg, ha.year_le⟩ ⟨hb.year_nonneg, hb.year_le⟩,
    cons_padded_append_lt_iff (by decide) (by omega) (by omega),
    cons_padded_append_lt_iff (by decide) (by omega) (by omega),
    cons_padded_append_lt_iff (by decide) (by omega) (by omega),
    cons_padded_append_lt_iff (by decide) (by omega) (by omega),
    cons_padded_append_lt_iff (by decide) (by omega) (by omega),
    cons_padded_append_lt_iff (by decide) (by omega) (by omega)]
  simp only [hend, and_false, or_false]
  rw [Date.lt_iff, Date.eq_iff]
  omega

/-- As far as a clock of 64 bits counts, a day number has the one date of the calendar that lies so
many days after the first of January 1970, and it is worked out without a number that leaves its
width or loses bits when its width is changed. Up to the year 9999 the texts of times stand in the
order of the times. -/
theorem stamps_exact_and_sorted :
    (∀ days : Nat, days ≤ (2 ^ 64 - 1) / 86400 →
      (∃ r, reckon days = .ok r ∧ r.Kept) ∧ dateOfDays days = .ok (Date.ofDays days) ∧
        ∀ date : Date, date.Valid ∧ date.LiesAfter days ↔ date = Date.ofDays days) ∧
    (∀ seconds millis : Nat, seconds < 2 ^ 64 →
      Checked.takenSigned (seconds / 86400) = (seconds / 86400 : Nat) ∧
        Checked.utcChars seconds millis = .ok (utcChars seconds millis)) ∧
    ∀ seconds millis seconds' millis' : Nat, millis < 1000 → millis' < 1000 →
      (Date.ofDays (seconds / 86400 : Nat)).year ≤ 9999 →
      (Date.ofDays (seconds' / 86400 : Nat)).year ≤ 9999 →
      (String.ofList (utcChars seconds millis) < String.ofList (utcChars seconds' millis') ↔
        seconds < seconds' ∨ seconds = seconds' ∧ millis < millis') := by
  refine ⟨?_, ?_, ?_⟩
  · intro days hdays
    obtain ⟨hkept, hdate⟩ := Checked.dateOfDays_eq hdays
    exact ⟨hkept, hdate, liesAfter_iff days⟩
  · intro seconds millis hseconds
    exact ⟨Checked.takenSigned_eq (by omega), Checked.utcChars_eq hseconds millis⟩
  · intro seconds millis seconds' millis' hmillis hmillis' hyear hyear'
    have hrest := Nat.mod_lt seconds (show 86400 > 0 by decide)
    have hrest' := Nat.mod_lt seconds' (show 86400 > 0 by decide)
    rw [String.lt_iff, String.toList_ofList, String.toList_ofList, utcChars, utcChars,
      stampChars_lt_iff (Date.short_ofDays hyear) (Date.short_ofDays hyear') hrest hrest' hmillis
        hmillis', ofDays_lt_iff, ofDays_inj]
    omega

theorem stamps_leap_day :
    11016 ≤ (2 ^ 64 - 1) / 86400 ∧ 951827696 < 2 ^ 64 ∧
      (∀ date : Date, date.Valid ∧ date.LiesAfter 11016 ↔ date = ⟨2000, 2, 29⟩) ∧
      Checked.utcChars 951827696 7 = .ok "2000-02-29T12:34:56.007Z".toList ∧
      String.ofList (utcChars 951827696 7) < String.ofList (utcChars 951868800 0) := by
  obtain ⟨hdates, hwidths, horder⟩ := stamps_exact_and_sorted
  have hdays : 11016 ≤ (2 ^ 64 - 1) / 86400 := by decide
  have hseconds : 951827696 < 2 ^ 64 := by decide
  have hyear : (Date.ofDays (951827696 / 86400 : Nat)).year ≤ 9999 := by decide
  have hyear' : (Date.ofDays (951868800 / 86400 : Nat)).year ≤ 9999 := by decide
  refine ⟨hdays, hseconds, (hdates 11016 hdays).2.2, (hwidths 951827696 7 hseconds).2, ?_⟩
  exact (horder 951827696 7 951868800 0 (by decide) (by decide) hyear hyear').2 (.inl (by decide))

end CText.Calendar
