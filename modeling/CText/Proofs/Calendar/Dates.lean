import CText.Calendar
import Mathlib.Data.Int.Order.Basic
import Mathlib.Data.Prod.Lex
import Mathlib.Data.Set.Card

/-!
# The calendar

A date of the Gregorian calendar is a year, a month of it and a day of that month; a year is a leap
year if four divides its number, but of the full hundreds only those that four hundred divides. The
dates stand in order, and how many days one date lies after another is how many dates there are from
the other up to it. This says nothing of how a date is computed. Every date has a next one, with
none between the two, so that dates can be counted one by one.
-/

namespace CText.Calendar

def IsLeap (year : Int) : Prop := 4 ∣ year ∧ (100 ∣ year → 400 ∣ year)

instance (year : Int) : Decidable (IsLeap year) := inferInstanceAs (Decidable (_ ∧ _))

def monthLength (year : Int) (month : Nat) : Nat :=
  if month = 2 then if IsLeap year then 29 else 28
  else if month ∈ [4, 6, 9, 11] then 30 else 31

theorem monthLength_pos (year : Int) (month : Nat) : 1 ≤ monthLength year month := by
  unfold monthLength
  split
  · split <;> decide
  · split <;> decide

namespace Date

/-- A month of twelve, and a day that the month has. -/
structure Valid (date : Date) : Prop where
  month_pos : 1 ≤ date.month
  month_le : date.month ≤ 12
  day_pos : 1 ≤ date.day
  day_le : date.day ≤ monthLength date.year date.month

/-- What dates are ordered by: the year first, the day last. -/
def key (date : Date) : ℤ ×ₗ ℕ ×ₗ ℕ := toLex (date.year, toLex (date.month, date.day))

theorem key_injective : Function.Injective key := by
  intro a b h
  cases a
  cases b
  cases h
  rfl

instance : LinearOrder Date := LinearOrder.lift' key key_injective

def epoch : Date := ⟨1970, 1, 1⟩

/-- The dates from the first of January 1970 up to a date, the date itself not counted. -/
def daysUpTo (date : Date) : Set Date := {e | e.Valid ∧ epoch ≤ e ∧ e < date}

def LiesAfter (n : Nat) (date : Date) : Prop := epoch ≤ date ∧ date.daysUpTo.encard = n

def next (date : Date) : Date :=
  if date.day < monthLength date.year date.month then { date with day := date.day + 1 }
  else if date.month < 12 then ⟨date.year, date.month + 1, 1⟩
  else ⟨date.year + 1, 1, 1⟩

variable {a b : Date}

theorem lt_iff : a < b ↔
    a.year < b.year ∨
      a.year = b.year ∧ (a.month < b.month ∨ a.month = b.month ∧ a.day < b.day) := by
  change a.key < b.key ↔ _
  rw [key, key, Prod.Lex.toLex_lt_toLex, Prod.Lex.toLex_lt_toLex]

/-! ## One date after the other -/

theorem Valid.next (h : a.Valid) : a.next.Valid := by
  obtain ⟨hpos, hle, hday, hlen⟩ := h
  unfold Date.next
  split
  next hmore => exact ⟨hpos, hle, Nat.le_add_left 1 _, hmore⟩
  next =>
    split
    next hmonth => exact ⟨Nat.le_add_left 1 _, hmonth, Nat.le_refl 1, monthLength_pos _ _⟩
    next => exact ⟨Nat.le_refl 1, Nat.le_add_left 1 11, Nat.le_refl 1, monthLength_pos _ _⟩

theorem lt_next (a : Date) : a < a.next := by
  rw [lt_iff, next]
  split
  next => exact .inr ⟨rfl, .inr ⟨rfl, Nat.lt_succ_self _⟩⟩
  next =>
    split
    next => exact .inr ⟨rfl, .inl (Nat.lt_succ_self _)⟩
    next => exact .inl (Int.lt_succ _)

/-- No date stands between a date and the next one. -/
theorem le_of_lt_next (ha : a.Valid) (hb : b.Valid) (h : b < a.next) : b ≤ a := by
  obtain ⟨hpos, hle, hday, hlen⟩ := hb
  by_contra hlt
  rw [not_le, lt_iff] at hlt
  rw [lt_iff, next] at h
  split at h
  next =>
    dsimp only at h
    omega
  next hlast =>
    split at h
    next =>
      dsimp only at h
      have hsame : a.year = b.year ∧ a.month = b.month ∧ a.day < b.day := by omega
      rw [← hsame.1, ← hsame.2.1] at hlen
      omega
    next =>
      dsimp only at h
      have hmonth := ha.month_le
      have hsame : a.year = b.year ∧ a.month = b.month ∧ a.day < b.day := by omega
      rw [← hsame.1, ← hsame.2.1] at hlen
      omega

/-! ## Counting -/

theorem daysUpTo_epoch : epoch.daysUpTo = ∅ := by
  rw [Set.eq_empty_iff_forall_notMem]
  rintro e ⟨-, hle, hlt⟩
  exact absurd hlt (not_lt.2 hle)

theorem notMem_daysUpTo (a : Date) : a ∉ a.daysUpTo := fun h => lt_irrefl a h.2.2

theorem daysUpTo_next (ha : a.Valid) (h : epoch ≤ a) :
    a.next.daysUpTo = insert a a.daysUpTo := by
  ext e
  rw [Set.mem_insert_iff]
  constructor
  · rintro ⟨he, hle, hlt⟩
    rcases (le_of_lt_next ha he hlt).eq_or_lt with heq | hbefore
    · exact .inl heq
    · exact .inr ⟨he, hle, hbefore⟩
  · rintro (rfl | ⟨he, hle, hlt⟩)
    · exact ⟨ha, h, e.lt_next⟩
    · exact ⟨he, hle, hlt.trans a.lt_next⟩

/-- The next day lies one day further. -/
theorem LiesAfter.next {n : Nat} (ha : a.Valid) (h : LiesAfter n a) :
    LiesAfter (n + 1) a.next := by
  refine ⟨h.1.trans a.lt_next.le, ?_⟩
  rw [daysUpTo_next ha h.1, Set.encard_insert_of_notMem a.notMem_daysUpTo, h.2, Nat.cast_succ]

/-- A date with another one behind it has fewer dates in front of it. -/
theorem LiesAfter.le {n : Nat} (hb : b.Valid) (h : LiesAfter n a) (h' : LiesAfter n b) :
    a ≤ b := by
  by_contra hlt
  have hsubset : insert b b.daysUpTo ⊆ a.daysUpTo := by
    rw [Set.insert_subset_iff]
    exact ⟨⟨hb, h'.1, not_le.1 hlt⟩, fun e he => ⟨he.1, he.2.1, he.2.2.trans (not_le.1 hlt)⟩⟩
  have hcard := Set.encard_le_encard hsubset
  rw [Set.encard_insert_of_notMem b.notMem_daysUpTo, h.2, h'.2] at hcard
  exact absurd (Nat.cast_le.1 hcard) (Nat.not_succ_le_self n)

/-- Of the dates that lie equally far there is only one. -/
theorem LiesAfter.unique {n : Nat} (ha : a.Valid) (hb : b.Valid) (h : LiesAfter n a)
    (h' : LiesAfter n b) : a = b :=
  le_antisymm (h.le hb h') (h'.le ha h)

end Date

end CText.Calendar
