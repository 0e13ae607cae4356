import CText.Proofs.Size.Rendering

/-!
# Sizes written and read back over and over

Reading a rendered size loses less than a tenth of the unit and one byte, but it loses it each time:
where a tenth of the unit is no whole number of bytes, the byte that the reader drops is the one
that the next rendering lacks for its last tenth. The unit and the number in front of the decimal
point stay what they are. To the base 1000 nothing is lost after the first rendering. To the base
1024 five tenths are a whole number of bytes, so the decimal place goes down to the next five or
zero and stays there.
-/

namespace CText.Size

/-- A size that is written and read back `k` times. -/
def reloads (base : Base) (n : Nat) : Nat → Except Error Nat
  | 0 => .ok n
  | k + 1 => do
    let p ← reloads base n k
    parse base (render base p)

/-- The tenths that are lost, one each time, when a size with this decimal place is written and read
back. -/
def drift : Base → Nat → Nat
  | .decimal, _ => 0
  | .binary, place => place % 5

def placeText (place : Nat) : List UInt8 :=
  if place = 0 then [] else Ascii.byte '.' :: Ascii.decimal place

def unitText (base : Base) : Nat → List UInt8
  | 0 => [Ascii.byte 'B']
  | power + 1 =>
    let mark := match base with
      | .decimal => []
      | .binary => [Ascii.byte 'i']
    (letters.drop power).take 1 ++ mark ++ [Ascii.byte 'B']

/-- A number with one decimal place and a unit as they are written. -/
def written (base : Base) (power whole place : Nat) : List UInt8 :=
  Ascii.decimal whole ++ placeText place ++ unitText base power

variable {base : Base} {n : Nat}

/-! ## What a rendered size tells -/

/-- Plain bytes have no tenths besides the whole ones. -/
theorem tenthsOf_of_powerOf_eq_zero (h : powerOf base n = 0) : tenthsOf base n = n * 10 := by
  rw [tenthsOf, h, Nat.pow_zero, Nat.div_one]

theorem render_eq_written (base : Base) (n : Nat) :
    render base n =
      written base (powerOf base n) (tenthsOf base n / 10) (tenthsOf base n % 10) := by
  cases hpower : powerOf base n with
  | zero =>
    unfold render
    rw [hpower, tenthsOf_of_powerOf_eq_zero hpower, Nat.mul_div_cancel n (by decide),
      Nat.mul_mod_left, written, placeText, if_pos rfl, List.append_nil]
    rfl
  | succ power =>
    have htenths : n * 10 / Nat.pow base.value (power + 1) = tenthsOf base n := by
      rw [tenthsOf, hpower]
      rfl
    unfold render
    rw [hpower]
    dsimp only
    rw [htenths, written, placeText]
    cases base <;> simp only [unitText, List.append_assoc]

theorem placeText_injective {place other : Nat} (h : placeText place = placeText other) :
    place = other := by
  rw [placeText, placeText] at h
  split at h
  next hplace =>
    split at h
    next hother => rw [hplace, hother]
    next => cases h
  next =>
    split at h
    next => cases h
    next =>
      rw [← numeral_decimal place, ← numeral_decimal other, (List.cons.inj h).2]

theorem written_injective {power whole place other : Nat}
    (h : written base power whole place = written base power whole other) : place = other := by
  rw [written, written, List.append_cancel_right_eq, List.append_cancel_left_eq] at h
  exact placeText_injective h

/-! ## Reading once -/

theorem drift_mod (base : Base) (tenths : Nat) : drift base (tenths % 10) = drift base tenths := by
  cases base with
  | decimal => rfl
  | binary => exact Nat.mod_mod_of_dvd tenths (by decide)

/-- What was lost will not be lost again. -/
theorem drift_sub {tenths lost : Nat} (h : lost ≤ drift base tenths) :
    drift base (tenths - lost) = drift base tenths - lost := by
  cases base with
  | decimal => exact (Nat.zero_sub lost).symm
  | binary =>
    simp only [drift] at h ⊢
    omega

theorem drift_le (base : Base) (place : Nat) : drift base place ≤ 4 ∧ drift base place ≤ place := by
  cases base with
  | decimal => exact ⟨Nat.zero_le _, Nat.zero_le _⟩
  | binary => exact ⟨Nat.le_of_lt_succ (Nat.mod_lt place (by decide)), Nat.mod_le place 5⟩

theorem drift_of_powerOf_eq_zero (h : powerOf base n = 0) : drift base (tenthsOf base n) = 0 := by
  rw [← drift_mod, tenthsOf_of_powerOf_eq_zero h, Nat.mul_mod_left]
  exact Nat.le_zero.1 (drift_le base 0).2

/-- The unit of a size is the one it lies at or above, the next one being above it. -/
theorem powerOf_unique {power : Nat} (hle : base.value ^ power ≤ n)
    (hlt : n < base.value ^ (power + 1)) (h : n < 2 ^ 64) : powerOf base n = power := by
  have hunit := pow_powerOf_le base (Nat.le_trans (base.pow_pos power) hle)
  have hnext := lt_pow_powerOf base h
  rcases Nat.lt_trichotomy (powerOf base n) power with hpower | hpower | hpower
  · have hlarger : base.value ^ (powerOf base n + 1) ≤ base.value ^ power :=
      Nat.pow_le_pow_right base.value_pos hpower
    omega
  · exact hpower
  · have hlarger : base.value ^ (power + 1) ≤ base.value ^ powerOf base n :=
      Nat.pow_le_pow_right base.value_pos hpower
    omega

/-- What is read back has the unit that was written. -/
theorem powerOf_shownValue (h : n < 2 ^ 64) :
    powerOf base (shownValue base n) = powerOf base n := by
  have hle := shownValue_le base n
  rcases Nat.eq_zero_or_pos n with rfl | hpos
  · rw [Nat.le_zero.1 hle]
  · exact powerOf_unique (pow_powerOf_le_shownValue base hpos)
      (Nat.lt_of_le_of_lt hle (lt_pow_powerOf base h)) (Nat.lt_of_le_of_lt hle h)

/-- The tenths that are written are a whole number of bytes if and only if none is going to be
lost. -/
theorem dvd_shown_iff (base : Base) (n : Nat) :
    10 ∣ tenthsOf base n * base.value ^ powerOf base n ↔ drift base (tenthsOf base n) = 0 := by
  cases hpower : powerOf base n with
  | zero =>
    have hten : 10 ∣ tenthsOf base n := Dvd.intro_left n (tenthsOf_of_powerOf_eq_zero hpower).symm
    exact iff_of_true (hten.mul_right _) (drift_of_powerOf_eq_zero hpower)
  | succ power =>
    cases base with
    | decimal =>
      have hten : 10 ∣ Base.decimal.value ^ (power + 1) := dvd_pow (by decide) (Nat.succ_ne_zero _)
      exact iff_of_true (hten.mul_left _) rfl
    | binary =>
      have hcoprime : Nat.Coprime 5 (Base.binary.value ^ (power + 1)) :=
        Nat.Coprime.pow_right _ (by decide)
      have htwo : 2 ∣ Base.binary.value ^ (power + 1) := dvd_pow (by decide) (Nat.succ_ne_zero _)
      have hfive : 5 ∣ tenthsOf .binary n * Base.binary.value ^ (power + 1) ↔
          5 ∣ tenthsOf .binary n :=
        ⟨Nat.Coprime.dvd_of_dvd_mul_right hcoprime, fun h => h.mul_right _⟩
      have heven := htwo.mul_left (tenthsOf .binary n)
      rw [drift]
      omega

/-- A broken byte is less than a tenth of the unit. -/
theorem ten_le_unit (h : drift base (tenthsOf base n) ≠ 0) : 10 ≤ base.value ^ powerOf base n := by
  have hpower : powerOf base n ≠ 0 := mt drift_of_powerOf_eq_zero h
  calc 10
    _ ≤ base.value := by cases base <;> decide
    _ ≤ base.value ^ powerOf base n := Nat.le_self_pow hpower _

/-- Tenths that are cut to whole bytes are one less than they were. -/
theorem cut_tenths {tenths unit : Nat} (hten : 10 ≤ unit) (h : ¬ 10 ∣ tenths * unit) :
    tenths * unit / 10 * 10 / unit = tenths - 1 := by
  cases tenths with
  | zero => exact absurd ((Nat.zero_mul unit).symm ▸ Nat.dvd_zero 10) h
  | succ tenths =>
    rw [Nat.add_sub_cancel]
    rw [Nat.succ_mul] at h ⊢
    have hle : tenths * unit ≤ (tenths * unit + unit) / 10 * 10 := by omega
    have hlt : (tenths * unit + unit) / 10 * 10 < (tenths + 1) * unit := by
      rw [Nat.succ_mul]
      omega
    exact Nat.div_eq_of_lt_le hle hlt

/-- What is read back has the tenths that were written, or one less. -/
theorem tenthsOf_shownValue (h : n < 2 ^ 64) :
    tenthsOf base (shownValue base n) =
      tenthsOf base n - min 1 (drift base (tenthsOf base n)) := by
  rw [tenthsOf, powerOf_shownValue h, shownValue]
  by_cases hdrift : drift base (tenthsOf base n) = 0
  · rw [hdrift, Nat.min_zero, Nat.sub_zero, Nat.div_mul_cancel ((dvd_shown_iff base n).2 hdrift),
      Nat.mul_div_cancel _ (base.pow_pos _)]
  · rw [Nat.min_eq_left (Nat.pos_of_ne_zero hdrift)]
    exact cut_tenths (ten_le_unit hdrift) (mt (dvd_shown_iff base n).1 hdrift)

/-! ## Reading over and over -/

/-- After `k` times the size has its unit, and has lost `k` tenths unless it came to rest before. -/
theorem exists_reloads (base : Base) (h : n < 2 ^ 64) (k : Nat) :
    ∃ p < 2 ^ 64, reloads base n k = .ok p ∧ powerOf base p = powerOf base n ∧
      tenthsOf base p = tenthsOf base n - min k (drift base (tenthsOf base n)) := by
  induction k with
  | zero => exact ⟨n, h, rfl, rfl, by rw [Nat.zero_min, Nat.sub_zero]⟩
  | succ k ih =>
    obtain ⟨p, hp, hread, hpower, htenths⟩ := ih
    refine ⟨shownValue base p, Nat.lt_of_le_of_lt (shownValue_le base p) hp, ?_, ?_, ?_⟩
    · rw [reloads, hread]
      exact parse_render base hp (.inl rfl)
    · rw [powerOf_shownValue hp, hpower]
    · rw [tenthsOf_shownValue hp, htenths, drift_sub (Nat.min_le_right k _)]
      omega

/-- Losing tenths that stand behind the decimal point leaves what stands in front of it. -/
theorem render_of_tenths_lost {p lost : Nat} (hpower : powerOf base p = powerOf base n)
    (htenths : tenthsOf base p = tenthsOf base n - lost) (hlost : lost ≤ tenthsOf base n % 10) :
    render base p =
      written base (powerOf base n) (tenthsOf base n / 10) (tenthsOf base n % 10 - lost) := by
  have hwhole : tenthsOf base p / 10 = tenthsOf base n / 10 := by omega
  have hplace : tenthsOf base p % 10 = tenthsOf base n % 10 - lost := by omega
  rw [render_eq_written, hpower, hwhole, hplace]

/-- A size of 64 bits can be written and read back any number of times, and what is written has the
same unit and the same number in front of the decimal point each time. To the base 1000, and of
plain bytes, it is the same text each time. To the base 1024 the decimal place is one less each time
until it is five or zero, which takes four times at the most; from then on, and not before, the text
stays the same. -/
theorem reloaded_sizes_settle (base : Base) (n : UInt64) :
    ∃ power whole place, place < 10 ∧ (power = 0 → place = 0) ∧ drift base place ≤ 4 ∧
      render base n.toNat = written base power whole place ∧
      ∀ k, ∃ p q, reloads base n.toNat k = .ok p ∧ reloads base n.toNat (k + 1) = .ok q ∧
        render base p = written base power whole (place - min k (drift base place)) ∧
        (render base q = render base p ↔ drift base place ≤ k) := by
  have hn : n.toNat < 2 ^ 64 := n.toNat_lt
  have hplace : tenthsOf base n.toNat % 10 < 10 := Nat.mod_lt _ (by decide)
  obtain ⟨hfour, hdrift⟩ := drift_le base (tenthsOf base n.toNat % 10)
  refine ⟨powerOf base n.toNat, tenthsOf base n.toNat / 10, tenthsOf base n.toNat % 10, hplace, ?_,
    hfour, render_eq_written base _, ?_⟩
  · intro hzero
    rw [tenthsOf_of_powerOf_eq_zero hzero, Nat.mul_mod_left]
  · intro k
    obtain ⟨p, -, hp, hpower, htenths⟩ := exists_reloads base hn k
    obtain ⟨q, -, hq, hpower', htenths'⟩ := exists_reloads base hn (k + 1)
    rw [← drift_mod] at htenths htenths'
    have htext := render_of_tenths_lost hpower htenths (by omega)
    have htext' := render_of_tenths_lost hpower' htenths' (by omega)
    refine ⟨p, q, hp, hq, htext, ?_⟩
    rw [htext, htext']
    constructor
    · intro h
      have := written_injective h
      omega
    · intro h
      rw [Nat.min_eq_right h, Nat.min_eq_right (Nat.le_succ_of_le h)]

/-- A tenth of a kibibyte is read as 102 bytes, which is less than a tenth. -/
theorem reloaded_size_drifts :
    render .binary 1127 = Ascii.bytes "1.1KiB" ∧
      parse .binary (Ascii.bytes "1.1KiB") = .ok 1126 ∧
      render .binary 1126 = Ascii.bytes "1KiB" ∧
      ¬ ∀ (base : Base) (n : UInt64), ∃ p, parse base (render base n.toNat) = .ok p ∧
        render base p = render base n.toNat := by
  have hfirst : render .binary 1127 = Ascii.bytes "1.1KiB" := by decide
  have hsecond : render .binary 1126 = Ascii.bytes "1KiB" := by decide
  have hread : parse .binary (render .binary 1127) = .ok 1126 :=
    parse_render .binary (by decide) (.inl rfl)
  refine ⟨hfirst, hfirst ▸ hread, hsecond, ?_⟩
  intro hfixed
  obtain ⟨p, hp, hsame⟩ := hfixed .binary 1127
  obtain rfl : 1126 = p := Except.ok.inj (hread.symm.trans hp)
  change render .binary 1126 = render .binary 1127 at hsame
  rw [hfirst, hsecond] at hsame
  exact absurd hsame (by decide)

end CText.Size
