import CText.Proofs.Size.Sum
import CText.Size.Printer

/-!
# Rendered sizes are read back

A size is rendered in tenths of a unit, and what is left over of a tenth is dropped. Where ten does
not divide the unit, a tenth is no whole number of bytes either, and the reader drops its broken
byte. So what is read back is never above the size, and falls short of it by less than a tenth of
the unit and one byte. It grows with the size, from one unit to the next as well as within one.
-/

namespace CText.Size

/-! ## Decimal digits -/

theorem digit_byte {c : Char} (h : c.isDigit = true) :
    Ascii.isDigit (Ascii.byte c) = true ∧ digit (Ascii.byte c) = c.toNat - 48 := by
  simp only [Char.isDigit, Bool.and_eq_true, decide_eq_true_eq, UInt32.le_iff_toNat_le] at h
  change 48 ≤ c.toNat ∧ c.toNat ≤ 57 at h
  have hbyte : (Ascii.byte c).toNat = c.toNat := by
    change c.toNat % 256 = c.toNat
    omega
  constructor
  · simp only [Ascii.isDigit, Bool.and_eq_true, decide_eq_true_eq, UInt8.le_iff_toNat_le, hbyte]
    exact h
  · rw [digit, hbyte]

theorem isDigit_of_mem_decimal {n : Nat} {c : UInt8} (h : c ∈ Ascii.decimal n) :
    Ascii.isDigit c = true := by
  obtain ⟨d, hd, rfl⟩ := List.mem_map.1 h
  exact (digit_byte (Nat.isDigit_of_mem_toDigits (by decide) (by decide) hd)).1

theorem decimal_ne_nil (n : Nat) : Ascii.decimal n ≠ [] := by
  rw [Ascii.decimal, ne_eq, List.map_eq_nil_iff]
  exact Nat.toDigits_ne_nil

/-- The decimal digits of a number denote it. -/
theorem numeral_decimal (n : Nat) : numeral (Ascii.decimal n) = n := by
  have hdigits : ∀ (value : Nat) (c : Char), c ∈ Nat.toDigits 10 n →
      value * 10 + digit (Ascii.byte c) = 10 * value + (c.toNat - '0'.toNat) := by
    intro value c hc
    rw [(digit_byte (Nat.isDigit_of_mem_toDigits (by decide) (by decide) hc)).2, Nat.mul_comm]
    rfl
  rw [numeral, Ascii.decimal, List.foldl_map, List.foldl_ext _ _ _ hdigits,
    ← Nat.ofDigitChars_eq_foldl]
  exact Nat.ofDigitChars_toDigits (by decide) (by decide)

theorem grouped_of_digits {marks : Marks} {s : List UInt8}
    (h : ∀ c ∈ s, Ascii.isDigit c = true) (hne : s ≠ []) : Grouped marks s := by
  induction s with
  | nil => exact absurd rfl hne
  | cons c rest ih =>
    rw [List.forall_mem_cons] at h
    cases rest with
    | nil => exact .digit h.1
    | cons d rest => exact .next h.1 (ih h.2 (List.cons_ne_nil d rest))

/-! ## The unit -/

theorem takeWhile_range' (p : Nat → Bool) (start count : Nat) :
    (∀ i < ((List.range' start count).takeWhile p).length, p (start + i) = true) ∧
      (((List.range' start count).takeWhile p).length < count →
        p (start + ((List.range' start count).takeWhile p).length) = false) := by
  induction count generalizing start with
  | zero => simp
  | succ count ih =>
    rw [List.range'_succ, List.takeWhile_cons]
    cases hp : p start with
    | false => simp [hp]
    | true =>
      obtain ⟨htaken, hstop⟩ := ih (start + 1)
      simp only [if_true, List.length_cons]
      constructor
      · intro i hi
        cases i with
        | zero => exact hp
        | succ i =>
          rw [Nat.add_comm i, ← Nat.add_assoc]
          exact htaken i (by omega)
      · intro hcount
        rw [Nat.add_comm _ 1, ← Nat.add_assoc]
        exact hstop (by omega)

variable (base : Base)

theorem powerOf_le (n : Nat) : powerOf base n ≤ 6 :=
  (List.takeWhile_sublist _).length_le

theorem Base.value_pos : 0 < base.value := by
  cases base <;> decide

theorem Base.pow_pos (power : Nat) : 0 < base.value ^ power :=
  Nat.pow_pos base.value_pos

/-- The unit of a size is not larger than the size. -/
theorem pow_powerOf_le {n : Nat} (hpos : 1 ≤ n) : base.value ^ powerOf base n ≤ n := by
  have hrange := (takeWhile_range' (fun k => Nat.pow base.value (k + 1) ≤ n) 0 6).1
  rw [← List.range_eq_range'] at hrange
  cases hpower : powerOf base n with
  | zero => exact hpos
  | succ power =>
    have hlt : power < powerOf base n := by omega
    have htaken := hrange power hlt
    rw [Nat.zero_add, decide_eq_true_eq] at htaken
    exact htaken

/-- The next larger unit is larger than the size. -/
theorem lt_pow_powerOf {n : Nat} (h : n < 2 ^ 64) : n < base.value ^ (powerOf base n + 1) := by
  have hrange := (takeWhile_range' (fun k => Nat.pow base.value (k + 1) ≤ n) 0 6).2
  rw [← List.range_eq_range'] at hrange
  rcases Nat.lt_or_ge (powerOf base n) 6 with hpower | hpower
  · have hstop := hrange hpower
    rw [Nat.zero_add, decide_eq_false_iff_not, Nat.not_le] at hstop
    exact hstop
  · have hlimit : 2 ^ 64 ≤ base.value ^ 7 := by
      cases base <;> decide
    rw [Nat.le_antisymm (powerOf_le base n) hpower]
    exact Nat.lt_of_lt_of_le h hlimit

/-- Which power of the base a unit is, the byte being the power zero. -/
def UnitName.power : UnitName → Nat
  | bytes _ _ => 0
  | scaled _ power _ _ _ _ _ => power

/-! ## What is written -/

/-- The tenths of its unit in a size. -/
def tenthsOf (n : Nat) : Nat := n * 10 / base.value ^ powerOf base n

/-- The whole bytes in the tenths that are written. -/
def shownValue (n : Nat) : Nat := tenthsOf base n * base.value ^ powerOf base n / 10

def shownNumber (n : Nat) : Number Marks.standard where
  whole := Ascii.decimal (tenthsOf base n / 10)
  point := if tenthsOf base n % 10 = 0 then none else some (Ascii.byte '.')
  fraction := if tenthsOf base n % 10 = 0 then [] else Ascii.decimal (tenthsOf base n % 10)
  whole_grouped := .inr (grouped_of_digits (fun _ => isDigit_of_mem_decimal) (decimal_ne_nil _))
  point_mark c hc := by
    split at hc
    · cases hc
    · cases hc
      decide
  fraction_digits c hc := by
    split at hc
    · cases hc
    · exact isDigit_of_mem_decimal hc
  fraction_pointed h := by
    split at h
    · rw [if_pos ‹_›]
    · cases h
  some_digit := .inl (decimal_ne_nil _)

theorem numeral_shownNumber (n : Nat) :
    numeral (shownNumber base n).digits = tenthsOf base n / 10 := by
  have hdigits : (shownNumber base n).digits = Ascii.decimal (tenthsOf base n / 10) :=
    List.filter_eq_self.2 fun _ => isDigit_of_mem_decimal
  rw [hdigits, numeral_decimal]

theorem scaleFraction_shownNumber (n multiplier : Nat) :
    scaleFraction multiplier (shownNumber base n).fraction =
      tenthsOf base n % 10 * multiplier / 10 := by
  have hdigit : ∀ d < 10, d ≠ 0 → Ascii.decimal d = [(48 + d).toUInt8] ∧
      digit (48 + d).toUInt8 = d := by
    decide
  rw [shownNumber]
  dsimp only
  split
  next hzero =>
    rw [hzero, Nat.zero_mul]
    rfl
  next hne =>
    obtain ⟨hdecimal, hvalue⟩ := hdigit _ (Nat.mod_lt _ (by decide)) hne
    rw [hdecimal, scaleFraction, List.foldr_cons, List.foldr_nil, hvalue, Nat.add_zero]

theorem text_shownNumber (n : Nat) :
    (shownNumber base n).text = Ascii.decimal (tenthsOf base n / 10) ++
      (if tenthsOf base n % 10 = 0 then []
      else Ascii.byte '.' :: Ascii.decimal (tenthsOf base n % 10)) := by
  rw [Number.text, shownNumber]
  dsimp only
  split <;> rfl

/-- A rendered size is a number with a unit. Only the base 1024 is told by a mark; the other one is
left to the reader. -/
theorem exists_render (n : Nat) :
    ∃ unit : UnitName, render base n = (shownNumber base n).text ++ unit.text ∧
      unit.power = powerOf base n ∧
      ∀ other, other = base ∨ base = .binary →
        unit.factor other = base.value ^ powerOf base n := by
  have hletters : ∀ power < 6, (letters.drop power).take 1 = [letters.getD power 0] ∧
      (letters.getD power 0, power + 1) ∈ powers := by
    decide
  cases hpower : powerOf base n with
  | zero =>
    have htenths : tenthsOf base n = n * 10 := by rw [tenthsOf, hpower, Nat.pow_zero, Nat.div_one]
    refine ⟨.bytes (Ascii.byte 'B') (by decide), ?_, rfl, fun _ _ => rfl⟩
    unfold render
    rw [hpower, text_shownNumber, htenths, Nat.mul_div_cancel n (by decide),
      if_pos (Nat.mul_mod_left n 10), List.append_nil]
    rfl
  | succ power =>
    obtain ⟨hletter, hmem⟩ := hletters power (by have := powerOf_le base n; omega)
    have hbyte : ∀ c ∈ some (Ascii.byte 'B'), c ∈ Ascii.bytes "Bb" := by
      rintro c ⟨⟩
      decide
    have htenths : n * 10 / Nat.pow base.value (power + 1) = tenthsOf base n := by
      rw [tenthsOf, hpower]
      rfl
    unfold render
    rw [hpower, text_shownNumber]
    dsimp only
    rw [hletter, htenths]
    cases base with
    | decimal =>
      refine ⟨.scaled _ (power + 1) none (some (Ascii.byte 'B')) hmem (by simp) hbyte, ?_, rfl, ?_⟩
      · simp [UnitName.text]
      · rintro other (rfl | h)
        · rfl
        · cases h
    | binary =>
      have hmark : ∀ c ∈ some (Ascii.byte 'i'), c ∈ Ascii.bytes "iI" := by
        rintro c ⟨⟩
        decide
      exact ⟨.scaled _ (power + 1) (some (Ascii.byte 'i')) (some (Ascii.byte 'B')) hmem hmark hbyte,
        by simp [UnitName.text], rfl, fun _ _ => rfl⟩

/-! ## What is read back -/

theorem shownValue_le (n : Nat) : shownValue base n ≤ n := by
  have htenths : tenthsOf base n * base.value ^ powerOf base n ≤ n * 10 := Nat.div_mul_le_self _ _
  rw [shownValue]
  omega

/-- The whole units and the tenths of one can be rounded down apart from each other. -/
theorem whole_add_tenths (tenths unit : Nat) :
    tenths / 10 * unit + tenths % 10 * unit / 10 = tenths * unit / 10 := by
  have hsplit : tenths * unit = tenths / 10 * unit * 10 + tenths % 10 * unit := by
    calc tenths * unit
      _ = (10 * (tenths / 10) + tenths % 10) * unit := by rw [Nat.div_add_mod]
      _ = tenths / 10 * unit * 10 + tenths % 10 * unit := by ring
  rw [hsplit]
  omega

/-- A rendered size is read as the whole bytes in its tenths. -/
theorem parse_render {n : Nat} (h : n < 2 ^ 64) {other : Base}
    (hother : other = base ∨ base = .binary) :
    parse other (render base n) = .ok (shownValue base n) := by
  obtain ⟨unit, htext, -, hfactor⟩ := exists_render base n
  let summand : Summand Marks.standard := .measured (shownNumber base n) [] unit (by simp)
  let size : SizeText Marks.standard :=
    { lead := [], summands := .last summand [] (by simp), lead_space := by simp
      unit_unless_alone := by simp [Summands.toList] }
  have hsize : size.text = render base n := by
    rw [htext]
    simp [size, summand, SizeText.text, Summands.text, Summand.text]
  have hvalue : size.value other = shownValue base n := by
    have hsummand : size.value other = summand.value other := by
      simp [size, SizeText.value, Summands.value, Summands.toList]
    rw [hsummand, Summand.value, Number.floor_value_mul, numeral_shownNumber,
      scaleFraction_shownNumber, hfactor other hother, shownValue, whole_add_tenths]
  have hfits : shownValue base n < 2 ^ 64 := Nat.lt_of_le_of_lt (shownValue_le base n) h
  rw [parse, ← hsize, parseWith_text standard_distinct, counted_bind_size, hvalue, if_pos hfits]

/-- Less than a tenth of the unit and one byte is lost. -/
theorem lost_lt (n : Nat) : 10 * (n - shownValue base n) < base.value ^ powerOf base n + 10 := by
  have hnext : n * 10 <
      tenthsOf base n * base.value ^ powerOf base n + base.value ^ powerOf base n :=
    Nat.lt_div_mul_add (base.pow_pos _)
  rw [shownValue]
  omega

theorem shownValue_of_powerOf_eq_zero {n : Nat} (h : powerOf base n = 0) :
    shownValue base n = n := by
  rw [shownValue, tenthsOf, h, Nat.pow_zero, Nat.div_one, Nat.mul_one,
    Nat.mul_div_cancel n (by decide)]

/-- Every power of 1000 but the first is made of whole tenths, so that no byte of them is broken. -/
theorem lost_lt_decimal (n : Nat) :
    10 * (n - shownValue .decimal n) < Base.decimal.value ^ powerOf .decimal n := by
  rcases Nat.eq_zero_or_pos (powerOf .decimal n) with hzero | hpower
  · rw [shownValue_of_powerOf_eq_zero .decimal hzero, Nat.sub_self]
    exact Base.decimal.pow_pos _
  · have hpos := Base.decimal.pow_pos (powerOf .decimal n)
    have hten : 10 ∣ Base.decimal.value ^ powerOf .decimal n :=
      dvd_pow (by decide) (Nat.pos_iff_ne_zero.1 hpower)
    have hwhole := hten.mul_left (tenthsOf .decimal n)
    have hnext : n * 10 < tenthsOf .decimal n * Base.decimal.value ^ powerOf .decimal n +
        Base.decimal.value ^ powerOf .decimal n :=
      Nat.lt_div_mul_add hpos
    rw [shownValue]
    omega

/-- In front of the decimal point stands a number that the base is too large for. -/
theorem tenthsOf_range {n : Nat} (hpos : 1 ≤ n) (h : n < 2 ^ 64) :
    1 ≤ tenthsOf base n / 10 ∧ tenthsOf base n / 10 < base.value := by
  have hle := pow_powerOf_le base hpos
  have hlt := lt_pow_powerOf base h
  have hwhole : tenthsOf base n / 10 = n / base.value ^ powerOf base n := by
    rw [tenthsOf, Nat.div_div_eq_div_mul, Nat.mul_div_mul_right n _ (by decide)]
  rw [hwhole]
  constructor
  · exact Nat.div_pos hle (base.pow_pos _)
  · rw [Nat.pow_succ, Nat.mul_comm] at hlt
    exact Nat.div_lt_of_lt_mul (by rwa [Nat.mul_comm])

/-- A size is shown as no less than its unit. -/
theorem pow_powerOf_le_shownValue {n : Nat} (hpos : 1 ≤ n) :
    base.value ^ powerOf base n ≤ shownValue base n := by
  have hten : 10 ≤ tenthsOf base n := by
    rw [tenthsOf, Nat.le_div_iff_mul_le (base.pow_pos _), Nat.mul_comm]
    exact Nat.mul_le_mul_right 10 (pow_powerOf_le base hpos)
  have hmul := Nat.mul_le_mul_right (base.value ^ powerOf base n) hten
  rw [shownValue]
  omega

/-- A larger size is not shown as a smaller one. -/
theorem shownValue_mono {n m : Nat} (h : n ≤ m) (hm : m < 2 ^ 64) :
    shownValue base n ≤ shownValue base m := by
  have hn := shownValue_le base n
  rcases Nat.eq_zero_or_pos n with rfl | hpos
  · omega
  have hunit := pow_powerOf_le base hpos
  have hunit' := pow_powerOf_le_shownValue base (show 1 ≤ m by omega)
  have hnext := lt_pow_powerOf base (Nat.lt_of_le_of_lt h hm)
  have hnext' := lt_pow_powerOf base hm
  rcases Nat.lt_trichotomy (powerOf base n) (powerOf base m) with hpower | hpower | hpower
  · have hlarger : base.value ^ (powerOf base n + 1) ≤ base.value ^ powerOf base m :=
      Nat.pow_le_pow_right base.value_pos hpower
    omega
  · have htenths : tenthsOf base n ≤ tenthsOf base m := by
      rw [tenthsOf, tenthsOf, hpower]
      exact Nat.div_le_div_right (Nat.mul_le_mul_right 10 h)
    rw [shownValue, shownValue, hpower]
    exact Nat.div_le_div_right (Nat.mul_le_mul_right _ htenths)
  · have hlarger : base.value ^ (powerOf base m + 1) ≤ base.value ^ powerOf base n :=
      Nat.pow_le_pow_right base.value_pos hpower
    omega

/-- A size of 64 bits is rendered as a number and a unit, and reading gives a size `p` that is not
larger. What is missing of the size is less than a tenth of the unit and one byte; it is less than a
tenth of the unit to the base 1000, and it is nothing if no power of the base is shown. In front of
the decimal point stands a number from one on that is less than the base, unless the size is zero.
A larger size is not read back as a smaller one. What was rendered to the base 1024 is read alike to
either base. -/
theorem rendered_sizes_read_back (base : Base) {n m : UInt64} (h : n ≤ m) :
    ∃ (number : Number Marks.standard) (unit : UnitName) (p q : Nat),
      render base n.toNat = number.text ++ unit.text ∧
      parse base (render base n.toNat) = .ok p ∧ p ≤ n.toNat ∧
      10 * (n.toNat - p) < base.value ^ unit.power + 10 ∧
      (unit.power = 0 → p = n.toNat) ∧
      (base = .decimal → 10 * (n.toNat - p) < base.value ^ unit.power) ∧
      (1 ≤ n → 1 ≤ numeral number.digits ∧ numeral number.digits < base.value) ∧
      parse base (render base m.toNat) = .ok q ∧ p ≤ q ∧
      (base = .binary → ∀ other, parse other (render base n.toNat) = .ok p) := by
  have hn : n.toNat < 2 ^ 64 := n.toNat_lt
  have hm : m.toNat < 2 ^ 64 := m.toNat_lt
  obtain ⟨unit, htext, hpower, -⟩ := exists_render base n.toNat
  refine ⟨shownNumber base n.toNat, unit, shownValue base n.toNat, shownValue base m.toNat, htext,
    parse_render base hn (.inl rfl), shownValue_le base _, ?_, ?_, ?_, ?_,
    parse_render base hm (.inl rfl), shownValue_mono base (UInt64.le_iff_toNat_le.1 h) hm, ?_⟩
  · rw [hpower]
    exact lost_lt base _
  · intro hzero
    exact shownValue_of_powerOf_eq_zero base (hpower.symm.trans hzero)
  · rintro rfl
    rw [hpower]
    exact lost_lt_decimal _
  · intro hpos
    rw [numeral_shownNumber]
    exact tenthsOf_range base (UInt64.le_iff_toNat_le.1 hpos) hn
  · intro hbinary other
    exact parse_render base hn (.inr hbinary)

/-- A size in a small unit and the greatest one. -/
theorem rendered_sizes_sample :
    (1535 : UInt64) ≤ 18446744073709551615 ∧
      render .binary 1535 = Ascii.bytes "1.4KiB" ∧
      render .binary 18446744073709551615 = Ascii.bytes "15.9EiB" ∧
      ∃ p q, parse .binary (Ascii.bytes "1.4KiB") = .ok p ∧ p ≤ 1535 ∧
        parse .binary (Ascii.bytes "15.9EiB") = .ok q ∧ p ≤ q ∧
        parse .decimal (Ascii.bytes "1.4KiB") = .ok p := by
  have hle : (1535 : UInt64) ≤ 18446744073709551615 := by decide
  have hsmall : render .binary 1535 = Ascii.bytes "1.4KiB" := by decide
  have hlarge : render .binary 18446744073709551615 = Ascii.bytes "15.9EiB" := by decide
  obtain ⟨-, -, p, q, -, hp, hpn, -, -, -, -, hq, hpq, hother⟩ :=
    rendered_sizes_read_back .binary hle
  change parse .binary (render .binary 1535) = .ok p at hp
  change parse .binary (render .binary 18446744073709551615) = .ok q at hq
  rw [hsmall] at hp
  rw [hlarge] at hq
  have hdecimal : parse .decimal (render .binary 1535) = .ok p := hother rfl .decimal
  rw [hsmall] at hdecimal
  exact ⟨hle, hsmall, hlarge, p, q, hp, hpn, hq, hpq, hdecimal⟩

end CText.Size
