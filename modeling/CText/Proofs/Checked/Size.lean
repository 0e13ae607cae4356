import CText.Checked.Size
import CText.Proofs.Checked.Buffer
import CText.Proofs.Size.Rendering

/-!
# Offsets and numbers in sizes

The offsets that the readers of a size count are at most the length of the text. What is left to
read begins where the text would end if it were cut there, so that an offset is known from what is
left. The numbers stay below 128 bits: the largest unit is the eighth power of 1024, and a fraction
of a unit is worth less than the unit.
-/

namespace CText.Checked

open Buffer Escape Size

variable {marks : Marks} {base : Base} {s : List UInt8} {pos size : Nat}

/-! ## Offsets -/

theorem offset_eq (hsize : pos + s.length = size) : size - s.length = pos := by omega

theorem skipWhile_eq (p : UInt8 → Bool) (hsize : pos + s.length = size) (h : size < countLimit) :
    skipWhile p s pos = .ok (s.dropWhile p, size - (s.dropWhile p).length) := by
  induction s generalizing pos with
  | nil =>
    cases hsize
    rfl
  | cons c rest ih =>
    have hpos := offset_eq hsize
    rw [List.length_cons] at hsize
    rw [skipWhile, List.dropWhile_cons]
    split
    next =>
      rw [add_eq (by omega), ok_bind]
      exact ih (by omega)
    next =>
      rw [hpos]
      rfl

theorem skipOne_eq (allowed : List UInt8) (hsize : pos + s.length = size) (h : size < countLimit) :
    skipOne allowed s pos = .ok (dropOne allowed s, size - (dropOne allowed s).length) := by
  cases s with
  | nil =>
    cases hsize
    rfl
  | cons c rest =>
    have hpos := offset_eq hsize
    rw [List.length_cons] at hsize
    rw [skipOne, dropOne]
    split
    next =>
      have hnext : size - rest.length = pos + 1 := by omega
      rw [add_eq (by omega), ok_bind, hnext]
      rfl
    next =>
      rw [hpos]
      rfl

/-! ## Reading -/

theorem digit_eq {c : UInt8} (h : Ascii.isDigit c = true) : sub c.toNat 48 = .ok (digit c) := by
  rw [Ascii.isDigit, Bool.and_eq_true, decide_eq_true_iff, UInt8.le_iff_toNat_le] at h
  exact sub_eq h.1

theorem readWhole_eq (value : Nat) {digits : Nat} (hsize : pos + s.length = size)
    (hdigits : digits ≤ pos) (h : size < countLimit) :
    readWhole marks value digits s pos =
      granted ((Size.readWhole marks value digits s).map fun whole =>
        (whole, size - whole.rest.length)) := by
  induction s generalizing value digits pos with
  | nil =>
    cases hsize
    rfl
  | cons c rest ih =>
    have hpos := offset_eq hsize
    rw [List.length_cons] at hsize
    rw [readWhole, Size.readWhole]
    split
    next hc =>
      rw [digit_eq hc, checked_ok, ok_bind]
      cases counted (value * 10 + digit c) with
      | error e => rfl
      | ok value =>
        rw [granted_ok, ok_bind, add_eq (by omega), checked_ok, ok_bind, add_eq (by omega),
          checked_ok, ok_bind]
        exact ih value (by omega) (by omega)
    next =>
      rw [add_eq (by omega), checked_ok, ok_bind]
      split
      next => exact ih value (by omega) (by omega)
      next =>
        rw [Except.map]
        dsimp only
        rw [hpos]
        rfl

theorem rest_readWhole_le {value digits : Nat} {whole : Whole}
    (h : Size.readWhole marks value digits s = .ok whole) : whole.rest.length ≤ s.length := by
  fun_induction Size.readWhole marks value digits s with
  | case1 =>
    cases h
    exact Nat.le_refl _
  | case2 value digits c rest _ v _ ih => exact Nat.le_succ_of_le (ih h)
  | case3 => cases h
  | case4 value digits c rest _ _ ih => exact Nat.le_succ_of_le (ih h)
  | case5 =>
    cases h
    exact Nat.le_refl _

theorem readFraction_eq (hsize : pos + s.length = size) (h : size < countLimit) :
    readFraction marks s pos =
      .ok ((Size.readFraction marks s).1, (Size.readFraction marks s).2,
        size - (Size.readFraction marks s).2.length) := by
  cases s with
  | nil =>
    cases hsize
    rfl
  | cons c rest =>
    have hpos := offset_eq hsize
    rw [List.length_cons] at hsize
    rw [readFraction, Size.readFraction]
    split
    next =>
      have hsplit := List.takeWhile_append_dropWhile (p := Ascii.isDigit) (l := rest)
      have hparts := congrArg List.length hsplit
      rw [List.length_append] at hparts
      have hfront : rest.take (rest.takeWhile Ascii.isDigit).length =
          rest.takeWhile Ascii.isDigit :=
        (List.prefix_iff_eq_take.1 (List.takeWhile_prefix _)).symm
      have hcount : size - (rest.dropWhile Ascii.isDigit).length - (pos + 1) =
          (rest.takeWhile Ascii.isDigit).length := by omega
      rw [add_eq (by omega), ok_bind, skipWhile_eq _ (by omega) h, ok_bind]
      dsimp only
      rw [sub_eq (by omega), ok_bind, hcount, front_eq (by omega), hfront]
      rfl
    next =>
      rw [hpos]
      rfl

theorem digits_readFraction (marks : Marks) (s : List UInt8) :
    ∀ c ∈ (Size.readFraction marks s).1, Ascii.isDigit c = true := by
  obtain ⟨-, -, -, hdigits, -⟩ := exists_of_readFraction marks s
  exact hdigits

theorem scaleFraction_eq {multiplier : Nat} {fraction : List UInt8}
    (hfraction : ∀ c ∈ fraction, Ascii.isDigit c = true) (h : multiplier * 10 < counterLimit) :
    scaleFraction multiplier fraction = .ok (Size.scaleFraction multiplier fraction) ∧
      Size.scaleFraction multiplier fraction ≤ multiplier := by
  induction fraction with
  | nil => exact ⟨rfl, Nat.zero_le _⟩
  | cons c rest ih =>
    obtain ⟨hc, hrest⟩ := List.forall_mem_cons.1 hfraction
    obtain ⟨hscaled, hcarry⟩ := ih hrest
    have hdigit : digit c * multiplier ≤ 9 * multiplier :=
      Nat.mul_le_mul_right _ (digit_le_nine hc)
    have hfold : Size.scaleFraction multiplier (c :: rest) =
        (digit c * multiplier + Size.scaleFraction multiplier rest) / 10 := rfl
    rw [hfold]
    constructor
    · rw [scaleFraction, hscaled, ok_bind, digit_eq hc, ok_bind, mulBelow_eq (by omega), ok_bind,
        addBelow_eq (by omega)]
      rfl
    · omega

theorem unit_lt : (1024 ^ 8) * 10 < counterLimit := by
  unfold counterLimit
  decide

theorem power_le (base : Base) {n : Nat} (h : n ≤ 8) : base.value ^ n ≤ 1024 ^ 8 := by
  have hbase : base.value ≤ 1024 := by cases base <;> decide
  calc base.value ^ n
    _ ≤ 1024 ^ n := Nat.pow_le_pow_left hbase n
    _ ≤ 1024 ^ 8 := Nat.pow_le_pow_right (by decide) h

theorem powBelow_eq (base : Base) {n : Nat} (h : n ≤ 8) :
    powBelow counterLimit base.value n = .ok (base.value ^ n) := by
  have hfits : base.value ^ n < counterLimit := by
    have hpower := power_le base h
    have hunit := unit_lt
    omega
  exact if_pos hfits

theorem readUnit_eq (base : Base) (hsize : pos + s.length = size) (h : size < countLimit) :
    readUnit base s pos =
      .ok ((Size.readUnit base s).map fun (m, rest) => (m, rest, size - rest.length)) := by
  cases s with
  | nil => rfl
  | cons c rest =>
    rw [List.length_cons] at hsize
    rw [readUnit, Size.readUnit]
    split
    next =>
      have hnext : size - rest.length = pos + 1 := by omega
      rw [add_eq (by omega), Option.map_some]
      dsimp only
      rw [hnext]
      rfl
    next =>
      dsimp only
      cases hindex : letters.findIdx? (· == if c = Ascii.byte 'k' then Ascii.byte 'K' else c) with
      | none => rfl
      | some index =>
        have hlt : index < 8 := (List.findIdx?_eq_some_iff_findIdx_eq.1 hindex).1
        have hmark := dropOne_length (Ascii.bytes "iI") rest
        dsimp only
        rw [addBelow_eq (by omega), ok_bind, add_eq (by omega), ok_bind,
          skipOne_eq _ (by omega) h, ok_bind]
        dsimp only
        rw [skipOne_eq _ (by omega) h, ok_bind, powBelow_eq _ hlt]
        rfl

theorem readUnit_le {m : Nat} {rest : List UInt8} (h : Size.readUnit base s = some (m, rest)) :
    m ≤ 1024 ^ 8 := by
  cases s with
  | nil => cases h
  | cons c behind =>
    rw [Size.readUnit] at h
    split at h
    next =>
      cases h
      decide
    next =>
      dsimp only at h
      split at h
      next => cases h
      next index hindex =>
        have hlt : index < 8 := (List.findIdx?_eq_some_iff_findIdx_eq.1 hindex).1
        cases h
        exact power_le _ hlt

theorem readTerm_eq (marks : Marks) (base : Base) (hsize : pos + s.length = size)
    (h : size < countLimit) :
    readTerm marks base s pos =
      granted ((Size.readTerm marks base s pos).map fun term =>
        (term, size - term.rest.length)) := by
  rw [readTerm, Size.readTerm, readWhole_eq 0 hsize (Nat.zero_le _) h]
  cases hwhole : Size.readWhole marks 0 0 s with
  | error e => rfl
  | ok whole =>
    have hdigits := readWhole_length hwhole
    have hrest := rest_readWhole_le hwhole
    have hfraction := readFraction_length marks whole.rest
    have hunit := (List.dropWhile_sublist (l := (Size.readFraction marks whole.rest).2)
      Ascii.isSpace).length_le
    rw [Except.map, granted_ok, ok_bind]
    dsimp only
    rw [readFraction_eq (by omega) h, checked_ok, ok_bind]
    dsimp only
    rw [add_eq (by omega), checked_ok, ok_bind]
    split
    next => rfl
    next =>
      rw [skipWhile_eq _ (by omega) h, checked_ok, ok_bind]
      dsimp only
      rw [readUnit_eq base (by omega) h, checked_ok, ok_bind]
      cases hread : Size.readUnit base
          ((Size.readFraction marks whole.rest).2.dropWhile Ascii.isSpace) with
      | none => rfl
      | some unit =>
        obtain ⟨multiplier, rest⟩ := unit
        have hlimit := unit_lt
        have hmultiplier := readUnit_le hread
        have hscaled := (scaleFraction_eq (digits_readFraction marks whole.rest)
          (show multiplier * 10 < counterLimit by omega)).1
        rw [Option.map_some]
        dsimp only
        rw [hscaled, checked_ok]
        cases counted (whole.value * multiplier) with
        | error e => rfl
        | ok product =>
          rw [granted_ok, ok_bind, ok_bind, ok_bind]
          cases counted (product + Size.scaleFraction multiplier
            (Size.readFraction marks whole.rest).1) <;> rfl

theorem readTerms_eq (marks : Marks) (base : Base) {sum : Sum} {turns : Nat}
    (hsize : pos + s.length = size) (hterms : sum.terms ≤ pos) (hturns : s.length ≤ turns)
    (hs : s ≠ []) (h : size < countLimit) :
    readTerms marks base sum s pos turns = granted (Size.readTerms marks base size sum s) := by
  induction turns generalizing sum s pos with
  | zero => exact absurd (List.length_eq_zero_iff.1 (Nat.le_zero.1 hturns)) hs
  | succ turns ih =>
    rw [readTerms, Size.readTerms, readTerm_eq marks base hsize h, offset_eq hsize]
    split
    next e hread =>
      rw [hread]
      rfl
    next term hread =>
      have hlen := readTerm_length hread
      have hsplit := congrArg List.length (List.takeWhile_append_dropWhile
        (p := isBetween marks) (l := term.rest))
      rw [List.length_append] at hsplit
      rw [hread, Except.map, granted_ok, ok_bind]
      dsimp only
      cases counted (sum.total + term.value) with
      | error e => rfl
      | ok total =>
        rw [granted_ok, ok_bind, add_eq (by omega), checked_ok, ok_bind,
          skipWhile_eq _ (by omega) h, checked_ok, ok_bind]
        dsimp only
        split
        next =>
          split <;> rfl
        next hmore =>
          have hjoined : size - (term.rest.dropWhile (isBetween marks)).length =
              size - term.rest.length ↔ (term.rest.takeWhile (isBetween marks)).isEmpty = true := by
            rw [List.isEmpty_iff, ← List.length_eq_zero_iff]
            omega
          by_cases hunjoined : (term.rest.takeWhile (isBetween marks)).isEmpty = true
          · rw [if_pos (hjoined.2 hunjoined), if_pos hunjoined]
            rfl
          · rw [if_neg fun heq => hunjoined (hjoined.1 heq), if_neg hunjoined]
            have hne : term.rest.dropWhile (isBetween marks) ≠ [] := by
              rwa [List.isEmpty_iff] at hmore
            exact ih (by omega) (by dsimp only; omega) (by omega) hne

theorem parseWith_eq (marks : Marks) (base : Base) (h : s.length < countLimit) :
    parseWith marks base s = granted (Size.parseWith marks base s) := by
  have hstart := (List.dropWhile_sublist (l := s) Ascii.isSpace).length_le
  rw [parseWith, Size.parseWith, skipWhile_eq _ (Nat.zero_add _) h, checked_ok, ok_bind]
  dsimp only
  split
  next hempty =>
    rw [List.isEmpty_iff] at hempty
    rw [hempty]
    rfl
  next hsome =>
    have hne : s.dropWhile Ascii.isSpace ≠ [] := by rwa [List.isEmpty_iff] at hsome
    rw [readTerms_eq marks base (by omega) (Nat.zero_le _) hstart hne h]
    cases Size.readTerms marks base s.length ⟨0, 0, false⟩ (s.dropWhile Ascii.isSpace) with
    | error e => rfl
    | ok sum =>
      rw [granted_ok, ok_bind]
      dsimp only
      split
      next => rfl
      next => split <;> rfl

/-! ## Writing -/

theorem powerFrom_eq (base : Base) (n : Nat) {power left : Nat} (h : power + left ≤ 8) :
    powerFrom base n power left =
      .ok (power + ((List.range' power left).takeWhile fun k =>
        Nat.pow base.value (k + 1) ≤ n).length) := by
  induction left generalizing power with
  | zero => rfl
  | succ left ih =>
    rw [powerFrom, addBelow_eq (by omega), ok_bind, powBelow_eq base (by omega), ok_bind,
      List.range'_succ, List.takeWhile_cons, ih (by omega)]
    by_cases hle : base.value ^ (power + 1) ≤ n
    · have hpow : Nat.pow base.value (power + 1) ≤ n := hle
      rw [if_pos hle, if_pos (decide_eq_true hpow), List.length_cons]
      congr 1
      omega
    · have hpow : ¬ Nat.pow base.value (power + 1) ≤ n := hle
      rw [if_neg hle, decide_eq_false hpow]
      rfl

theorem renderSize_eq (base : Base) {n : Nat} (h : n < sizeLimit) :
    renderSize base n = .ok (Size.render base n) := by
  have hlimit : n * 10 < counterLimit := by
    have hsize : sizeLimit * 10 ≤ counterLimit := by
      unfold sizeLimit counterLimit
      decide
    omega
  have hpower : powerFrom base n 0 6 = .ok (powerOf base n) := by
    rw [powerFrom_eq base n (by decide), Nat.zero_add, powerOf, List.range_eq_range']
  have hle := powerOf_le base n
  unfold renderSize Size.render
  rw [hpower, ok_bind]
  cases hn : powerOf base n with
  | zero => rfl
  | succ power =>
    rw [hn] at hle
    have hletters : power < letters.length := Nat.lt_of_lt_of_le hle (by decide)
    have hindex : sub (power + 1) 1 = .ok power := sub_eq (Nat.le_add_left 1 power)
    dsimp only
    rw [if_neg (Nat.succ_ne_zero power), mulBelow_eq hlimit, ok_bind, powBelow_eq base (by omega),
      ok_bind, hindex, ok_bind, fetch_getElem hletters, ok_bind, List.drop_eq_getElem_cons hletters]
    rfl

end CText.Checked
