import CText.Proofs.Size.Value
import CText.Unit
import Mathlib.Data.List.TakeWhile

/-!
# Reading one summand

The reader takes as much as it can at every place: digits, a fraction, whitespace with a unit behind
it, the mark and the letter that a unit may end in. What it takes is a summand of the grammar. The
other way round, a summand of the grammar is taken whole, and nothing beyond it, if the marks are
distinct and what stands behind the summand cannot be its continuation.
-/

namespace CText.Size

variable {marks : Marks} {base : Base} {s t rest : List UInt8} {value digits : Nat}

/-! ## The counter -/

theorem counted_of_lt {n : Nat} (h : n < counterLimit) : counted n = .ok n :=
  if_pos h

theorem counted_of_le {n : Nat} (h : counterLimit ≤ n) : counted n = .error .outOfRange :=
  if_neg (Nat.not_lt.2 h)

/-- Asking whether a number fits keeps out nothing that a larger number asked for later lets in. -/
theorem counted_bind_eq {α : Type} {a b : Nat} (hab : a ≤ b) {f : Nat → Except Error α}
    {g : Nat → α} (hf : a < counterLimit → f a = (counted b).map g) :
    counted a >>= f = (counted b).map g := by
  by_cases ha : a < counterLimit
  · rw [counted_of_lt ha]
    exact hf ha
  · have hb : counterLimit ≤ b := by omega
    rw [counted_of_le (Nat.not_lt.1 ha), counted_of_le hb]
    rfl

/-! ## Whole numbers -/

theorem Grouped.head (h : Grouped marks s) : ∃ d r, s = d :: r ∧ Ascii.isDigit d = true := by
  cases h with
  | digit hd => exact ⟨_, _, rfl, hd⟩
  | next hd _ => exact ⟨_, _, rfl, hd⟩
  | group hd _ _ => exact ⟨_, _, rfl, hd⟩

theorem le_foldl_digits (value : Nat) (s : List UInt8) :
    value ≤ s.foldl (fun n c => n * 10 + digit c) value := by
  induction s generalizing value with
  | nil => exact le_rfl
  | cons c rest ih =>
    have := ih (value * 10 + digit c)
    rw [List.foldl_cons]
    omega

theorem readWhole_digit {d : UInt8} (hd : Ascii.isDigit d = true) :
    readWhole marks value digits (d :: s) =
      counted (value * 10 + digit d) >>= fun value => readWhole marks value (digits + 1) s := by
  rw [readWhole, if_pos hd]
  cases counted (value * 10 + digit d) <;> rfl

/-- Reading a whole number stops in front of what neither is a digit nor groups digits. -/
theorem readWhole_stop (hrest : ∀ c ∈ rest.head?, Ascii.isDigit c = false ∧ c ∉ marks.grouping) :
    readWhole marks value digits rest = .ok ⟨value, digits, rest⟩ := by
  cases rest with
  | nil => rfl
  | cons c r =>
    obtain ⟨hdigit, hgroup⟩ := hrest c rfl
    simp [readWhole, isGrouping, hdigit, hgroup]

/-- A grouping byte between digits is passed over. -/
theorem readWhole_group (hm : marks.Distinct) {g : UInt8} (hg : g ∈ marks.grouping)
    (hs : Grouped marks s) :
    readWhole marks value (digits + 1) (g :: (s ++ rest)) =
      readWhole marks value (digits + 1) (s ++ rest) := by
  have hall : g ∈ marks.all := by simp [Marks.all, hg]
  have hpoint : g ∉ marks.decimalPoints := fun h => hm.points_grouping g h hg
  obtain ⟨d, r, rfl, hd⟩ := hs.head
  have hgrouping : isGrouping marks (digits + 1) g (d :: r ++ rest) = true := by
    simp [isGrouping, hg, hpoint, hd]
  rw [readWhole, hm.not_digit g hall, hgrouping]
  rfl

theorem readWhole_grouped (hm : marks.Distinct) (ht : Grouped marks t)
    (hrest : ∀ c ∈ rest.head?, Ascii.isDigit c = false ∧ c ∉ marks.grouping)
    (value digits : Nat) :
    readWhole marks value digits (t ++ rest) =
      (counted ((t.filter Ascii.isDigit).foldl (fun n c => n * 10 + digit c) value)).map
        (fun value => ⟨value, digits + (t.filter Ascii.isDigit).length, rest⟩) := by
  induction ht generalizing value digits with
  | digit hd =>
    rw [List.singleton_append, readWhole_digit hd, List.filter_cons_of_pos hd, List.filter_nil]
    refine counted_bind_eq le_rfl fun hfits => ?_
    rw [readWhole_stop hrest, counted_of_lt hfits]
    rfl
  | next hd hs ih =>
    rw [List.cons_append, readWhole_digit hd, List.filter_cons_of_pos hd, List.foldl_cons]
    refine counted_bind_eq (le_foldl_digits _ _) fun _ => ?_
    rw [ih, List.length_cons, Nat.add_assoc, Nat.add_comm 1]
  | @group d g s hd hg hs ih =>
    have hnot : Ascii.isDigit g = false := hm.not_digit g (by simp [Marks.all, hg])
    rw [List.cons_append, readWhole_digit hd, List.filter_cons_of_pos hd,
      List.filter_cons_of_neg (by simp [hnot]), List.foldl_cons]
    refine counted_bind_eq (le_foldl_digits _ _) fun _ => ?_
    rw [List.cons_append, readWhole_group hm hg hs, ih, List.length_cons,
      Nat.add_assoc, Nat.add_comm 1]

/-- What is read of a whole number is digits, perhaps grouped. If digits stand in front of it, it
may begin with a byte that groups them with these. -/
theorem exists_of_readWhole {w : Whole} (h : readWhole marks value digits s = .ok w) :
    ∃ t, s = t ++ w.rest ∧
      (t = [] ∧ w.digits = digits ∨ digits < w.digits ∧
        (Grouped marks t ∨ 0 < digits ∧ ∃ g r, t = g :: r ∧ g ∈ marks.grouping ∧ Grouped marks r)) ∧
      (∀ d ∈ s.head?, Ascii.isDigit d = true → Grouped marks t) := by
  fun_induction readWhole marks value digits s with
  | case1 =>
    cases h
    exact ⟨[], rfl, .inl ⟨rfl, rfl⟩, by simp⟩
  | case2 value digits c rest hc v hv ih =>
    obtain ⟨t, hs, hcases, -⟩ := ih h
    have hgrouped : Grouped marks (c :: t) ∧ digits < w.digits := by
      rcases hcases with ⟨rfl, hw⟩ | ⟨hw, ht | ⟨-, g, r, rfl, hg, hr⟩⟩
      · exact ⟨.digit hc, by omega⟩
      · exact ⟨.next hc ht, by omega⟩
      · exact ⟨.group hc hg hr, by omega⟩
    exact ⟨c :: t, by rw [hs]; rfl, .inr ⟨hgrouped.2, .inl hgrouped.1⟩, fun _ _ _ => hgrouped.1⟩
  | case3 => cases h
  | case4 value digits c rest hc hgroup ih =>
    obtain ⟨t, hs, hcases, hfirst⟩ := ih h
    simp only [isGrouping, Bool.and_eq_true, decide_eq_true_eq, List.contains_iff_mem,
      Option.any_eq_true] at hgroup
    obtain ⟨⟨⟨hpos, hg⟩, -⟩, d, hd, hdigit⟩ := hgroup
    have ht : Grouped marks t := hfirst d hd hdigit
    have hw : digits < w.digits := by
      rcases hcases with ⟨rfl, -⟩ | ⟨hw, -⟩
      · cases ht
      · exact hw
    refine ⟨c :: t, by rw [hs]; rfl, .inr ⟨hw, .inr ⟨hpos, c, t, rfl, hg, ht⟩⟩, ?_⟩
    intro d hd hdigit
    cases hd
    exact absurd hdigit hc
  | case5 value digits c rest hc _ =>
    cases h
    refine ⟨[], rfl, .inl ⟨rfl, rfl⟩, ?_⟩
    intro d hd hdigit
    cases hd
    exact absurd hdigit hc

/-! ## Fractions -/

theorem readFraction_text {point : Option UInt8} {fraction : List UInt8}
    (hpoint : ∀ c ∈ point, c ∈ marks.decimalPoints)
    (hfraction : ∀ c ∈ fraction, Ascii.isDigit c = true) (hpointed : point = none → fraction = [])
    (hrest : ∀ c ∈ rest.head?, Ascii.isDigit c = false ∧ c ∉ marks.decimalPoints) :
    readFraction marks (point.toList ++ (fraction ++ rest)) = (fraction, rest) := by
  cases point with
  | none =>
    obtain rfl := hpointed rfl
    cases rest with
    | nil => rfl
    | cons c r => simp [readFraction, (hrest c rfl).2]
  | some p =>
    have hstop : rest.takeWhile Ascii.isDigit = [] ∧ rest.dropWhile Ascii.isDigit = rest := by
      cases rest with
      | nil => exact ⟨rfl, rfl⟩
      | cons c r => simp [(hrest c rfl).1]
    simp [readFraction, hpoint p rfl, List.takeWhile_append_of_pos hfraction,
      List.dropWhile_append_of_pos hfraction, hstop]

theorem exists_of_readFraction (marks : Marks) (s : List UInt8) :
    ∃ point : Option UInt8,
      s = point.toList ++ ((readFraction marks s).1 ++ (readFraction marks s).2) ∧
      (∀ c ∈ point, c ∈ marks.decimalPoints) ∧
      (∀ c ∈ (readFraction marks s).1, Ascii.isDigit c = true) ∧
      (point = none → (readFraction marks s).1 = []) := by
  fun_cases readFraction marks s with
  | case1 => exact ⟨none, rfl, by simp, by simp, by simp⟩
  | case2 c rest hc =>
    rw [List.contains_iff_mem] at hc
    refine ⟨some c, ?_, by simpa using hc, fun d hd => List.mem_takeWhile_imp hd, by simp⟩
    simp
  | case3 c rest => exact ⟨none, rfl, by simp, by simp, by simp⟩

/-! ## Units -/

theorem dropOne_toList {allowed : List UInt8} {o : Option UInt8} (ho : ∀ c ∈ o, c ∈ allowed)
    (hrest : ∀ c ∈ rest.head?, c ∉ allowed) : dropOne allowed (o.toList ++ rest) = rest := by
  cases o with
  | some c => simp [dropOne, ho c rfl]
  | none =>
    cases rest with
    | nil => rfl
    | cons c r => simp [dropOne, hrest c rfl]

theorem exists_of_dropOne (allowed s : List UInt8) :
    ∃ o : Option UInt8, s = o.toList ++ dropOne allowed s ∧ ∀ c ∈ o, c ∈ allowed := by
  fun_cases dropOne allowed s with
  | case1 => exact ⟨none, rfl, by simp⟩
  | case2 c rest hc => exact ⟨some c, rfl, by simpa using hc⟩
  | case3 c rest => exact ⟨none, rfl, by simp⟩

/-- Where the reader finds the letters of the grammar. -/
theorem findIdx?_of_mem_powers {letter : UInt8} {power : Nat} (h : (letter, power) ∈ powers) :
    ¬ (letter = Ascii.byte 'B' ∨ letter = Ascii.byte 'b') ∧
      ∃ index, power = index + 1 ∧ letters.findIdx?
        (· == if letter = Ascii.byte 'k' then Ascii.byte 'K' else letter) = some index := by
  have hall : ∀ p ∈ powers, ¬ (p.1 = Ascii.byte 'B' ∨ p.1 = Ascii.byte 'b') ∧ 0 < p.2 ∧
      letters.findIdx? (· == if p.1 = Ascii.byte 'k' then Ascii.byte 'K' else p.1) =
        some (p.2 - 1) := by
    decide
  obtain ⟨hbyte, hpos, hindex⟩ := hall _ h
  exact ⟨hbyte, power - 1, (Nat.succ_pred_eq_of_pos hpos).symm, hindex⟩

theorem mem_powers_of_findIdx? {c : UInt8} {index : Nat}
    (h : letters.findIdx? (· == if c = Ascii.byte 'k' then Ascii.byte 'K' else c) = some index) :
    (c, index + 1) ∈ powers := by
  have hall : ∀ c : UInt8, ∀ i ∈ letters.findIdx?
      (· == if c = Ascii.byte 'k' then Ascii.byte 'K' else c), (c, i + 1) ∈ powers :=
    byte_induction (by decide)
  exact hall c index h

/-- A unit is read whole if what follows it cannot be part of a unit. -/
theorem readUnit_text (u : UnitName) (hrest : ∀ c ∈ rest.head?, c ∉ unitBytes) :
    readUnit base (u.text ++ rest) = some (u.factor base, rest) := by
  have hsub : ∀ c ∈ Ascii.bytes "iI" ++ Ascii.bytes "Bb", c ∈ unitBytes :=
    forall_mem_of_all (by decide)
  have hapart : ∀ c ∈ Ascii.bytes "Bb", c ∉ Ascii.bytes "iI" := forall_mem_of_all (by decide)
  cases u with
  | bytes letter hletter =>
    have hbyte : letter = Ascii.byte 'B' ∨ letter = Ascii.byte 'b' := by
      simpa [Ascii.bytes] using hletter
    simp [UnitName.text, UnitName.factor, readUnit, hbyte]
  | scaled letter power mark byte hletter hmark hbyte =>
    obtain ⟨hnot, index, rfl, hindex⟩ := findIdx?_of_mem_powers hletter
    have hafterByte : dropOne (Ascii.bytes "Bb") (byte.toList ++ rest) = rest :=
      dropOne_toList hbyte fun c hc hmem =>
        hrest c hc (hsub c (List.mem_append_right _ hmem))
    have hafterMark : dropOne (Ascii.bytes "iI") (mark.toList ++ (byte.toList ++ rest)) =
        byte.toList ++ rest := by
      refine dropOne_toList hmark fun c hc hmem => ?_
      cases byte with
      | none => exact hrest c hc (hsub c (List.mem_append_left _ hmem))
      | some b =>
        cases hc
        exact hapart _ (hbyte _ rfl) hmem
    have hshorter : (byte.toList ++ rest).length < (mark.toList ++ (byte.toList ++ rest)).length ↔
        mark.isSome = true := by
      cases mark <;> simp
    have hfactor : Nat.pow (if mark.isSome = true then Base.binary else base).value (index + 1) =
        if mark.isSome = true ∨ base = .binary then 1024 ^ (index + 1) else 1000 ^ (index + 1) := by
      cases mark <;> cases base <;> rfl
    simp only [UnitName.text, UnitName.factor, List.cons_append, List.append_assoc, readUnit,
      if_neg hnot, hindex, hafterMark, hafterByte, hshorter, hfactor]

theorem UnitName.head (u : UnitName) :
    ∃ c r, u.text = c :: r ∧ c ∈ unitBytes ∧ Ascii.isSpace c = false := by
  cases u with
  | bytes letter hletter =>
    have hall : ∀ c ∈ Ascii.bytes "Bb", c ∈ unitBytes ∧ Ascii.isSpace c = false :=
      forall_mem_of_all (by decide)
    exact ⟨letter, [], rfl, hall letter hletter⟩
  | scaled letter power mark byte hletter _ _ =>
    have hall : ∀ p ∈ powers, p.1 ∈ unitBytes ∧ Ascii.isSpace p.1 = false := by decide
    exact ⟨letter, _, rfl, hall _ hletter⟩

theorem UnitName.factor_pos (u : UnitName) : 0 < u.factor base := by
  cases u with
  | bytes => exact Nat.one_pos
  | scaled =>
    rw [UnitName.factor]
    split <;> positivity

theorem readUnit_none (hrest : ∀ c ∈ rest.head?, c ∉ unitBytes) : readUnit base rest = none := by
  cases rest with
  | nil => rfl
  | cons c r =>
    have hc : c ∉ unitBytes := hrest c rfl
    have hbyte : ¬ (c = Ascii.byte 'B' ∨ c = Ascii.byte 'b') := by
      rintro (rfl | rfl)
      · exact hc (by decide)
      · exact hc (by decide)
    have hindex : letters.findIdx?
        (· == if c = Ascii.byte 'k' then Ascii.byte 'K' else c) = none := by
      cases h : letters.findIdx? (· == if c = Ascii.byte 'k' then Ascii.byte 'K' else c) with
      | none => rfl
      | some index =>
        have hletters : ∀ p ∈ powers, p.1 ∈ unitBytes := by decide
        exact absurd (hletters _ (mem_powers_of_findIdx? h)) hc
    simp only [readUnit, if_neg hbyte, hindex]

theorem exists_of_readUnit {multiplier : Nat} (h : readUnit base s = some (multiplier, rest)) :
    ∃ u : UnitName, s = u.text ++ rest := by
  cases s with
  | nil => cases h
  | cons c r =>
    simp only [readUnit] at h
    split at h
    · rename_i hbyte
      cases h
      exact ⟨.bytes c (by simpa [Ascii.bytes] using hbyte), rfl⟩
    · split at h
      · cases h
      · rename_i index hindex
        cases h
        obtain ⟨mark, hr, hmark⟩ := exists_of_dropOne (Ascii.bytes "iI") r
        obtain ⟨byte, hbyte, hletter⟩ :=
          exists_of_dropOne (Ascii.bytes "Bb") (dropOne (Ascii.bytes "iI") r)
        refine ⟨.scaled c (index + 1) mark byte (mem_powers_of_findIdx? hindex) hmark hletter, ?_⟩
        rw [UnitName.text, List.cons_append, List.append_assoc, ← hbyte, ← hr]

/-! ## Summands -/

/-- What can stand behind a number is no part of it. -/
theorem Marks.Distinct.not_number (hm : marks.Distinct) {c : UInt8}
    (hc : c ∈ marks.separators ∨ Ascii.isSpace c = true ∨ c ∈ unitBytes) :
    Ascii.isDigit c = false ∧ c ∉ marks.grouping ∧ c ∉ marks.decimalPoints := by
  have hspace : ∀ c : UInt8, Ascii.isSpace c = true → Ascii.isDigit c = false :=
    byte_induction (by decide)
  have hunit : ∀ c ∈ unitBytes, Ascii.isDigit c = false := forall_mem_of_all (by decide)
  rcases hc with hc | hc | hc
  · exact ⟨hm.not_digit c (by simp [Marks.all, hc]), fun hg => hm.grouping_separators c hg hc,
      fun hp => hm.points_separators c hp hc⟩
  · refine ⟨hspace c hc, fun hg => ?_, fun hp => ?_⟩
    · exact absurd hc (by simp [hm.not_space c (by simp [Marks.all, hg])])
    · exact absurd hc (by simp [hm.not_space c (by simp [Marks.all, hp])])
  · exact ⟨hunit c hc, fun hg => hm.not_unit c (by simp [Marks.all, hg]) hc,
      fun hp => hm.not_unit c (by simp [Marks.all, hp]) hc⟩

theorem Marks.Distinct.between_not_unit (hm : marks.Distinct) {c : UInt8}
    (hc : c ∈ marks.separators ∨ Ascii.isSpace c = true) : c ∉ unitBytes := by
  have hspace : ∀ c : UInt8, Ascii.isSpace c = true → c ∉ unitBytes :=
    byte_induction (by decide)
  rcases hc with hc | hc
  · exact hm.not_unit c (by simp [Marks.all, hc])
  · exact hspace c hc

theorem counterLimit_pos : 0 < counterLimit := by
  unfold counterLimit
  exact Nat.pow_pos (by decide)

theorem Number.digits_ne (n : Number marks) : n.digits.length + n.fraction.length ≠ 0 := by
  rcases n.some_digit with h | h
  · obtain ⟨d, r, hwhole, hd⟩ := (n.whole_grouped.resolve_left h).head
    simp [Number.digits, hwhole, hd]
  · have := List.length_pos_iff.2 h
    omega

theorem readWhole_number (hm : marks.Distinct) (n : Number marks)
    (hrest : ∀ c ∈ rest.head?, Ascii.isDigit c = false ∧ c ∉ marks.grouping) :
    readWhole marks 0 0 (n.whole ++ (n.point.toList ++ (n.fraction ++ rest))) =
      (counted (numeral n.digits)).map fun value =>
        ⟨value, n.digits.length, n.point.toList ++ (n.fraction ++ rest)⟩ := by
  have hstop : ∀ c ∈ (n.point.toList ++ (n.fraction ++ rest)).head?,
      Ascii.isDigit c = false ∧ c ∉ marks.grouping := by
    cases hpoint : n.point with
    | none =>
      rw [n.fraction_pointed hpoint]
      exact hrest
    | some p =>
      intro c hc
      cases hc
      have hp : p ∈ marks.decimalPoints := n.point_mark p hpoint
      exact ⟨hm.not_digit p (by simp [Marks.all, hp]), hm.points_grouping p hp⟩
  rcases n.whole_grouped with h | h
  · have hdigits : n.digits = [] := by rw [Number.digits, h]; rfl
    rw [h, hdigits, List.nil_append, readWhole_stop hstop]
    change _ = (counted 0).map _
    rw [counted_of_lt counterLimit_pos]
    rfl
  · rw [readWhole_grouped hm h hstop, Nat.zero_add]
    rfl

/-- A number is read whole, and then a unit if one follows. -/
theorem readTerm_number (hm : marks.Distinct) (n : Number marks) (offset : Nat)
    (hrest : ∀ c ∈ rest.head?,
      Ascii.isDigit c = false ∧ c ∉ marks.grouping ∧ c ∉ marks.decimalPoints) :
    readTerm marks base (n.text ++ rest) offset =
      counted (numeral n.digits) >>= fun whole =>
        match readUnit base (rest.dropWhile Ascii.isSpace) with
        | none => .ok ⟨whole, false, rest⟩
        | some (multiplier, rest) =>
          counted (whole * multiplier) >>= fun product =>
            (counted (product + scaleFraction multiplier n.fraction)).map (⟨·, true, rest⟩) := by
  have hwhole := readWhole_number hm n fun c hc => ⟨(hrest c hc).1, (hrest c hc).2.1⟩
  have hfraction : readFraction marks (n.point.toList ++ (n.fraction ++ rest)) =
      (n.fraction, rest) :=
    readFraction_text n.point_mark n.fraction_digits n.fraction_pointed fun c hc =>
      ⟨(hrest c hc).1, (hrest c hc).2.2⟩
  rw [Number.text, List.append_assoc, List.append_assoc, readTerm, hwhole]
  by_cases hfits : numeral n.digits < counterLimit
  · rw [counted_of_lt hfits]
    simp only [Except.map, hfraction, if_neg n.digits_ne]
    cases readUnit base (rest.dropWhile Ascii.isSpace) with
    | none => rfl
    | some found =>
      obtain ⟨multiplier, after⟩ := found
      refine congrArg (counted (numeral n.digits * multiplier) >>= ·) (funext fun product => ?_)
      cases counted (product + scaleFraction multiplier n.fraction) <;> rfl
  · rw [counted_of_le (Nat.not_lt.1 hfits)]
    rfl

theorem mem_head?_append {c : UInt8} (h : c ∈ (s ++ t).head?) : c ∈ s ∨ c ∈ t.head? := by
  cases s with
  | nil => exact .inr h
  | cons b r =>
    cases h
    exact .inl List.mem_cons_self

/-- What stands behind a summand: a separator or whitespace, if anything, and then no unit. -/
structure Follows (marks : Marks) (rest : List UInt8) : Prop where
  head : ∀ c ∈ rest.head?, c ∈ marks.separators ∨ Ascii.isSpace c = true
  no_unit : ∀ c ∈ (rest.dropWhile Ascii.isSpace).head?, c ∉ unitBytes

/-- A summand of the grammar is read whole, and what it is worth has to fit the counter. -/
theorem readTerm_summand (hm : marks.Distinct) (t : Summand marks) (hrest : Follows marks rest)
    (offset : Nat) :
    readTerm marks base (t.text ++ rest) offset =
      (counted (t.value base)).map fun value => ⟨value, t.hasUnit, rest⟩ := by
  cases t with
  | bare n =>
    have hends : ∀ c ∈ rest.head?,
        Ascii.isDigit c = false ∧ c ∉ marks.grouping ∧ c ∉ marks.decimalPoints := fun c hc =>
      hm.not_number ((hrest.head c hc).imp_right .inl)
    rw [Summand.text, readTerm_number hm n offset hends, readUnit_none hrest.no_unit,
      Summand.value, n.floor_value]
    cases counted (numeral n.digits) <;> rfl
  | measured n blank u hblank =>
    obtain ⟨b, r, hunit, hb, hspace⟩ := u.head
    have hends : ∀ c ∈ (blank ++ (u.text ++ rest)).head?,
        Ascii.isDigit c = false ∧ c ∉ marks.grouping ∧ c ∉ marks.decimalPoints := by
      intro c hc
      rcases mem_head?_append hc with hc | hc
      · exact hm.not_number (.inr (.inl (hblank c hc)))
      · rw [hunit] at hc
        cases hc
        exact hm.not_number (.inr (.inr hb))
    have hdrop : (blank ++ (u.text ++ rest)).dropWhile Ascii.isSpace = u.text ++ rest := by
      rw [List.dropWhile_append_of_pos hblank, hunit, List.cons_append,
        List.dropWhile_cons_of_neg (by simp [hspace])]
    have hafter : ∀ c ∈ rest.head?, c ∉ unitBytes := fun c hc =>
      hm.between_not_unit (hrest.head c hc)
    have hproduct : numeral n.digits ≤ numeral n.digits * u.factor base :=
      Nat.le_mul_of_pos_right _ u.factor_pos
    rw [Summand.text, List.append_assoc, List.append_assoc, readTerm_number hm n offset hends,
      hdrop, readUnit_text u hafter, Summand.value, n.floor_value_mul]
    refine counted_bind_eq (by omega) fun _ => counted_bind_eq (by omega) fun _ => ?_
    rfl

/-- A whole number and a fraction with a digit in either of them are a number. -/
theorem exists_number {w : Whole} (hw : readWhole marks 0 0 s = .ok w)
    (hdigits : w.digits + (readFraction marks w.rest).1.length ≠ 0) :
    ∃ n : Number marks, s = n.text ++ (readFraction marks w.rest).2 := by
  obtain ⟨whole, hs, hcases, -⟩ := exists_of_readWhole hw
  obtain ⟨point, hrest, hpoint, hfraction, hpointed⟩ := exists_of_readFraction marks w.rest
  have hwhole : whole = [] ∧ w.digits = 0 ∨ Grouped marks whole := by
    rcases hcases with h | ⟨-, h | ⟨hpos, -⟩⟩
    · exact .inl h
    · exact .inr h
    · exact absurd hpos (by omega)
  let n : Number marks :=
    { whole, point, fraction := (readFraction marks w.rest).1
      whole_grouped := hwhole.imp_left And.left
      point_mark := hpoint
      fraction_digits := hfraction
      fraction_pointed := hpointed
      some_digit := by
        rcases hwhole with ⟨-, hzero⟩ | hgrouped
        · right
          intro hnil
          rw [hnil] at hdigits
          exact hdigits (by simpa using hzero)
        · left
          obtain ⟨d, r, rfl, -⟩ := hgrouped.head
          simp }
  refine ⟨n, ?_⟩
  rw [hs, Number.text, List.append_assoc, List.append_assoc]
  exact congrArg (whole ++ ·) hrest

/-- What is read as a summand is one. -/
theorem exists_of_readTerm {offset : Nat} {found : Term}
    (h : readTerm marks base s offset = .ok found) :
    ∃ t : Summand marks, s = t.text ++ found.rest ∧ found.hasUnit = t.hasUnit := by
  unfold readTerm at h
  split at h
  · cases h
  rename_i w hw
  dsimp only at h
  split at h
  · cases h
  rename_i hdigits
  obtain ⟨n, hn⟩ := exists_number hw hdigits
  split at h
  · cases h
    exact ⟨.bare n, hn, rfl⟩
  · rename_i multiplier after hunit
    obtain ⟨u, hu⟩ := exists_of_readUnit hunit
    let blank := (readFraction marks w.rest).2.takeWhile Ascii.isSpace
    have hblank : ∀ c ∈ blank, Ascii.isSpace c = true := fun c hc => List.mem_takeWhile_imp hc
    have hfound : found.hasUnit = true ∧ found.rest = after := by
      generalize counted (w.value * multiplier) = product at h
      cases product with
      | error e => cases h
      | ok product =>
        change (counted _ >>= _) = _ at h
        generalize counted (product + scaleFraction multiplier _) = value at h
        cases value with
        | error e => cases h
        | ok value =>
          cases h
          exact ⟨rfl, rfl⟩
    refine ⟨.measured n blank u hblank, ?_, hfound.1⟩
    rw [hn, Summand.text, hfound.2, List.append_assoc, List.append_assoc, ← hu,
      List.takeWhile_append_dropWhile]

end CText.Size
