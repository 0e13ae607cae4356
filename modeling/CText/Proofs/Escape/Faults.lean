import CText.Proofs.Escape.Decoding
import Mathlib.Data.List.Find

/-!
# Where reading escapes fails

An escape that is used up in front of a backslash is the same escape without that backslash and what
follows it: a backslash is no digit, no brace and in no name of a control byte. So when reading
fails, it fails at a backslash, and what stands in front of that is read without fault.
-/

namespace CText.Escape

variable {flags : Flags} {text more : List UInt8}

/-! ## Escapes in front of a backslash -/

theorem takeWhile_append_stop {α : Type} {p : α → Bool} {stop : α} (hstop : p stop = false)
    (s t : List α) : (s ++ stop :: t).takeWhile p = s.takeWhile p := by
  induction s with
  | nil => simp [hstop]
  | cons a s ih => simp [List.takeWhile_cons, ih]

theorem digitValue_backslash (radix : Nat) : Ascii.digitValue radix backslash = none := by
  have hclasses : Ascii.isDigit backslash = false ∧ Ascii.isUpper backslash = false ∧
      Ascii.isLower backslash = false := by
    decide
  simp [Ascii.digitValue, hclasses]

theorem readDigits_append (radix limit : Nat) (text more : List UInt8) :
    readDigits radix limit (text ++ backslash :: more) = readDigits radix limit text := by
  have hdigits : ((text ++ backslash :: more).take limit).takeWhile
        (fun c => (Ascii.digitValue radix c).isSome) =
      (text.take limit).takeWhile fun c => (Ascii.digitValue radix c).isSome := by
    rw [List.take_append]
    cases limit - text.length with
    | zero => rw [List.take_zero, List.append_nil]
    | succ n =>
      rw [List.take_succ_cons]
      exact takeWhile_append_stop (by rw [digitValue_backslash, Option.isSome_none]) _ _
  rw [readDigits, readDigits, hdigits]

theorem readOctal_append (text more : List UInt8) :
    readOctal (text ++ backslash :: more) = readOctal text := by
  rw [readOctal, readOctal, readDigits_append]

theorem readHex_append (text more : List UInt8) :
    readHex (text ++ backslash :: more) = readHex text := by
  rw [readHex, readHex, readDigits_append]

theorem readFixed_append (count : Nat) (fault : Malformed) (text more : List UInt8) :
    readFixed count fault (text ++ backslash :: more) = readFixed count fault text := by
  rw [readFixed, readFixed, readDigits_append]

theorem readBraced_append (text more : List UInt8) :
    readBraced (text ++ backslash :: more) = readBraced text := by
  have hzeros : (text ++ backslash :: more).takeWhile (· == 48) = text.takeWhile (· == 48) :=
    takeWhile_append_stop (by decide) _ _
  have hzerosLength : (text.takeWhile (· == 48)).length ≤ text.length :=
    (List.takeWhile_sublist _).length_le
  have hcount := (readDigits_count_le 16 6 (text.drop (text.takeWhile (· == 48)).length)).2
  rw [List.length_drop] at hcount
  -- The brace stands right behind the digits, and that is at most where the backslash is.
  have hbrace : ∀ i ≤ text.length,
      ((text ++ backslash :: more)[i]? = some 125 ↔ text[i]? = some 125) := by
    intro i hi
    rcases Nat.lt_or_eq_of_le hi with hi | rfl
    · rw [List.getElem?_append_left hi]
    · simp [backslash]
  rw [readBraced, readBraced, hzeros, List.drop_append_of_le_length hzerosLength,
    readDigits_append]
  simp only [hbrace _ (by omega : (text.takeWhile (· == 48)).length +
    (readDigits 16 6 (text.drop (text.takeWhile (· == 48)).length)).2 ≤ text.length)]

theorem isPrefixOf_append {name : List UInt8} (hname : backslash ∉ name) (text more : List UInt8) :
    name.isPrefixOf (text ++ backslash :: more) = name.isPrefixOf text := by
  rw [Bool.eq_iff_iff, List.isPrefixOf_iff_prefix, List.isPrefixOf_iff_prefix]
  refine ⟨fun h => ?_, fun h => h.trans (List.prefix_append _ _)⟩
  rcases List.prefix_or_prefix_of_prefix h (List.prefix_append _ _) with hshort | ⟨tail, rfl⟩
  · exact hshort
  · rw [List.prefix_append_right_inj] at h
    cases tail with
    | nil => simp
    | cons c tail =>
      rw [List.cons_prefix_cons] at h
      exact absurd (by simp [h.1]) hname

theorem readName_append (text more : List UInt8) :
    readName (text ++ backslash :: more) = readName text := by
  have hnames : ∀ entry ∈ names, backslash ∉ entry.1 := by decide
  rw [readName, readName]
  congr 1
  exact List.find?_congr fun entry hentry => isPrefixOf_append (hnames entry hentry) text more

/-- What is read of an escape that is used up in front of a backslash is read of it alone. -/
theorem readEscape_of_append {v : Value} {used : Nat}
    (h : readEscape (text ++ backslash :: more) = .ok (v, used)) (hused : used ≤ text.length) :
    readEscape text = .ok (v, used) := by
  cases text with
  | nil =>
    -- Two backslashes are an escape.
    have hpair : readEscape ([] ++ backslash :: more) = .ok (.byte backslash, 1) := rfl
    rw [hpair] at h
    cases h
    exact absurd hused (by decide)
  | cons c rest =>
    have hhead : ((rest ++ backslash :: more).head?.any fun d => (Ascii.digitValue 16 d).isSome) =
        rest.head?.any fun d => (Ascii.digitValue 16 d).isSome := by
      cases rest <;> simp [digitValue_backslash]
    rw [List.cons_append] at h
    unfold readEscape at h ⊢
    cases hletter : byteOf? c with
    | some b => simpa only [hletter] using h
    | none =>
      simp only [hletter, hhead] at h ⊢
      split_ifs at h ⊢ with hoctal hx hu hlong hcaret hupper hpunct
      · rwa [← List.cons_append, readOctal_append] at h
      · rwa [readHex_append] at h
      · cases rest with
        | nil => exact (readFixed_append 4 .shortScalarDigits [] more).symm.trans h
        | cons d digits =>
          by_cases hd : d = 123
          · subst hd
            exact (readBraced_append digits more).symm.trans h
          · rw [List.cons_append] at h
            split at h
            · rename_i hbrace
              exact absurd (List.cons.inj hbrace).1 hd
            split
            · rename_i hbrace
              exact absurd (List.cons.inj hbrace).1 hd
            rwa [← List.cons_append, readFixed_append] at h
      · rwa [readFixed_append] at h
      · cases rest with
        | nil =>
          -- The backslash itself would be the control character.
          cases h
          simp at hused
        | cons d rest => exact h
      · rwa [← List.cons_append, readName_append] at h
      · exact h
      · exact h

theorem decodeEscape_of_append {out : List UInt8} {used : Nat}
    (h : decodeEscape flags (text ++ backslash :: more) = .ok (out, used))
    (hused : used ≤ text.length) : decodeEscape flags text = .ok (out, used) := by
  cases hread : readEscape (text ++ backslash :: more) with
  | error fault =>
    rw [decodeEscape_fault hread] at h
    cases h
  | ok found =>
    obtain ⟨v, n⟩ := found
    by_cases hv : v = .unknown
    · subst hv
      obtain ⟨hn, -⟩ := readEscape_takes hread
      change n = 0 at hn
      subst hn
      have hcut := readEscape_of_append hread (Nat.zero_le _)
      rw [decodeEscape_unknown hread] at h
      rw [decodeEscape_unknown hcut]
      have hfirst : (text ++ backslash :: more).take 1 = text.take 1 := by
        cases text with
        | nil =>
          split_ifs at h <;> cases h <;> simp at hused
        | cons c rest => rfl
      rwa [hfirst] at h
    · rw [decodeEscape_value hv hread] at h
      have hn : n = used := by
        cases hw : write flags v with
        | error fault =>
          rw [hw] at h
          cases h
        | ok written =>
          rw [hw] at h
          cases h
          rfl
      subst hn
      rwa [decodeEscape_value hv (readEscape_of_append hread hused)]

/-! ## The place of a fault -/

/-- Reading fails at a backslash, and what stands in front of it is read. -/
theorem exists_of_decodeFrom_error {s : List UInt8} {k : Nat} {e : Error}
    (h : decodeFrom flags s k = .error e) :
    ∃ fault n out, e = .invalidFormat fault (k + n) ∧ s[n]? = some backslash ∧
      decodeFrom flags (s.take n) k = .ok out := by
  fun_induction decodeFrom flags s k with
  | case1 => cases h
  | case2 k rest fault hdecode =>
    cases h
    exact ⟨fault, 0, [], rfl, rfl, decodeFrom_nil k⟩
  | case3 k rest out used hdecode ih =>
    obtain ⟨fault, n, written, rfl, hslash, hfront⟩ := ih (eq_error_of_map h)
    rw [List.getElem?_drop] at hslash
    obtain ⟨hlt, hget⟩ := List.getElem?_eq_some_iff.1 hslash
    have hrest : rest = rest.take (used + n) ++ backslash :: rest.drop (used + n + 1) := by
      rw [← hget, ← List.drop_eq_getElem_cons hlt, List.take_append_drop]
    have hlen : (rest.take (used + n)).length = used + n := by
      rw [List.length_take]
      omega
    have hcut : decodeEscape flags (rest.take (used + n)) = .ok (out, used) := by
      rw [hrest] at hdecode
      exact decodeEscape_of_append hdecode (by omega)
    refine ⟨fault, used + n + 1, out ++ written, by congr 1; omega, hslash, ?_⟩
    rw [List.take_succ_cons, decodeFrom_escape hcut, List.drop_take, Nat.add_sub_cancel_left,
      hfront]
    rfl
  | case4 k c rest hc ih =>
    obtain ⟨fault, n, written, rfl, hslash, hfront⟩ := ih (eq_error_of_map h)
    refine ⟨fault, n + 1, c :: written, by congr 1; omega, hslash, ?_⟩
    rw [List.take_succ_cons, decodeFrom_plain hc, hfront]
    rfl

end CText.Escape
