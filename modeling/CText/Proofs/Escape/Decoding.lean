import CText.Escape.Decode
import CText.Proofs.Escape.Encoding

/-!
# Steps of the reader

One step of the reader takes one byte or one escape. Every escape takes at least as many bytes as
are written for it, and none that are not there. The escapes that writing uses are read back
whatever follows them; only the modified zero has to look at what follows.
-/

namespace CText.Escape

variable {flags : Flags}

/-- How many bytes after the backslash an escape takes at least, by what it stands for. What is no
escape takes none. -/
def Value.Takes : Value → Nat → Prop
  | .byte _, used => 1 ≤ used
  | .scalar _, used => 4 ≤ used
  | .unknown, used => used = 0

theorem readDigits_count_le (radix limit : Nat) (s : List UInt8) :
    (readDigits radix limit s).2 ≤ limit ∧ (readDigits radix limit s).2 ≤ s.length := by
  have htake := (List.takeWhile_sublist
    (l := s.take limit) fun c => (Ascii.digitValue radix c).isSome).length_le
  rw [List.length_take] at htake
  exact ⟨htake.trans (Nat.min_le_left _ _), htake.trans (Nat.min_le_right _ _)⟩

theorem readScalar_eq_scalar {n : Nat} {v : Value} (h : readScalar n = .ok v) :
    ∃ c, v = .scalar c := by
  rw [readScalar] at h
  split at h
  · cases h
    exact ⟨_, rfl⟩
  · cases h

theorem readOctal_takes {c : UInt8} {rest : List UInt8} {v : Value} {used : Nat}
    (hc : Ascii.isOctalDigit c = true) (h : readOctal (c :: rest) = .ok (v, used)) :
    v.Takes used ∧ used ≤ (c :: rest).length := by
  have hdigit : ∀ c : UInt8, Ascii.isOctalDigit c = true →
      (Ascii.digitValue 8 c).isSome = true := byte_induction (by decide)
  have hcount : 1 ≤ (readDigits 8 3 (c :: rest)).2 := by
    simp [readDigits, hdigit c hc]
  rw [readOctal] at h
  simp only at h
  split at h
  · cases h
    exact ⟨hcount, (readDigits_count_le 8 3 _).2⟩
  · cases h

theorem readHex_takes {rest : List UInt8} {v : Value} {used : Nat}
    (h : readHex rest = .ok (v, used)) : v.Takes used ∧ used ≤ rest.length + 1 := by
  have hcount := (readDigits_count_le 16 2 rest).2
  rw [readHex] at h
  simp only at h
  split at h
  · cases h
  · cases h
    refine ⟨?_, by omega⟩
    change 1 ≤ 1 + _
    omega

theorem readBraced_takes {rest : List UInt8} {v : Value} {used : Nat}
    (h : readBraced rest = .ok (v, used)) : v.Takes used ∧ used ≤ rest.length + 2 := by
  rw [readBraced] at h
  simp only at h
  split at h
  · rename_i hclosed
    obtain ⟨hcount, hbrace⟩ := hclosed
    have hlast := (List.getElem?_eq_some_iff.1 hbrace).1
    cases hv : readScalar (readDigits 16 6 (rest.drop (rest.takeWhile (· == 48)).length)).1 with
    | error _ => rw [hv] at h; cases h
    | ok w =>
      rw [hv] at h
      cases h
      obtain ⟨c, rfl⟩ := readScalar_eq_scalar hv
      refine ⟨?_, by omega⟩
      change 4 ≤ _
      omega
  · cases h

theorem readFixed_takes {count : Nat} {fault : Malformed} {rest : List UInt8} {v : Value}
    {used : Nat} (hcount : 3 ≤ count) (h : readFixed count fault rest = .ok (v, used)) :
    v.Takes used ∧ used ≤ rest.length + 1 := by
  have hle := (readDigits_count_le 16 count rest).2
  rw [readFixed] at h
  simp only at h
  split at h
  · rename_i hfound
    cases hv : readScalar (readDigits 16 count rest).1 with
    | error _ => rw [hv] at h; cases h
    | ok w =>
      rw [hv] at h
      cases h
      obtain ⟨c, rfl⟩ := readScalar_eq_scalar hv
      refine ⟨?_, by omega⟩
      change 4 ≤ _
      omega
  · cases h

theorem readCaret_takes {rest : List UInt8} {v : Value} {used : Nat}
    (h : readCaret rest = .ok (v, used)) : v.Takes used ∧ used ≤ rest.length + 1 := by
  unfold readCaret at h
  split at h
  · split at h
    · cases h
      exact ⟨Nat.le_succ 1, by simp⟩
    · split at h <;> cases h
      exact ⟨Nat.le_succ 1, by simp⟩
  · cases h

theorem readName_takes (s : List UInt8) :
    (readName s).1.Takes (readName s).2 ∧ (readName s).2 ≤ s.length := by
  have hnames : ∀ entry ∈ names, 1 ≤ entry.1.length := by decide
  rw [readName]
  split
  · rename_i name b hfound
    have hprefix := List.find?_some hfound
    exact ⟨hnames _ (List.mem_of_find?_eq_some hfound),
      (List.isPrefixOf_iff_prefix.1 hprefix).length_le⟩
  · exact ⟨rfl, Nat.zero_le _⟩

theorem readEscape_takes {s : List UInt8} {v : Value} {used : Nat}
    (h : readEscape s = .ok (v, used)) : v.Takes used ∧ used ≤ s.length := by
  cases s with
  | nil =>
    cases h
    exact ⟨rfl, Nat.zero_le _⟩
  | cons c rest =>
    unfold readEscape at h
    simp only at h
    split at h
    · cases h
      exact ⟨Nat.le_refl 1, by simp⟩
    split_ifs at h with hoctal hx hu hlong hcaret hupper hpunct
    · exact readOctal_takes hoctal h
    · exact readHex_takes h
    · split at h
      · exact readBraced_takes h
      · exact readFixed_takes (by decide) h
    · exact readFixed_takes (by decide) h
    · exact readCaret_takes h
    · have hname := readName_takes (c :: rest)
      rw [Except.ok.inj h] at hname
      exact hname
    · cases h
      exact ⟨Nat.le_refl 1, by simp⟩
    · cases h
      exact ⟨rfl, Nat.zero_le _⟩

theorem encodeChar_length_le (c : Char) : (Utf8.encodeChar c).length ≤ 4 := by
  unfold Utf8.encodeChar
  simp only
  split_ifs <;> simp

/-- What an escape stands for takes no more room than the escape, the backslash included. -/
theorem write_length_le {v : Value} {used : Nat} {out : List UInt8} (hv : v.Takes used)
    (h : write flags v = .ok out) : out.length ≤ used + 1 := by
  cases v with
  | byte b =>
    cases h
    change 1 ≤ used at hv
    split_ifs
    · change 2 ≤ _
      omega
    · simp
  | scalar c =>
    change 4 ≤ used at hv
    have hchar := encodeChar_length_le c
    rw [write] at h
    split_ifs at h <;> cases h
    · simp
    · change 2 ≤ _
      omega
    · omega
  | unknown => cases h

theorem decodeFrom_nil (k : Nat) : decodeFrom flags [] k = .ok [] := by
  rw [decodeFrom]

theorem decodeFrom_plain {c : UInt8} (hc : c ≠ backslash) (rest : List UInt8) (k : Nat) :
    decodeFrom flags (c :: rest) k = (decodeFrom flags rest (k + 1)).map (c :: ·) := by
  rw [decodeFrom, if_neg hc]

theorem decodeFrom_fault {rest : List UInt8} {fault : Malformed}
    (h : decodeEscape flags rest = .error fault) (k : Nat) :
    decodeFrom flags (backslash :: rest) k = .error (.invalidFormat fault k) := by
  rw [decodeFrom, if_pos rfl, h]

theorem decodeFrom_escape {rest out : List UInt8} {used : Nat}
    (h : decodeEscape flags rest = .ok (out, used)) (k : Nat) :
    decodeFrom flags (backslash :: rest) k =
      (decodeFrom flags (rest.drop used) (k + 1 + used)).map (out ++ ·) := by
  rw [decodeFrom, if_pos rfl, h]

theorem decodeEscape_fault {rest : List UInt8} {fault : Malformed}
    (h : readEscape rest = .error fault) : decodeEscape flags rest = .error fault := by
  rw [decodeEscape, h]

theorem decodeEscape_value {rest : List UInt8} {v : Value} {used : Nat} (hv : v ≠ .unknown)
    (h : readEscape rest = .ok (v, used)) :
    decodeEscape flags rest = (write flags v).map (·, used) := by
  rw [decodeEscape, h]
  cases v with
  | unknown => exact absurd rfl hv
  | byte b => rfl
  | scalar c => rfl

/-- An unknown escape takes the byte after the backslash with it. -/
theorem decodeEscape_unknown {rest : List UInt8} {used : Nat}
    (h : readEscape rest = .ok (.unknown, used)) :
    decodeEscape flags rest =
      if flags.keepUnknown then .ok (backslash :: rest.take 1, (rest.take 1).length)
      else if flags.dropUnknown then .ok (rest.take 1, (rest.take 1).length)
      else .error .unknownEscape := by
  obtain ⟨hused, _⟩ := readEscape_takes h
  change used = 0 at hused
  subst hused
  rw [decodeEscape, h]
  rfl

/-- What a backslash and the bytes after it become is no longer than what is used up. -/
theorem decodeEscape_fits {rest out : List UInt8} {used : Nat}
    (h : decodeEscape flags rest = .ok (out, used)) :
    out.length ≤ used + 1 ∧ used ≤ rest.length := by
  cases hread : readEscape rest with
  | error fault =>
    rw [decodeEscape_fault hread] at h
    cases h
  | ok found =>
    obtain ⟨v, n⟩ := found
    obtain ⟨htakes, hn⟩ := readEscape_takes hread
    by_cases hv : v = .unknown
    · subst hv
      have htake : (rest.take 1).length ≤ rest.length := List.length_take_le' 1 rest
      rw [decodeEscape_unknown hread] at h
      split_ifs at h <;> cases h
      · exact ⟨Nat.le_refl _, htake⟩
      · exact ⟨Nat.le_succ _, htake⟩
    · rw [decodeEscape_value hv hread] at h
      cases hw : write flags v with
      | error fault =>
        rw [hw] at h
        cases h
      | ok written =>
        rw [hw] at h
        cases h
        exact ⟨write_length_le htakes hw, hn⟩

end CText.Escape
