import CText.Escape.Encode
import CText.Proofs.CString.Content
import CText.Unit

/-!
# The shape of escaped text

A byte is written in one of four shapes, and what is shown of escaped text is shown shape by shape:
it holds no zero, it fits into the room asked for, and a string in which nothing has to be escaped
is its own escaped form.
-/

namespace CText.Escape

def octalDigits (c : UInt8) : List UInt8 := [octalDigit c 6, octalDigit c 3, octalDigit c 0]

/-- The shapes in which a byte is written. -/
inductive Written (quote c : UInt8) : List UInt8 → Prop where
  | plain (h : needsEscape quote c = false) : Written quote c [c]
  | letter {l : UInt8} (h : letterOf? c = some l) : Written quote c [backslash, l]
  | quoted (hquote : quote ≠ 0) (h : c = quote) : Written quote c [backslash, c]
  | octal (h : c < 0x20 ∨ c = 0x7F) : Written quote c (backslash :: octalDigits c)

theorem encodeByte_written (quote c : UInt8) : Written quote c (encodeByte quote c) := by
  rw [encodeByte]
  cases hletter : letterOf? c with
  | some l => exact .letter hletter
  | none =>
    have hbackslash : c ≠ backslash := by
      rintro rfl
      exact absurd hletter (by decide)
    by_cases hdel : c = 0x7F
    · subst c
      exact .octal (.inr rfl)
    by_cases hquoted : quote ≠ 0 ∧ c = quote
    · simp only [if_neg hdel, if_pos hquoted]
      exact .quoted hquoted.1 hquoted.2
    by_cases hlow : c < 0x20
    · simp only [if_neg hdel, if_neg hquoted, if_pos hlow]
      exact .octal (.inl hlow)
    · simp only [if_neg hdel, if_neg hquoted, if_neg hlow]
      refine .plain ?_
      simpa [needsEscape, hlow, hdel, hbackslash, ← UInt8.not_lt] using hquoted

/-- Every shape but the plain one is used only where there is need. -/
theorem Written.eq_singleton {quote c : UInt8} {text : List UInt8}
    (h : Written quote c text) (hplain : needsEscape quote c = false) : text = [c] := by
  have hc : ∀ c : UInt8, letterOf? c = none ∨ c < 0x20 ∨ c = backslash :=
    byte_induction (by decide)
  simp only [needsEscape, Bool.or_eq_false_iff, decide_eq_false_iff_not, beq_eq_false_iff_ne,
    Bool.and_eq_false_iff, bne_eq_false_iff_eq] at hplain
  obtain ⟨⟨⟨hlow, hdel⟩, hbackslash⟩, hquoted⟩ := hplain
  cases h with
  | plain _ => rfl
  | letter hletter =>
    rcases hc c with hnone | hsmall | hb
    · rw [hnone] at hletter
      cases hletter
    · exact absurd hsmall hlow
    · exact absurd hb hbackslash
  | quoted hquote hc => exact (hquoted.elim hquote (· hc)).elim
  | octal hoctal => exact (hoctal.elim hlow hdel).elim

theorem Written.length_le {quote c : UInt8} {text : List UInt8} (h : Written quote c text) :
    text.length ≤ 4 := by
  cases h <;> simp [octalDigits]

/-- Zero is the terminator, and no escape spells it out. -/
theorem Written.zero_notMem {quote c : UInt8} {text : List UInt8} (h : Written quote c text)
    (hc : c ≠ 0) : 0 ∉ text := by
  have hletters : ∀ c : UInt8, letterOf? c ≠ some 0 := byte_induction (by decide)
  have hdigits : ∀ c : UInt8, 0 ∉ octalDigits c := byte_induction (by decide)
  have hbackslash : (0 : UInt8) ≠ backslash := by decide
  cases h with
  | plain _ => simpa using hc.symm
  | letter hletter =>
    have hl := hletters c
    rw [hletter] at hl
    simpa [hbackslash] using fun h0 => hl (congrArg some h0.symm)
  | quoted _ _ => simpa [hbackslash] using hc.symm
  | octal _ => simpa [hbackslash] using hdigits c

/-- A byte is written from a backslash or from itself on. -/
theorem Written.head? {quote c : UInt8} {text : List UInt8} (h : Written quote c text) :
    text.head? = some backslash ∨ text.head? = some c := by
  cases h <;> simp

theorem encodeNul_eq (rest : List UInt8) :
    encodeNul rest = backslash :: octalDigits 0 ∧ rest.head?.any Ascii.isOctalDigit = true ∨
      encodeNul rest = [backslash, 48] ∧ rest.head?.any Ascii.isOctalDigit = false := by
  rw [encodeNul]
  cases h : rest.head?.any Ascii.isOctalDigit with
  | true => exact .inl ⟨by decide, rfl⟩
  | false => exact .inr ⟨by decide, rfl⟩

/-- Escaped text begins with a backslash, or with the byte that the string begins with. -/
theorem head?_encode (quote c : UInt8) (rest : List UInt8) :
    (encode quote (c :: rest)).head? = some backslash ∨
      (encode quote (c :: rest)).head? = some c := by
  cases rest with
  | nil => exact (encodeByte_written quote c).head?
  | cons d rest =>
    rw [encode]
    split
    · rcases encodeNul_eq rest with ⟨h, _⟩ | ⟨h, _⟩ <;> rw [h] <;> exact .inl rfl
    · rcases (encodeByte_written quote c).head? with h | h <;>
        rw [List.head?_append, h] <;> simp

theorem zero_notMem_encode (quote : UInt8) {s : List UInt8} (hs : 0 ∉ s) :
    0 ∉ encode quote s := by
  fun_induction encode quote s with
  | case1 => exact hs
  | case2 c =>
    exact (encodeByte_written quote c).zero_notMem (by simpa [eq_comm] using hs)
  | case3 c d rest _ ih =>
    have hnul : 0 ∉ encodeNul rest := by
      rcases encodeNul_eq rest with ⟨h, _⟩ | ⟨h, _⟩ <;> rw [h] <;> decide
    rw [List.mem_append, not_or]
    exact ⟨hnul, ih fun h => hs (List.mem_cons_of_mem _ (List.mem_cons_of_mem _ h))⟩
  | case4 c d rest _ ih =>
    rw [List.mem_cons, not_or] at hs
    rw [List.mem_append, not_or]
    exact ⟨(encodeByte_written quote c).zero_notMem (Ne.symm hs.1), ih hs.2⟩

theorem length_encode_le (quote : UInt8) (s : List UInt8) :
    (encode quote s).length ≤ s.length * 4 := by
  fun_induction encode quote s with
  | case1 => simp
  | case2 c => simpa using (encodeByte_written quote c).length_le
  | case3 c d rest _ ih =>
    have hnul : (encodeNul rest).length ≤ 4 := by
      rcases encodeNul_eq rest with ⟨h, _⟩ | ⟨h, _⟩ <;> rw [h] <;> decide
    simp only [List.length_append, List.length_cons]
    omega
  | case4 c d rest _ ih =>
    have hbyte := (encodeByte_written quote c).length_le
    simp only [List.length_append, List.length_cons] at ih ⊢
    omega

/-- Where nothing has to be escaped the escaped form is the string itself. -/
theorem encode_of_isPlain {quote : UInt8} {s : List UInt8} (h : isPlain quote s = true) :
    encode quote s = s := by
  simp only [isPlain, Bool.and_eq_true, Bool.not_eq_true', List.any_eq_false] at h
  obtain ⟨hbytes, hnul⟩ := h
  fun_induction encode quote s with
  | case1 => rfl
  | case2 c =>
    have hc : needsEscape quote c = false := by simpa using hbytes c (List.mem_singleton_self c)
    exact (encodeByte_written quote c).eq_singleton hc
  | case3 c d rest hpair ih => simp [hasModifiedNul, hpair] at hnul
  | case4 c d rest hpair ih =>
    have hc : needsEscape quote c = false := by simpa using hbytes c List.mem_cons_self
    have hrest : hasModifiedNul (d :: rest) = false := by
      simpa [hasModifiedNul, hpair] using hnul
    rw [(encodeByte_written quote c).eq_singleton hc,
      ih (fun b hb => hbytes b (List.mem_cons_of_mem _ hb)) hrest]
    rfl

theorem length_encode_le_room (quote : UInt8) (s : List UInt8) :
    (encode quote s).length ≤ room quote s := by
  rw [room]
  split
  · rename_i h
    rw [encode_of_isPlain h]
  · exact length_encode_le quote s

/-- Escaping, with the shortcut for strings that are their own escaped form left out. -/
theorem escape_eq {quote : UInt8} (hquote : quote = 0 ∨ Ascii.isPunct quote = true)
    (s : List UInt8) :
    escape s quote = (reserve 1 (room quote (CString.content s))).map
      fun _ => encode quote (CString.content s) := by
  have haccepted : ¬ (quote ≠ 0 ∧ (!Ascii.isPunct quote) = true) := by
    rintro ⟨hne, hnot⟩
    rcases hquote with h | h
    · exact hne h
    · rw [h] at hnot
      cases hnot
  have htext : (if isPlain quote (CString.content s) then CString.content s
      else encode quote (CString.content s)) = encode quote (CString.content s) := by
    split
    · rename_i h
      exact (encode_of_isPlain h).symm
    · rfl
  rw [escape, if_neg haccepted, ← htext]
  rfl

theorem escape_refused {quote : UInt8} (hquote : ¬ (quote = 0 ∨ Ascii.isPunct quote = true))
    (s : List UInt8) : escape s quote = .error (.invalidFormat .badQuote 0) := by
  rw [not_or, Bool.not_eq_true] at hquote
  rw [escape, if_pos ⟨hquote.1, by rw [hquote.2]; rfl⟩]

/-- Whatever escaping answers is the escaped form of the content. -/
theorem eq_encode_of_escape {quote : UInt8} {s text : List UInt8} (h : escape s quote = .ok text) :
    (quote = 0 ∨ Ascii.isPunct quote = true) ∧ text = encode quote (CString.content s) := by
  by_cases hquote : quote = 0 ∨ Ascii.isPunct quote = true
  · refine ⟨hquote, ?_⟩
    rw [escape_eq hquote] at h
    exact (eq_of_reserve_map h).symm
  · rw [escape_refused hquote] at h
    cases h

end CText.Escape
