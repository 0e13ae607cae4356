import CText.Proofs.Checked.Escape

/-!
# Escaped text between quotes

Escaped text can be put between quotes. A reader that skips the byte behind each backslash and stops
at the first other quote does not stop inside: every shape in which a byte is written is passed over
as a whole, whatever comes behind it, because a backslash never ends a shape and a quote stands in
one only behind a backslash. All that is written can be printed, the bytes from `0x80` on apart,
which are left as they are. The shortcut for strings in which nothing has to be escaped changes
nothing.
-/

namespace CText.Escape

variable {quote : UInt8} {text : List UInt8}

/-- The offset of the quote that closes a text, the byte behind each backslash being skipped. -/
def closingQuote (quote : UInt8) : List UInt8 → Option Nat
  | [] => none
  | c :: rest =>
    if c = backslash then
      match rest with
      | [] => none
      | _ :: rest => (closingQuote quote rest).map (2 + ·)
    else if c = quote then some 0
    else (closingQuote quote rest).map (1 + ·)

theorem closingQuote_backslash (quote c : UInt8) (rest : List UInt8) :
    closingQuote quote (backslash :: c :: rest) = (closingQuote quote rest).map (2 + ·) :=
  if_pos rfl

theorem closingQuote_other {c : UInt8} (hc : c ≠ backslash) (rest : List UInt8) :
    closingQuote quote (c :: rest) =
      if c = quote then some 0 else (closingQuote quote rest).map (1 + ·) := by
  cases rest <;> exact if_neg hc

/-- The bytes of ASCII that can be printed, and all bytes behind ASCII. -/
def IsPrinted (c : UInt8) : Prop := 0x20 ≤ c ∧ c ≠ 0x7F

instance (c : UInt8) : Decidable (IsPrinted c) := inferInstanceAs (Decidable (_ ∧ _))

/-! ## Passing over -/

/-- Text in which a reader finds no closing quote and behind which it goes on as behind any. -/
def PassedOver (quote : UInt8) (text : List UInt8) : Prop :=
  ∀ rest, closingQuote quote (text ++ rest) = (closingQuote quote rest).map (text.length + ·)

theorem passedOver_nil : PassedOver quote [] := by
  intro rest
  cases h : closingQuote quote rest <;> simp [h]

theorem PassedOver.append {more : List UInt8} (h : PassedOver quote text)
    (hmore : PassedOver quote more) : PassedOver quote (text ++ more) := by
  intro rest
  rw [List.append_assoc, h, hmore, Option.map_map, List.length_append]
  congr 1
  funext n
  exact (Nat.add_assoc _ _ _).symm

theorem passedOver_byte {c : UInt8} (hslash : c ≠ backslash) (hquote : c ≠ quote) :
    PassedOver quote [c] := by
  intro rest
  rw [List.singleton_append, closingQuote_other hslash, if_neg hquote]
  rfl

theorem passedOver_pair (quote c : UInt8) : PassedOver quote [backslash, c] := by
  intro rest
  exact closingQuote_backslash quote c rest

theorem passedOver_bytes (h : ∀ c ∈ text, c ≠ backslash ∧ c ≠ quote) : PassedOver quote text := by
  induction text with
  | nil => exact passedOver_nil
  | cons c rest ih =>
    rw [List.forall_mem_cons] at h
    exact (passedOver_byte h.1.1 h.1.2).append (ih h.2)

theorem isOctalDigit_of_mem {c d : UInt8} (h : d ∈ octalDigits c) :
    Ascii.isOctalDigit d = true := by
  have hdigits : ∀ c : UInt8, (octalDigits c).all Ascii.isOctalDigit = true :=
    byte_induction (by decide)
  exact List.all_eq_true.1 (hdigits c) d h

/-- The digits behind a backslash are no quotes. -/
theorem passedOver_digits (hquote : Ascii.isPunct quote = true) (c : UInt8) :
    PassedOver quote (backslash :: octalDigits c) := by
  have hpunct : ∀ d : UInt8, Ascii.isOctalDigit d = true →
      d ≠ backslash ∧ Ascii.isPunct d = false :=
    byte_induction (by decide)
  have hbehind : PassedOver quote [octalDigit c 3, octalDigit c 0] := by
    apply passedOver_bytes
    intro d hd
    obtain ⟨hslash, hnot⟩ := hpunct d (isOctalDigit_of_mem (List.mem_cons_of_mem _ hd))
    refine ⟨hslash, ?_⟩
    rintro rfl
    rw [hquote] at hnot
    cases hnot
  exact (passedOver_pair quote (octalDigit c 6)).append hbehind

theorem Written.passedOver {c : UInt8} (h : Written quote c text)
    (hquote : Ascii.isPunct quote = true) : PassedOver quote text := by
  have hne : quote ≠ 0 := by
    rintro rfl
    cases hquote
  cases h with
  | plain hplain =>
    simp only [needsEscape, Bool.or_eq_false_iff, Bool.and_eq_false_iff, beq_eq_false_iff_ne,
      bne_eq_false_iff_eq] at hplain
    exact passedOver_byte hplain.1.2 (hplain.2.resolve_left hne)
  | letter _ => exact passedOver_pair quote _
  | quoted _ _ => exact passedOver_pair quote c
  | octal _ => exact passedOver_digits hquote c

theorem passedOver_encodeNul (hquote : Ascii.isPunct quote = true) (rest : List UInt8) :
    PassedOver quote (encodeNul rest) := by
  rcases encodeNul_eq rest with ⟨h, -⟩ | ⟨h, -⟩ <;> rw [h]
  · exact passedOver_digits hquote 0
  · exact passedOver_pair quote 48

/-- A whole escaped text is passed over, shape by shape. -/
theorem passedOver_encode (hquote : Ascii.isPunct quote = true) (s : List UInt8) :
    PassedOver quote (encode quote s) := by
  fun_induction encode quote s with
  | case1 => exact passedOver_nil
  | case2 c => exact (encodeByte_written quote c).passedOver hquote
  | case3 c d rest _ ih => exact (passedOver_encodeNul hquote rest).append ih
  | case4 c d rest _ ih => exact ((encodeByte_written quote c).passedOver hquote).append ih

/-- A quote that is not itself the backslash closes what is passed over. -/
theorem PassedOver.closingQuote_eq (h : PassedOver quote text) (hne : quote ≠ backslash)
    (behind : List UInt8) : closingQuote quote (text ++ quote :: behind) = some text.length := by
  rw [h, closingQuote_other hne, if_pos rfl]
  rfl

/-! ## Printing -/

theorem Written.printed {c : UInt8} (h : Written quote c text)
    (hquote : quote = 0 ∨ Ascii.isPunct quote = true) : ∀ d ∈ text, IsPrinted d := by
  have hletters : ∀ c : UInt8, (letterOf? c).all (fun l => decide (IsPrinted l)) = true :=
    byte_induction (by decide)
  have hpunct : ∀ c : UInt8, Ascii.isPunct c = true → IsPrinted c := byte_induction (by decide)
  have hdigit : ∀ d : UInt8, Ascii.isOctalDigit d = true → IsPrinted d :=
    byte_induction (by decide)
  have hslash : IsPrinted backslash := by decide
  cases h with
  | plain hplain =>
    simp only [needsEscape, Bool.or_eq_false_iff, decide_eq_false_iff_not, UInt8.not_lt,
      beq_eq_false_iff_ne] at hplain
    exact List.forall_mem_singleton.2 ⟨hplain.1.1.1, hplain.1.1.2⟩
  | letter hletter =>
    have hprinted := hletters c
    rw [hletter] at hprinted
    exact List.forall_mem_cons.2
      ⟨hslash, List.forall_mem_singleton.2 (of_decide_eq_true hprinted)⟩
  | quoted hne hc =>
    subst hc
    have hc := hpunct c (hquote.resolve_left hne)
    exact List.forall_mem_cons.2 ⟨hslash, List.forall_mem_singleton.2 hc⟩
  | octal _ =>
    exact List.forall_mem_cons.2 ⟨hslash, fun d hd => hdigit d (isOctalDigit_of_mem hd)⟩

theorem printed_encodeNul (rest : List UInt8) : ∀ d ∈ encodeNul rest, IsPrinted d := by
  rcases encodeNul_eq rest with ⟨h, -⟩ | ⟨h, -⟩ <;> rw [h]
  · exact forall_mem_of_all (by decide)
  · exact forall_mem_of_all (by decide)

theorem printed_encode (hquote : quote = 0 ∨ Ascii.isPunct quote = true) (s : List UInt8) :
    ∀ d ∈ encode quote s, IsPrinted d := by
  fun_induction encode quote s with
  | case1 => exact List.forall_mem_nil IsPrinted
  | case2 c => exact (encodeByte_written quote c).printed hquote
  | case3 c d rest _ ih => exact List.forall_mem_append.2 ⟨printed_encodeNul rest, ih⟩
  | case4 c d rest _ ih =>
    exact List.forall_mem_append.2 ⟨(encodeByte_written quote c).printed hquote, ih⟩

/-! ## The shortcut -/

/-- Where the look for bytes to escape finds none, escaping byte by byte gives back the string. -/
theorem encodeFrom_of_isPlain {s : List UInt8} (hlen : s.length + 1 < Checked.countLimit)
    (h : Checked.isPlain quote s = .ok true) :
    Checked.encodeFrom quote s 0 s.length = .ok s := by
  rw [Checked.isPlain_eq] at h
  have hplain : isPlain quote s = true := Except.ok.inj h
  rw [Checked.encodeFrom_eq quote (by omega) hlen, List.drop_zero, encode_of_isPlain hplain]

/-- Escaping answers if and only if the quote is none or a punctuation mark and the memory can be
had. What it answers holds no byte below the space and no delete. Between two quotes that are not
the backslash it is closed by the second one, whatever comes behind: a reader that skips the byte
behind each backslash does not stop before. And where nothing has to be escaped the answer that is
given at once is what the loop over the string would come to. -/
theorem escaped_text_closed_by_quote (s : List UInt8) (quote : UInt8) :
    ((∃ text, escape s quote = .ok text) ↔
      (quote = 0 ∨ Ascii.isPunct quote = true) ∧
        room quote (CString.content s) ≤ maxReservation) ∧
    (∀ text, escape s quote = .ok text →
      (∀ c ∈ text, 0x20 ≤ c ∧ c ≠ 0x7F) ∧
      (quote ≠ 0 → quote ≠ backslash → ∀ behind,
        closingQuote quote (text ++ quote :: behind) = some text.length)) ∧
    (s.length ≤ maxReservation → Checked.isPlain quote (CString.content s) = .ok true →
      Checked.encodeFrom quote (CString.content s) 0 (CString.content s).length =
        .ok (CString.content s)) := by
  refine ⟨⟨?_, ?_⟩, ?_, ?_⟩
  · rintro ⟨text, htext⟩
    obtain ⟨hquote, -⟩ := eq_encode_of_escape htext
    refine ⟨hquote, ?_⟩
    by_contra hroom
    rw [escape_eq hquote, reserve_refused (by omega)] at htext
    cases htext
  · rintro ⟨hquote, hroom⟩
    rw [escape_eq hquote, reserve_granted (by omega)]
    exact ⟨_, rfl⟩
  · intro text htext
    obtain ⟨hquote, rfl⟩ := eq_encode_of_escape htext
    refine ⟨printed_encode hquote _, fun hne hslash behind => ?_⟩
    exact (passedOver_encode (hquote.resolve_left hne) _).closingQuote_eq hslash behind
  · intro hlen
    have hcontent := CString.content_length_le s
    have hlimit : maxReservation + 1 < Checked.countLimit := by decide
    exact encodeFrom_of_isPlain (by omega)

/-- A string with the quote in it and a modified zero in front of a digit, with two quotes behind
the escaped text, and a string for the shortcut. -/
theorem escaped_text_closed_sample :
    escape [34, 0xC0, 0x80, 55, 10] 34 = .ok [92, 34, 92, 48, 48, 48, 55, 92, 110] ∧
      closingQuote 34 [92, 34, 92, 48, 48, 48, 55, 92, 110, 34, 34] = some 9 ∧
      Checked.isPlain 34 [0xC0, 55] = .ok true ∧
      Checked.encodeFrom 34 [0xC0, 55] 0 2 = .ok [0xC0, 55] := by
  have hescape : escape [34, 0xC0, 0x80, 55, 10] 34 = .ok [92, 34, 92, 48, 48, 48, 55, 92, 110] :=
    rfl
  have hplain : Checked.isPlain 34 (CString.content [0xC0, 55]) = .ok true := rfl
  obtain ⟨-, htext⟩ := (escaped_text_closed_by_quote [34, 0xC0, 0x80, 55, 10] 34).2.1 _ hescape
  have hloop := (escaped_text_closed_by_quote [0xC0, 55] 34).2.2 (by decide) hplain
  exact ⟨hescape, htext (by decide) (by decide) [34], hplain, hloop⟩

end CText.Escape
