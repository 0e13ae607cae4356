import CText.Proofs.Escape.InPlace

/-!
# Reading back what was escaped

An escape that writing uses is read back whatever follows it, except that the short form of the
modified zero must not be followed by an octal digit and never is. Hence a whole string is read
back. The caret is the one quote for which this fails: a backslash and a caret begin the name of a
control character, so an escaped caret is taken together with the byte behind it.
-/

namespace CText.Escape

variable {flags : Flags} {quote : UInt8}

/-- The quote that is not read back. -/
def caret : UInt8 := 94

/-- The string with one byte zero in the place of every modified zero. -/
def withZeros : List UInt8 → List UInt8
  | [] => []
  | [c] => [c]
  | c :: d :: rest =>
    if [c, d] = modifiedNul then 0 :: withZeros rest else c :: withZeros (d :: rest)

/-- What a string is read back as. -/
def readBack (flags : Flags) (s : List UInt8) : List UInt8 :=
  if flags.raw then withZeros s else s

/-- In front of `rest`, `text` is read as `out`, and reading goes on behind it. -/
def ReadsAs (flags : Flags) (text out rest : List UInt8) : Prop :=
  ∀ k, decodeFrom flags (text ++ rest) k =
    (decodeFrom flags rest (k + text.length)).map (out ++ ·)

theorem ReadsAs.remaining {text out rest s : List UInt8} {k : Nat}
    (h : ReadsAs flags text out rest) (hread : decodeFrom flags (text ++ rest) k = .ok (out ++ s)) :
    decodeFrom flags rest (k + text.length) = .ok s := by
  rw [h k] at hread
  cases hrest : decodeFrom flags rest (k + text.length) with
  | error e =>
    rw [hrest] at hread
    cases hread
  | ok read =>
    rw [hrest] at hread
    rw [List.append_cancel_left (Except.ok.inj hread)]

theorem readsAs_plain {c : UInt8} (hc : c ≠ backslash) (rest : List UInt8) :
    ReadsAs flags [c] [c] rest :=
  fun k => decodeFrom_plain hc rest k

theorem readsAs_escape (tail : List UInt8) {rest out : List UInt8} {v : Value}
    (hread : readEscape (tail ++ rest) = .ok (v, tail.length)) (hwrite : write flags v = .ok out) :
    ReadsAs flags (backslash :: tail) out rest := by
  intro k
  have hv : v ≠ .unknown := by
    rintro rfl
    cases hwrite
  have hdecode : decodeEscape flags (tail ++ rest) = .ok (out, tail.length) := by
    rw [decodeEscape_value hv hread, hwrite]
    rfl
  rw [List.cons_append, decodeFrom_escape hdecode, List.drop_left, List.length_cons,
    Nat.add_assoc, Nat.add_comm 1]

theorem readEscape_letter {l c : UInt8} (h : byteOf? l = some c) (rest : List UInt8) :
    readEscape (l :: rest) = .ok (.byte c, 1) := by
  unfold readEscape
  simp only [h]

theorem readEscape_octal {c : UInt8} (h : Ascii.isOctalDigit c = true) (rest : List UInt8) :
    readEscape (c :: rest) = readOctal (c :: rest) := by
  have hletter : ∀ c : UInt8, Ascii.isOctalDigit c = true → byteOf? c = none :=
    byte_induction (by decide)
  unfold readEscape
  simp only [hletter c h, if_pos h]

/-- A punctuation mark stands for itself, with the one exception of the caret. -/
theorem readEscape_punct {c : UInt8} (h : Ascii.isPunct c = true) (hc : c ≠ caret)
    (rest : List UInt8) : readEscape (c :: rest) = .ok (.byte c, 1) := by
  have hletter : ∀ c : UInt8, Ascii.isPunct c = true → c = backslash ∨ byteOf? c = none :=
    byte_induction (by decide)
  have hclass : ∀ c : UInt8, Ascii.isPunct c = true →
      Ascii.isOctalDigit c = false ∧ Ascii.isUpper c = false := byte_induction (by decide)
  have hname : ∀ c : UInt8, Ascii.isPunct c = true →
      c ≠ Ascii.byte 'x' ∧ c ≠ Ascii.byte 'u' ∧ c ≠ Ascii.byte 'U' :=
    byte_induction (by decide)
  obtain rfl | hnone := hletter c h
  · exact readEscape_letter (by decide) rest
  · have hcaret : c ≠ Ascii.byte '^' := hc
    unfold readEscape
    simp [hnone, hclass c h, hname c h, hcaret, h]

theorem readEscape_caret (rest : List UInt8) : readEscape (caret :: rest) = readCaret rest :=
  rfl

/-- Three octal digits stand for their byte whatever follows. -/
theorem readEscape_octalDigits (c : UInt8) (rest : List UInt8) :
    readEscape (octalDigits c ++ rest) = .ok (.byte c, 3) := by
  have hfirst : ∀ c : UInt8, Ascii.isOctalDigit (octalDigit c 6) = true :=
    byte_induction (by decide)
  have hvalue : ∀ c : UInt8, readDigits 8 3 (octalDigits c) = (c.toNat, 3) :=
    byte_induction (by decide)
  have htake : readDigits 8 3 (octalDigits c ++ rest) = readDigits 8 3 (octalDigits c) := rfl
  have hread : readOctal (octalDigits c ++ rest) = .ok (.byte c, 3) := by
    simp only [readOctal, htake, hvalue c, if_pos c.toNat_lt, Nat.toUInt8_eq, UInt8.ofNat_toNat]
  exact (readEscape_octal (hfirst c) _).trans hread

/-- A single octal digit zero stands for the byte zero where no octal digit follows. -/
theorem readEscape_zero {rest : List UInt8} (h : rest.head?.any Ascii.isOctalDigit = false) :
    readEscape (48 :: rest) = .ok (.byte 0, 1) := by
  have hdigit : ∀ c : UInt8, Ascii.isOctalDigit c = false → (Ascii.digitValue 8 c).isSome = false :=
    byte_induction (by decide)
  have hread : readDigits 8 3 (48 :: rest) = (0, 1) := by
    cases rest with
    | nil => decide
    | cons c rest =>
      have hc : (Ascii.digitValue 8 c).isSome = false := hdigit c (by simpa using h)
      have hzero : Ascii.digitValue 8 48 = some 0 := by decide
      simp [readDigits, hzero, hc]
  rw [readEscape_octal (by decide)]
  simp [readOctal, hread]

theorem write_byte {c : UInt8} (hc : c ≠ 0) : write flags (.byte c) = .ok [c] := by
  simp [write, hc]

theorem Written.readsAs {c : UInt8} {text : List UInt8} (h : Written quote c text)
    (hc : c ≠ 0) (hquote : quote = 0 ∨ Ascii.isPunct quote = true)
    (hcaret : quote = caret → c ≠ caret) (rest : List UInt8) :
    ReadsAs flags text [c] rest := by
  have hletters : ∀ c : UInt8, (letterOf? c).all (fun l => byteOf? l = some c) = true :=
    byte_induction (by decide)
  cases h with
  | plain hplain =>
    refine readsAs_plain ?_ rest
    rintro rfl
    simp [needsEscape] at hplain
  | letter hletter =>
    have hback := hletters c
    rw [hletter, Option.all_some, decide_eq_true_iff] at hback
    exact readsAs_escape [_] (readEscape_letter hback rest) (write_byte hc)
  | quoted hq hcq =>
    subst hcq
    have hpunct := hquote.resolve_left hq
    have hne : c ≠ caret := fun h => hcaret h h
    exact readsAs_escape [c] (readEscape_punct hpunct hne rest) (write_byte hc)
  | octal _ => exact readsAs_escape _ (readEscape_octalDigits c rest) (write_byte hc)

/-- The modified zero is read back in front of any escaped text: the short form is used only where
no octal digit follows in the string, and then none follows in the escaped text either. -/
theorem encodeNul_readsAs (quote : UInt8) (rest : List UInt8) :
    ReadsAs flags (encodeNul rest) (if flags.raw then [0] else modifiedNul)
      (encode quote rest) := by
  have hwrite : write flags (.byte 0) = .ok (if flags.raw then [0] else modifiedNul) := by
    cases h : flags.raw <;> simp [write, h]
  rcases encodeNul_eq rest with ⟨htext, _⟩ | ⟨htext, hnodigit⟩
  · rw [htext]
    exact readsAs_escape _ (readEscape_octalDigits 0 _) hwrite
  · have hhead : (encode quote rest).head?.any Ascii.isOctalDigit = false := by
      cases rest with
      | nil => rfl
      | cons c rest =>
        rcases head?_encode quote c rest with h | h
        · rw [h]
          rfl
        · rw [h]
          exact hnodigit
    rw [htext]
    exact readsAs_escape [48] (readEscape_zero hhead) hwrite

theorem readBack_pair {c d : UInt8} (h : [c, d] = modifiedNul) (rest : List UInt8) :
    readBack flags (c :: d :: rest) =
      (if flags.raw then [0] else modifiedNul) ++ readBack flags rest := by
  unfold readBack
  split
  · rw [withZeros, if_pos h]
    rfl
  · rw [← h]
    rfl

theorem readBack_cons {c d : UInt8} (h : [c, d] ≠ modifiedNul) (rest : List UInt8) :
    readBack flags (c :: d :: rest) = c :: readBack flags (d :: rest) := by
  unfold readBack
  split
  · rw [withZeros, if_neg h]
  · rfl

/-- Escaped text is read back, whatever is done about unknown escapes. -/
theorem decodeFrom_encode {s : List UInt8} (hs : 0 ∉ s)
    (hquote : quote = 0 ∨ Ascii.isPunct quote = true) (hcaret : quote = caret → caret ∉ s)
    (k : Nat) : decodeFrom flags (encode quote s) k = .ok (readBack flags s) := by
  fun_induction encode quote s generalizing k with
  | case1 =>
    rw [decodeFrom_nil]
    simp [readBack, withZeros]
  | case2 c =>
    rw [List.mem_singleton] at hs
    have hc : ReadsAs flags (encodeByte quote c) [c] [] :=
      (encodeByte_written quote c).readsAs (Ne.symm hs) hquote
        (fun hq h => hcaret hq (by rw [h]; exact List.mem_singleton_self _)) []
    have hread := hc k
    rw [List.append_nil, decodeFrom_nil] at hread
    simpa [readBack, withZeros, Except.map] using hread
  | case3 c d rest hpair ih =>
    have hrest := ih (fun h => hs (List.mem_cons_of_mem _ (List.mem_cons_of_mem _ h)))
      (fun hq h => hcaret hq (List.mem_cons_of_mem _ (List.mem_cons_of_mem _ h)))
    rw [encodeNul_readsAs quote rest k, hrest, readBack_pair hpair]
    rfl
  | case4 c d rest hpair ih =>
    rw [List.mem_cons, not_or] at hs
    have hc : quote = caret → c ≠ caret := fun hq h =>
      hcaret hq (by rw [h]; exact List.mem_cons_self)
    have hrest := ih hs.2 fun hq h => hcaret hq (List.mem_cons_of_mem _ h)
    rw [(encodeByte_written quote c).readsAs (Ne.symm hs.1) hquote hc _ k, hrest,
      readBack_cons hpair]
    rfl

theorem readCaret_ne_caret {s : List UInt8} {v : Value} {used : Nat}
    (h : readCaret s = .ok (v, used)) : ∃ b, v = .byte b ∧ b ≠ caret := by
  have hcolumn : ∀ c : UInt8, 64 ≤ c ∧ c ≤ 95 → c - 64 ≠ caret :=
    byte_induction (by decide)
  unfold readCaret at h
  split at h
  · split_ifs at h with hc <;> cases h
    · exact ⟨_, rfl, hcolumn _ hc⟩
    · exact ⟨_, rfl, by decide⟩
  · cases h

/-- A caret behind a backslash is never read as a caret. -/
theorem decodeFrom_caret (text s : List UInt8) (k : Nat) :
    decodeFrom .plain (backslash :: caret :: text) k ≠ .ok (caret :: s) := by
  intro hread
  cases hcaret : readCaret text with
  | error fault =>
    have hfault : decodeEscape .plain (caret :: text) = .error fault :=
      decodeEscape_fault ((readEscape_caret text).trans hcaret)
    rw [decodeFrom_fault hfault] at hread
    cases hread
  | ok found =>
    obtain ⟨v, used⟩ := found
    obtain ⟨b, rfl, hb⟩ := readCaret_ne_caret hcaret
    have hvalue : decodeEscape .plain (caret :: text) = (write .plain (.byte b)).map (·, used) :=
      decodeEscape_value (by simp) ((readEscape_caret text).trans hcaret)
    rw [write, Except.map] at hvalue
    rw [decodeFrom_escape hvalue] at hread
    cases hrest : decodeFrom .plain ((caret :: text).drop used) (k + 1 + used) with
    | error e =>
      rw [hrest] at hread
      cases hread
    | ok out =>
      rw [hrest] at hread
      have hhead := congrArg List.head? (Except.ok.inj hread)
      split_ifs at hhead
      · exact absurd hhead (by simp [modifiedNul, caret])
      · exact hb (by simpa using hhead)

/-- With the caret as quote a string that has one is not read back. -/
theorem decodeFrom_encode_caret {s : List UInt8} (hs : 0 ∉ s) (hcaret : caret ∈ s) (k : Nat) :
    decodeFrom .plain (encode caret s) k ≠ .ok s := by
  have hquote : caret = 0 ∨ Ascii.isPunct caret = true := .inr (by decide)
  have hwritten : encodeByte caret caret = [backslash, caret] := by decide
  fun_induction encode caret s generalizing k with
  | case1 => cases hcaret
  | case2 c =>
    obtain rfl := List.mem_singleton.1 hcaret
    rw [hwritten]
    exact decodeFrom_caret [] [] k
  | case3 c d rest hpair ih =>
    intro hread
    have hrest : caret ∈ rest := by
      have hnot : caret ∉ [c, d] := by
        rw [hpair]
        decide
      exact (List.mem_append.1 (show caret ∈ [c, d] ++ rest from hcaret)).resolve_left hnot
    have hnul : modifiedNul ++ rest = c :: d :: rest := by
      rw [← hpair]
      rfl
    rw [← hnul] at hread
    exact ih (fun h => hs (List.mem_cons_of_mem _ (List.mem_cons_of_mem _ h))) hrest _
      ((encodeNul_readsAs caret rest).remaining hread)
  | case4 c d rest hpair ih =>
    intro hread
    rw [List.mem_cons, not_or] at hs
    by_cases hc : c = caret
    · subst hc
      rw [hwritten] at hread
      exact decodeFrom_caret _ _ k hread
    · have hrest : caret ∈ d :: rest := (List.mem_cons.1 hcaret).resolve_left (Ne.symm hc)
      have hreads : ReadsAs .plain (encodeByte caret c) [c] (encode caret (d :: rest)) :=
        (encodeByte_written caret c).readsAs (Ne.symm hs.1) hquote (fun _ => hc) _
      exact ih hs.2 hrest _ (hreads.remaining hread)

/-- Text that was escaped needs no more room to be read than it was granted to be written. -/
theorem unescape_encode {s : List UInt8} (hs : 0 ∉ s) (hroom : room quote s ≤ maxReservation) :
    unescape (encode quote s) flags = decodeFrom flags (encode quote s) 0 := by
  have hcontent : CString.content (encode quote s) = encode quote s :=
    CString.content_eq_self (zero_notMem_encode quote hs)
  have hlen := length_encode_le_room quote s
  rw [unescape, decode, hcontent, reserve_granted (by omega)]
  rfl

theorem unescapeInPlace_encode {s : List UInt8} (hs : 0 ∉ s) :
    unescapeInPlace (encode quote s) flags =
      (decodeFrom flags (encode quote s) 0).mapError Failure.error := by
  rw [unescapeInPlace_eq, decode, CString.content_eq_self (zero_notMem_encode quote hs)]

/-- Exactly the caret as quote, and only where it occurs, keeps a string from being read back. -/
theorem decodeFrom_encode_iff {s : List UInt8} (hs : 0 ∉ s)
    (hquote : quote = 0 ∨ Ascii.isPunct quote = true) (k : Nat) :
    decodeFrom .plain (encode quote s) k = .ok s ↔ (quote = caret → caret ∉ s) := by
  constructor
  · rintro hread rfl hcaret
    exact decodeFrom_encode_caret hs hcaret k hread
  · exact fun hcaret => decodeFrom_encode hs hquote hcaret k

/-- Escaping and reading, one after the other, is asking for memory once and reading back. -/
theorem escape_bind_unescape (s : List UInt8) (hquote : quote = 0 ∨ Ascii.isPunct quote = true) :
    (escape s quote >>= fun text => unescape text flags) =
      (reserve 1 (room quote (CString.content s)) >>= fun _ =>
        decodeFrom flags (encode quote (CString.content s)) 0) := by
  rw [escape_eq hquote]
  by_cases hroom : room quote (CString.content s) ≤ maxReservation
  · rw [reserve_granted (by omega)]
    exact unescape_encode (CString.nul_notMem_content s) hroom
  · rw [reserve_refused (by omega)]
    rfl

/-- What is escaped without a quote is read back, with zeros as single bytes if values are written
as bytes. Nothing can go wrong but the request for the memory to write the escapes. -/
theorem unescape_escape_without_quote (s : List UInt8) (flags : Flags) :
    (escape s 0 >>= fun text => unescape text flags) =
        (reserve 1 (room 0 (CString.content s))).map
          (fun _ => readBack flags (CString.content s)) ∧
      ∀ text, escape s 0 = .ok text →
        unescapeInPlace text flags = .ok (readBack flags (CString.content s)) := by
  have hs := CString.nul_notMem_content s
  have hread : decodeFrom flags (encode 0 (CString.content s)) 0 =
      .ok (readBack flags (CString.content s)) :=
    decodeFrom_encode hs (.inl rfl) (fun h => absurd h (by decide)) 0
  constructor
  · rw [escape_bind_unescape s (.inl rfl), hread]
    cases reserve 1 (room 0 (CString.content s)) <;> rfl
  · intro text htext
    obtain ⟨_, rfl⟩ := eq_encode_of_escape htext
    rw [unescapeInPlace_encode hs, hread]
    rfl

/-- Under a quote a string is read back if the quote is a punctuation mark and the memory can be
had, unless the quote is the caret and occurs in the string. -/
theorem unescape_escape_eq_content_iff (s : List UInt8) (quote : UInt8) :
    ((escape s quote >>= fun text => unescape text .plain) = .ok (CString.content s) ↔
        (quote = 0 ∨ Ascii.isPunct quote = true) ∧
          room quote (CString.content s) ≤ maxReservation ∧
          (quote = caret → caret ∉ CString.content s)) ∧
      ∀ text, escape s quote = .ok text →
        (unescapeInPlace text .plain = .ok (CString.content s) ↔
          (quote = caret → caret ∉ CString.content s)) := by
  have hs := CString.nul_notMem_content s
  constructor
  · by_cases hquote : quote = 0 ∨ Ascii.isPunct quote = true
    · rw [escape_bind_unescape s hquote, ← decodeFrom_encode_iff hs hquote 0]
      by_cases hroom : room quote (CString.content s) ≤ maxReservation
      · rw [reserve_granted (by omega)]
        exact ⟨fun h => ⟨hquote, hroom, h⟩, fun h => h.2.2⟩
      · rw [reserve_refused (by omega)]
        exact ⟨fun h => (by cases h), fun h => absurd h.2.1 hroom⟩
    · rw [escape_refused hquote]
      exact ⟨fun h => (by cases h), fun h => absurd h.1 hquote⟩
  · intro text htext
    obtain ⟨hquote, rfl⟩ := eq_encode_of_escape htext
    rw [unescapeInPlace_encode hs, ← decodeFrom_encode_iff hs hquote 0]
    cases decodeFrom .plain (encode quote (CString.content s)) 0 with
    | error e => simp [Except.mapError]
    | ok out => simp [Except.mapError]

/-- An escaped caret at the end of a string is an error to read. -/
theorem unescape_escape_caret :
    Ascii.isPunct caret = true ∧ escape [caret] caret = .ok [backslash, caret] ∧
      unescape [backslash, caret] .plain = .error (.invalidFormat .badCaret 0) := by
  refine ⟨by decide, rfl, ?_⟩
  have hfault : decodeEscape .plain [caret] = .error .badCaret := rfl
  exact decodeFrom_fault hfault 0

end CText.Escape
