import CText.Checked.Escape
import CText.Proofs.Checked.CString
import CText.Proofs.Escape.Turns

/-!
# Offsets and numbers of escapes

Writing and reading escapes stays in the buffer. An octal digit is made in a byte, at most eight
hexadecimal digits in 32 bits, and what an escape becomes is no longer than the escape.
-/

namespace CText.Checked

open Buffer Escape

/-! ## Writing -/

theorem any_runs_two (s : List UInt8) :
    (runs 2 s).any (· == modifiedNul) = hasModifiedNul s := by
  induction s with
  | nil => rfl
  | cons c rest ih =>
    cases rest with
    | nil => rfl
    | cons d rest =>
      have hroom : 2 ≤ (c :: d :: rest).length := Nat.le_add_left 2 _
      rw [runs, if_pos hroom, List.any_cons, ih, hasModifiedNul, beq_eq_decide]
      rfl

theorem isPlain_eq (quote : UInt8) (s : List UInt8) :
    isPlain quote s = .ok (Escape.isPlain quote s) := by
  have hwindows : windows 2 s = .ok (runs 2 s) := rfl
  rw [isPlain, Escape.isPlain, hwindows, ok_bind, any_runs_two]
  cases s.any (needsEscape quote) <;> rfl

theorem octalDigit_eq (c shift : UInt8) : octalDigit c shift = .ok (Escape.octalDigit c shift) := by
  have hdigit : ∀ n : UInt8, (n &&& 7).toNat ≤ 7 := byte_induction (by decide)
  have hbyte : ∀ n : UInt8, (48 + (n &&& 7).toNat).toUInt8 = 48 + (n &&& 7) :=
    byte_induction (by decide)
  have hlt := hdigit (c >>> shift)
  rw [octalDigit, addBelow_eq (by omega), ok_bind, hbyte]
  rfl

theorem encodeByte_eq (quote c : UInt8) : encodeByte quote c = .ok (Escape.encodeByte quote c) := by
  rw [encodeByte, Escape.encodeByte]
  cases letterOf? c with
  | some letter => rfl
  | none =>
    dsimp only
    rw [octalDigit_eq, ok_bind, octalDigit_eq, ok_bind, octalDigit_eq, ok_bind]
    split
    next => rfl
    next =>
      split
      next => rfl
      next => split <;> rfl

theorem encodeFrom_eq (quote : UInt8) {s : List UInt8} {i turns : Nat}
    (hturns : s.length ≤ i + turns) (h : s.length + 1 < countLimit) :
    encodeFrom quote s i turns = .ok (encode quote (s.drop i)) := by
  induction turns generalizing i with
  | zero =>
    rw [List.drop_eq_nil_of_le (show s.length ≤ i from hturns)]
    rfl
  | succ turns ih =>
    rw [encodeFrom]
    by_cases hi : i < s.length
    · have hdrop := List.drop_eq_getElem_cons hi
      have hnext : s.drop (i + 2) = (s.drop (i + 1)).tail := by
        rw [List.tail_drop]
      rw [if_pos hi, fetch_getElem hi, ok_bind, behind_eq hi.le, ok_bind, encodeByte_eq, ok_bind,
        add_eq (by omega), ok_bind, add_eq (by omega), ok_bind, ih (by omega), ih (by omega), hdrop,
        hnext]
      cases s.drop (i + 1) with
      | nil =>
        have hshort : modifiedNul.isPrefixOf [s[i]] = false := Bool.and_false _
        rw [hshort]
        exact congrArg Except.ok (List.append_nil _)
      | cons d rest =>
        have hnul : modifiedNul.isPrefixOf (s[i] :: d :: rest) = true ↔
            [s[i], d] = modifiedNul := by
          rw [List.isPrefixOf_iff_prefix, List.prefix_iff_eq_take, eq_comm]
          rfl
        rw [encode]
        split
        next hfound =>
          rw [if_pos (hnul.1 hfound)]
          rfl
        next hfound =>
          rw [if_neg (mt hnul.2 hfound)]
          rfl
    · rw [if_neg hi, List.drop_eq_nil_of_le (by omega)]
      rfl

theorem escape_eq {s : List UInt8} (quote : UInt8) (h : s.length * 4 + 1 < countLimit) :
    escape s quote = granted (Escape.escape s quote) := by
  have hlen := CString.content_length_le s
  rw [escape, Escape.escape]
  split
  next => rfl
  next =>
    rw [content_eq, checked_ok, ok_bind]
    dsimp only
    generalize CString.content s = text at hlen
    rw [isPlain_eq, checked_ok, ok_bind, room, granted_bind]
    split
    next hplain =>
      rfl
    next hplain =>
      rw [mul_eq (by omega), checked_ok, ok_bind, encodeFrom_eq quote (by omega) (by omega)]
      rfl

/-! ## Reading -/

/-- Room for the digits that are still to come leaves room for the next one. -/
theorem digit_fits {radix value left d : Nat} (hd : d < radix)
    (hvalue : (value + 1) * radix ^ (left + 1) ≤ 4294967296) :
    value * radix + d < 4294967296 ∧ (value * radix + d + 1) * radix ^ left ≤ 4294967296 := by
  have hnext : value * radix + d + 1 ≤ (value + 1) * radix := by
    rw [Nat.succ_mul]
    omega
  have hroom : (value * radix + d + 1) * radix ^ left ≤ 4294967296 := by
    calc (value * radix + d + 1) * radix ^ left
        ≤ (value + 1) * radix * radix ^ left := Nat.mul_le_mul_right _ hnext
      _ = (value + 1) * radix ^ (left + 1) := by rw [Nat.mul_assoc, Nat.pow_succ']
      _ ≤ 4294967296 := hvalue
  have hpos : 1 ≤ radix ^ left := Nat.pow_pos (by omega)
  have hle := Nat.mul_le_mul_left (value * radix + d + 1) hpos
  exact ⟨by omega, hroom⟩

theorem readDigitsFrom_eq {radix left : Nat} (s : List UInt8) (pos value count : Nat)
    (hvalue : (value + 1) * radix ^ left ≤ 4294967296) (h : pos + count + left < countLimit) :
    let digits := ((s.drop (pos + count)).take left).takeWhile
      (fun c => (Ascii.digitValue radix c).isSome)
    readDigits s pos radix value count left =
      .ok (digits.foldl (fun n c => n * radix + (Ascii.digitValue radix c).getD 0) value,
        count + digits.length) := by
  induction left generalizing value count with
  | zero => simp [readDigits, pure, Except.pure]
  | succ left ih =>
    dsimp only at ih ⊢
    rw [readDigits, add_eq (by omega), ok_bind, ← List.head?_drop]
    cases hdrop : s.drop (pos + count) with
    | nil => simp [pure, Except.pure]
    | cons c rest =>
      have hrest : s.drop (pos + (count + 1)) = rest := by
        rw [← Nat.add_assoc, ← List.drop_drop, hdrop]
        rfl
      rw [List.head?_cons, Option.bind_some, List.take_succ_cons]
      cases hc : Ascii.digitValue radix c with
      | none => simp [hc, pure, Except.pure]
      | some d =>
        obtain ⟨hlt, hroom⟩ := digit_fits (digitValue_lt hc) hvalue
        have hstop := ih (value * radix + d) (count + 1) hroom (by omega)
        rw [hrest] at hstop
        dsimp only
        rw [mulBelow_eq (by omega), ok_bind, addBelow_eq hlt, ok_bind, add_eq (by omega), ok_bind,
          hstop, List.takeWhile_cons_of_pos (by rw [hc]; rfl)]
        simp only [List.foldl_cons, hc, Option.getD_some, List.length_cons]
        rw [Nat.add_assoc, Nat.add_comm 1]

theorem readDigits_eq {radix limit : Nat} (s : List UInt8) (pos : Nat)
    (hradix : radix ^ limit ≤ 4294967296) (h : pos + limit < countLimit) :
    readDigits s pos radix 0 0 limit = .ok (Escape.readDigits radix limit (s.drop pos)) := by
  have hall := readDigitsFrom_eq s pos 0 0 (by rwa [Nat.zero_add, Nat.one_mul]) h
  dsimp only at hall
  rw [hall, Nat.add_zero, Nat.zero_add]
  rfl

/-- What is read behind the backslash at an offset. -/
def located (start : Nat) : Except Malformed (Value × Nat) → Except Failure (Value × Nat)
  | .ok (value, used) => .ok (value, start + 1 + used)
  | .error fault => refused fault start

theorem endingAt_eq (start n used : Nat) :
    endingAt start n (start + 1 + used) = located start ((readScalar n).map (·, used)) := by
  rw [endingAt]
  cases readScalar n <;> rfl

section

variable {s : List UInt8} {start : Nat}

theorem readBraced_eq (hstart : start + 3 ≤ s.length) (h : s.length + 16 < countLimit) :
    readBraced s start (start + 1) = located start (Escape.readBraced (s.drop (start + 3))) := by
  have hzeros := (List.takeWhile_sublist (l := s.drop (start + 3)) (· == 48)).length_le
  rw [List.length_drop] at hzeros
  rw [readBraced, Escape.readBraced, add_eq (by omega), checked_ok, ok_bind,
    behind_eq hstart, checked_ok, ok_bind]
  dsimp only
  generalize ((s.drop (start + 3)).takeWhile (· == 48)).length = zeros at hzeros
  rw [add_eq (by omega), checked_ok, ok_bind, readDigits_eq _ _ (by decide) (by omega), checked_ok,
    ok_bind, List.drop_drop]
  have hcount := (readDigits_count_le 16 6 (s.drop (start + 3 + zeros))).1
  generalize Escape.readDigits 16 6 (s.drop (start + 3 + zeros)) = found at hcount
  obtain ⟨n, count⟩ := found
  dsimp only at hcount ⊢
  have hclose : (s.drop (start + 3))[zeros + count]? = s[start + 3 + zeros + count]? := by
    rw [List.getElem?_drop, ← Nat.add_assoc]
  have hstop : start + 1 + 3 + zeros + count = start + 1 + (3 + zeros + count) := by omega
  rw [add_eq (by omega), checked_ok, ok_bind, hclose]
  split
  next =>
    rw [add_eq (by omega), ok_bind, add_eq (by omega), ok_bind, add_eq (by omega), checked_ok,
      ok_bind, hstop, endingAt_eq]
  next => rfl

theorem readFixed_eq {count : Nat} (fault : Malformed) (hcount : count ≤ 8)
    (hstart : start < s.length) (h : s.length + 16 < countLimit) :
    readFixed count fault s start (start + 1) =
      located start (Escape.readFixed count fault (s.drop (start + 2))) := by
  have hword : 16 ^ count ≤ 4294967296 :=
    (Nat.pow_le_pow_right (by decide) hcount).trans (by decide : 16 ^ 8 ≤ 4294967296)
  rw [readFixed, Escape.readFixed, add_eq (by omega), checked_ok, ok_bind,
    readDigits_eq _ _ hword (by omega), checked_ok, ok_bind]
  generalize Escape.readDigits 16 count (s.drop (start + 1 + 1)) = found
  obtain ⟨n, found⟩ := found
  dsimp only
  split
  next => rw [add_eq (by omega), checked_ok, ok_bind, endingAt_eq]
  next => rfl

theorem readCaret_eq (hstart : start < s.length) (h : s.length + 16 < countLimit) :
    readCaret s start (start + 1) = located start (Escape.readCaret (s.drop (start + 2))) := by
  rw [readCaret, add_eq (by omega), checked_ok, ok_bind, ← List.head?_drop]
  cases s.drop (start + 1 + 1) with
  | nil => rfl
  | cons c rest =>
    rw [List.head?_cons, Escape.readCaret, add_eq (by omega)]
    dsimp only
    split
    next hcolumn =>
      have hle : 64 ≤ c.toNat := UInt8.le_iff_toNat_le.1 hcolumn.1
      have hbyte : (c.toNat - 64).toUInt8 = c - 64 := by
        rw [← UInt8.toNat_inj, UInt8.toNat_sub_of_le _ _ hcolumn.1]
        exact UInt8.toNat_ofNat_of_lt (Nat.lt_of_le_of_lt (Nat.sub_le _ _) c.toNat_lt)
      rw [sub_eq hle, checked_ok, ok_bind, hbyte]
      rfl
    next => split <;> rfl

theorem readName_eq (hstart : start < s.length) (h : s.length + 16 < countLimit) :
    checked (readName s (start + 1)) =
      located start (.ok (Escape.readName (s.drop (start + 1)))) := by
  have hused := (readName_takes (s.drop (start + 1))).2
  rw [List.length_drop] at hused
  rw [readName, behind_eq (by omega), ok_bind]
  dsimp only
  rw [Escape.readName] at hused ⊢
  generalize names.find? _ = found at hused ⊢
  cases found with
  | none => rfl
  | some entry =>
    dsimp only at hused ⊢
    rw [add_eq (by omega)]
    rfl

/-- Reading at an offset sees what lies behind it. -/
theorem readEscape_eq (hstart : start < s.length) (h : s.length + 16 < countLimit) :
    readEscape s start = located start (Escape.readEscape (s.drop (start + 1))) := by
  rw [readEscape, add_eq (by omega), checked_ok, ok_bind, ← List.head?_drop]
  cases hdrop : s.drop (start + 1) with
  | nil => rfl
  | cons c rest =>
    have hlen := length_of_drop_eq hdrop
    have hrest : s.drop (start + 2) = rest := drop_of_drop_eq hdrop 0
    have hnext : s[start + 1 + 1]? = rest.head? := by
      rw [← List.head?_drop, hrest]
    rw [List.head?_cons, add_eq (by omega), checked_ok]
    unfold Escape.readEscape
    dsimp only
    cases byteOf? c with
    | some b => rfl
    | none =>
      simp only [ok_bind, hnext]
      split
      next =>
        rw [readDigits_eq _ _ (by decide) (by omega), checked_ok, ok_bind, readOctal, hdrop]
        have hcount := (readDigits_count_le 8 3 (c :: rest)).1
        generalize Escape.readDigits 8 3 (c :: rest) = found at hcount
        obtain ⟨n, count⟩ := found
        dsimp only at hcount ⊢
        split
        next =>
          rw [add_eq (by omega)]
          rfl
        next => rfl
      next =>
        split
        next =>
          rw [readDigits_eq _ _ (by decide) (by omega), checked_ok, ok_bind, readHex, hrest]
          have hcount := (readDigits_count_le 16 2 rest).1
          generalize Escape.readDigits 16 2 rest = found at hcount
          obtain ⟨n, count⟩ := found
          dsimp only at hcount ⊢
          split
          next => rfl
          next =>
            rw [add_eq (by omega), Nat.add_assoc (start + 1)]
            rfl
        next =>
          split
          next =>
            split
            next hbrace =>
              obtain ⟨digits, rfl⟩ := List.head?_eq_some_iff.1 hbrace
              have hdigits : s.drop (start + 3) = digits := drop_of_drop_eq hdrop 1
              rw [List.length_cons] at hlen
              rw [readBraced_eq (by omega) h, hdigits]
              rfl
            next hbrace =>
              rw [readFixed_eq _ (by decide) hstart h, hrest]
              split
              next => exact (hbrace rfl).elim
              next => rfl
          next =>
            split
            next => rw [readFixed_eq _ (by decide) hstart h, hrest]
            next =>
              split
              next => rw [readCaret_eq hstart h, hrest]
              next =>
                split
                next => rw [readName_eq hstart h, hdrop]
                next => split <;> rfl

end

/-! ## Decoding in place -/

section

variable {flags : Flags} {buf : List UInt8} {r w : Nat}

/-- A turn steps from cursors to cursors as it does on the text. -/
theorem decodeTurn_eq (flags : Flags) (hw : w ≤ r) (hr : r < buf.length)
    (h : buf.length + 16 < countLimit) :
    decodeTurn flags buf r w =
      (turn flags buf.length ⟨buf, r, w⟩).map fun st => (st.buf, st.read, st.write) := by
  rw [decodeTurn, turn, fetch_getElem hr, checked_ok, ok_bind, ok_bind]
  split
  next =>
    rw [store_eq_set (by omega), add_eq (by omega), add_eq (by omega)]
    rfl
  next =>
    rw [readEscape_eq hr h]
    dsimp only
    cases hread : Escape.readEscape (buf.drop (r + 1)) with
    | error fault => rfl
    | ok found =>
      obtain ⟨value, used⟩ := found
      obtain ⟨htakes, hused⟩ := readEscape_takes hread
      rw [List.length_drop] at hused
      have hlen : ∀ {out}, write flags value = .ok out → out.length ≤ used + 1 :=
        fun hout => write_length_le htakes hout
      cases value with
      | unknown =>
        change used = 0 at htakes
        subst htakes
        simp only [located, ok_bind, Nat.add_zero]
        split
        next =>
          have hstop : r ≤ min (r + 1 + 1) buf.length := by omega
          rw [add_eq (by omega), checked_ok, ok_bind, sub_eq hstop, ok_bind, add_eq (by omega)]
          generalize (slice buf r (min (r + 1 + 1) buf.length) >>= storeAll buf w) = stored
          cases stored <;> rfl
        next =>
          split
          next =>
            rw [add_eq (by omega), add_eq (by rw [List.length_take]; omega)]
            cases storeAll buf w ((buf.drop (r + 1)).take 1) <;> rfl
          next => rfl
      | byte _ | scalar _ =>
        simp only [located, ok_bind]
        cases hout : write flags _ with
        | error fault => rfl
        | ok out =>
          have hout := hlen hout
          dsimp only
          rw [add_eq (by omega), checked_ok, ok_bind]
          split
          next =>
            rw [replace_eq rfl (by omega), storeAll_eq (by omega)]
            rfl
          next => rfl

theorem decodeWithin_eq {turns : Nat} (hw : w ≤ r) (hr : r ≤ buf.length)
    (hturns : buf.length ≤ r + turns) (h : buf.length + 16 < countLimit) :
    decodeWithin flags buf r w turns = Escape.decodeWithin flags buf.length buf r w := by
  induction turns generalizing buf r w with
  | zero =>
    rw [decodeWithin_end (show buf.length ≤ r from hturns)]
    rfl
  | succ turns ih =>
    rw [decodeWithin]
    by_cases hread : r < buf.length
    · have hsound : (⟨buf, r, w⟩ : Cursors).Sound buf := ⟨rfl, hw, hr, rfl⟩
      rw [if_pos hread, decodeTurn_eq flags hw hread h, decodeWithin_turn hread]
      cases hturn : turn flags buf.length ⟨buf, r, w⟩ with
      | error e => rfl
      | ok next =>
        obtain ⟨hlen, hw, hr, -⟩ := hsound.turn hread hturn
        have hbehind : r < next.read := by
          obtain ⟨_, stop, -, hstop, -, hok⟩ | ⟨_, hfault⟩ := turn_cases hsound hread
          · rw [hok] at hturn
            cases hturn
            exact hstop
          · rw [hfault] at hturn
            cases hturn
        rw [← hlen]
        exact ih hw (by omega) (by omega) (by omega)
    · rw [if_neg hread, decodeWithin_end (by omega)]
      rfl

end

theorem unescape_eq {s : List UInt8} (flags : Flags) (h : s.length + 16 < countLimit) :
    unescape s flags = granted (Escape.unescape s flags) := by
  have hlen := CString.content_length_le s
  have hdecode := unescapeInPlace_eq s flags
  rw [unescapeInPlace] at hdecode
  rw [unescape, Escape.unescape, content_eq, checked_ok, ok_bind, granted_bind]
  congr 1
  funext _
  rw [decodeWithin_eq (Nat.le_refl 0) (Nat.zero_le _) (by omega) (by omega), hdecode]
  cases decode flags s <;> rfl

end CText.Checked
