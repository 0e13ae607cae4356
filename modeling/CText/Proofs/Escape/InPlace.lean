import CText.Escape.InPlace
import CText.Proofs.Buffer.Writing
import CText.Proofs.Escape.Decoding

/-!
# Decoding in place is decoding from a copy

The write cursor stays at or behind the read cursor, so what is still to be read is what was there
at the start. The step that keeps this up is the same for a byte, a known escape and an unknown
one: a piece no longer than what has been read is written behind the write cursor.
-/

namespace CText.Escape

open Buffer

variable {flags : Flags} {buf rest : List UInt8} {r w : Nat}

theorem length_of_drop_eq {c : UInt8} (h : buf.drop r = c :: rest) :
    buf.length = r + 1 + rest.length := by
  have hlen := congrArg List.length h
  rw [List.length_drop, List.length_cons] at hlen
  omega

theorem drop_of_drop_eq {c : UInt8} (h : buf.drop r = c :: rest) (n : Nat) :
    buf.drop (r + 1 + n) = rest.drop n := by
  rw [← List.drop_drop, ← List.drop_drop, h, List.drop_one, List.tail_cons]

/-- Where decoding in place stands: the buffer as it is now, and the two cursors. -/
structure Cursors where
  buf : List UInt8
  read : Nat
  write : Nat

/-- One turn of decoding in place: what stands at the read cursor, a byte or an escape, is read, and
what it becomes is written at the write cursor. -/
def turn (flags : Flags) (len : Nat) (st : Cursors) : Except Failure Cursors := do
  let c ← checked (fetch st.buf st.read)
  if c ≠ backslash then
    let written ← checked (store st.buf st.write c)
    return ⟨written, st.read + 1, st.write + 1⟩
  else match readEscape (st.buf.drop (st.read + 1)) with
    | .error fault => throw (.error (.invalidFormat fault st.read))
    | .ok (.unknown, used) =>
      let stop := min (st.read + 1 + used + 1) len
      if flags.keepUnknown then
        let written ← checked (do storeAll st.buf st.write (← slice st.buf st.read stop))
        return ⟨written, stop, st.write + (stop - st.read)⟩
      else if flags.dropUnknown then
        let next := (st.buf.drop (st.read + 1 + used)).take 1
        let written ← checked (storeAll st.buf st.write next)
        return ⟨written, stop, st.write + next.length⟩
      else throw (.error (.invalidFormat .unknownEscape st.read))
    | .ok (value, used) =>
      match write flags value with
      | .error fault => throw (.error (.invalidFormat fault st.read))
      | .ok out =>
        if st.write + out.length ≤ st.read + 1 + used then
          let written ← checked (storeAll st.buf st.write out)
          return ⟨written, st.read + 1 + used, st.write + out.length⟩
        else throw (.violation .cursorOvertaken)

/-- Decoding in place is taking turns until the read cursor is at the end. -/
theorem decodeWithin_turn {len : Nat} (hr : r < len) :
    decodeWithin flags len buf r w = turn flags len ⟨buf, r, w⟩ >>= fun next =>
      decodeWithin flags len next.buf next.read next.write := by
  rw [decodeWithin, dif_pos hr, turn]
  simp only [bind_assoc]
  congr 1
  funext c
  by_cases hc : c ≠ backslash
  · simp only [if_pos hc, bind_assoc, pure_bind]
  · simp only [if_neg hc]
    cases readEscape (buf.drop (r + 1)) with
    | error fault => rfl
    | ok found =>
      obtain ⟨v, used⟩ := found
      cases v with
      | unknown =>
        simp only
        by_cases hkeep : flags.keepUnknown = true
        · simp only [if_pos hkeep, bind_assoc, pure_bind]
        · by_cases hdrop : flags.dropUnknown = true
          · simp only [if_neg hkeep, if_pos hdrop, bind_assoc, pure_bind]
          · simp only [if_neg hkeep, if_neg hdrop]
            rfl
      | byte _ | scalar _ =>
        simp only
        generalize write flags _ = answer
        cases answer with
        | error fault => rfl
        | ok out =>
          by_cases hfits : w + out.length ≤ r + 1 + used
          · simp only [if_pos hfits, bind_assoc, pure_bind]
          · simp only [if_neg hfits]
            rfl

theorem decodeWithin_end (hr : buf.length ≤ r) :
    decodeWithin flags buf.length buf r w = .ok (buf.take w) := by
  rw [decodeWithin, dif_neg (by omega)]

theorem turn_plain {c : UInt8} (hw : w ≤ r) (h : buf.drop r = c :: rest) (hc : c ≠ backslash) :
    turn flags buf.length ⟨buf, r, w⟩ = .ok ⟨overwrite buf w [c], r + 1, w + 1⟩ := by
  have hlen := length_of_drop_eq h
  rw [turn, fetch_eq h]
  simp only [checked, bind, Except.bind]
  rw [if_pos hc, store_eq (by omega)]
  rfl

/-- A backslash is dealt with in place as in a copy: what the escape becomes is written, and reading
goes on behind the escape. -/
theorem turn_backslash (hw : w ≤ r) (h : buf.drop r = backslash :: rest) :
    turn flags buf.length ⟨buf, r, w⟩ =
      match decodeEscape flags rest with
      | .error fault => .error (.error (.invalidFormat fault r))
      | .ok (out, used) => .ok ⟨overwrite buf w out, r + 1 + used, w + out.length⟩ := by
  have hlen := length_of_drop_eq h
  have hwrite : ∀ {out : List UInt8} {used : Nat}, decodeEscape flags rest = .ok (out, used) →
      w + out.length ≤ r + 1 + used ∧ storeAll buf w out = .ok (overwrite buf w out) := by
    intro out used hdecode
    obtain ⟨hout, hused⟩ := decodeEscape_fits hdecode
    exact ⟨by omega, storeAll_eq (by omega)⟩
  rw [turn, fetch_eq h]
  simp only [checked, bind, Except.bind]
  rw [if_neg (not_not.2 rfl), drop_of_drop_eq h 0, List.drop_zero]
  cases hread : readEscape rest with
  | error fault =>
    rw [decodeEscape_fault hread]
    rfl
  | ok found =>
    obtain ⟨v, used⟩ := found
    cases v with
    | unknown =>
      obtain ⟨hused, _⟩ := readEscape_takes hread
      change used = 0 at hused
      subst hused
      have hstop : min (r + 1 + 0 + 1) buf.length = r + 1 + (rest.take 1).length := by
        rw [List.length_take]
        omega
      have hslice : slice buf r (r + 1 + (rest.take 1).length) =
          .ok (backslash :: rest.take 1) := by
        have hcount : r + 1 + (rest.take 1).length - r = (rest.take 1).length + 1 := by omega
        rw [slice_eq (by omega) (by rw [List.length_take]; omega), h, hcount, List.take_succ_cons,
          List.length_take, ← List.take_eq_take_min]
      rw [decodeEscape_unknown hread] at hwrite ⊢
      by_cases hkeep : flags.keepUnknown = true
      · simp only [hkeep, if_true] at hwrite ⊢
        obtain ⟨_, hstore⟩ := hwrite rfl
        have hadvance : r + 1 + (rest.take 1).length - r = (backslash :: rest.take 1).length := by
          rw [List.length_cons]
          omega
        simp only [hstop, hslice, hstore, hadvance]
        rfl
      · by_cases hdrop : flags.dropUnknown = true
        · simp only [hkeep, hdrop, if_true, if_false, Bool.false_eq_true] at hwrite ⊢
          obtain ⟨_, hstore⟩ := hwrite rfl
          simp only [hstop, Nat.add_zero, List.drop_zero, drop_of_drop_eq h 0, hstore]
          rfl
        · simp only [hkeep, hdrop, if_false, Bool.false_eq_true]
          rfl
    | _ =>
      rw [decodeEscape_value (by simp) hread] at hwrite ⊢
      simp only
      split
      · rename_i fault hout
        rw [hout]
        rfl
      · rename_i out hout
        rw [hout] at hwrite ⊢
        obtain ⟨hfits, hstore⟩ := hwrite rfl
        simp only [if_pos hfits, hstore]
        rfl

/-- The answer of decoding from a copy, put behind what is already written. -/
def continued (written : List UInt8) (answer : Except Error (List UInt8)) :
    Except Failure (List UInt8) :=
  (answer.map (written ++ ·)).mapError Failure.error

theorem continued_map (written out : List UInt8) (answer : Except Error (List UInt8)) :
    continued written (answer.map (out ++ ·)) = continued (written ++ out) answer := by
  cases answer with
  | error e => rfl
  | ok text =>
    change Except.ok (written ++ (out ++ text)) = Except.ok (written ++ out ++ text)
    rw [List.append_assoc]

/-- From any two cursors on, the write cursor not in front, decoding in place gives what decoding
the unread bytes from a copy gives. -/
theorem decodeWithin_eq (flags : Flags) {buf : List UInt8} {r w : Nat} (hw : w ≤ r)
    (hr : r ≤ buf.length) :
    decodeWithin flags buf.length buf r w =
      continued (buf.take w) (decodeFrom flags (buf.drop r) r) := by
  generalize hn : buf.length - r = n
  induction n using Nat.strong_induction_on generalizing buf r w with
  | _ n ih =>
    -- Once `piece` is written at `w`, what is left to read is as it was.
    have go : ∀ (piece : List UInt8) (stop : Nat), w + piece.length ≤ stop → r < stop →
        stop ≤ buf.length →
        decodeWithin flags buf.length (overwrite buf w piece) stop (w + piece.length) =
          continued (buf.take w ++ piece) (decodeFrom flags (buf.drop stop) stop) := by
      intro piece stop hpiece hstop hlen
      have hsame := length_overwrite (Nat.le_trans hpiece hlen)
      have hrec : decodeWithin flags (overwrite buf w piece).length (overwrite buf w piece) stop
          (w + piece.length) = continued _ _ :=
        ih (buf.length - stop) (by omega) hpiece (by omega) (by rw [hsame])
      rwa [hsame, take_overwrite (by omega), drop_overwrite (by omega) hpiece] at hrec
    cases hdrop : buf.drop r with
    | nil =>
      rw [decodeWithin_end (List.drop_eq_nil_iff.1 hdrop), decodeFrom_nil]
      simp [continued, Except.map, Except.mapError]
    | cons c rest =>
      have hlen := length_of_drop_eq hdrop
      by_cases hc : c = backslash
      · subst hc
        rw [decodeWithin_turn (by omega), turn_backslash hw hdrop]
        cases hdecode : decodeEscape flags rest with
        | error fault =>
          rw [decodeFrom_fault hdecode]
          rfl
        | ok found =>
          obtain ⟨out, used⟩ := found
          obtain ⟨hout, hused⟩ := decodeEscape_fits hdecode
          rw [decodeFrom_escape hdecode, continued_map, ← drop_of_drop_eq hdrop]
          exact go out (r + 1 + used) (by omega) (by omega) (by omega)
      · have hrest : rest = buf.drop (r + 1) := (drop_of_drop_eq hdrop 0).symm
        rw [decodeWithin_turn (by omega), turn_plain hw hdrop hc, decodeFrom_plain hc, hrest]
        exact (go [c] (r + 1) (by simpa using hw) (by omega) (by omega)).trans
          (continued_map _ [c] _).symm

theorem unescapeInPlace_eq (s : List UInt8) (flags : Flags) :
    unescapeInPlace s flags = (decode flags s).mapError Failure.error := by
  have h := decodeWithin_eq flags (Nat.le_refl 0) (Nat.zero_le (CString.content s).length)
  rw [List.take_zero, List.drop_zero] at h
  rw [unescapeInPlace, decode, h]
  cases decodeFrom flags (CString.content s) 0 <;> rfl

end CText.Escape
