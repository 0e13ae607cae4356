import CText.Proofs.Escape.Faults
import CText.Proofs.Escape.InPlace
import CText.Proofs.Escape.Words

/-!
# The run of decoding in place

Decoding in place takes one turn after another. At the start of every turn the write cursor is at or
behind the read cursor, and what lies from the read cursor on is as it was in the string. So no turn
leaves the buffer, writes what is not yet read or reads what is written, and the whole run answers
what decoding from an untouched copy answers, its faults included.
-/

namespace CText.Escape

open Buffer

/-- The states at the start and after every turn of decoding `s` in place. -/
inductive Reaches (flags : Flags) (s : List UInt8) : Cursors → Prop where
  | start : Reaches flags s ⟨s, 0, 0⟩
  | turn {st next : Cursors} (h : Reaches flags s st) (hread : st.read < s.length)
      (hturn : turn flags s.length st = .ok next) : Reaches flags s next

/-- What is true at the start and after every turn. -/
structure Cursors.Sound (st : Cursors) (s : List UInt8) : Prop where
  length_eq : st.buf.length = s.length
  write_le : st.write ≤ st.read
  read_le : st.read ≤ s.length
  unread : st.buf.drop st.read = s.drop st.read

variable {flags : Flags} {s : List UInt8} {st next : Cursors}

/-- A turn writes a piece no longer than what it reads, or fails where it reads. -/
theorem turn_cases (hst : st.Sound s) (hread : st.read < s.length) :
    (∃ piece stop, st.write + piece.length ≤ stop ∧ st.read < stop ∧ stop ≤ s.length ∧
        turn flags s.length st = .ok ⟨overwrite st.buf st.write piece, stop,
          st.write + piece.length⟩) ∨
      ∃ fault, turn flags s.length st = .error (.error (.invalidFormat fault st.read)) := by
  obtain ⟨buf, r, w⟩ := st
  obtain ⟨hlen, hw, hr, hunread⟩ := hst
  simp only at hlen hw hr hunread hread ⊢
  rw [← hlen] at hread ⊢
  obtain ⟨c, rest, hdrop⟩ := List.exists_cons_of_ne_nil
    (fun h => absurd (List.drop_eq_nil_iff.1 h) (Nat.not_le.2 hread))
  have hrest := length_of_drop_eq hdrop
  by_cases hc : c = backslash
  · subst hc
    rw [turn_backslash hw hdrop]
    cases hdecode : decodeEscape flags rest with
    | error fault => exact .inr ⟨fault, rfl⟩
    | ok found =>
      obtain ⟨out, used⟩ := found
      obtain ⟨hout, hused⟩ := decodeEscape_fits hdecode
      exact .inl ⟨out, r + 1 + used, by omega, by omega, by omega, rfl⟩
  · exact .inl ⟨[c], r + 1, by simpa using hw, by omega, by omega, turn_plain hw hdrop hc⟩

theorem Cursors.Sound.turn (hst : st.Sound s) (hread : st.read < s.length)
    (hturn : turn flags s.length st = .ok next) : next.Sound s := by
  obtain ⟨piece, stop, hpiece, hstop, hlen, hok⟩ | ⟨fault, hfault⟩ := turn_cases hst hread
  · rw [hok] at hturn
    cases hturn
    have hwrite : st.write ≤ st.buf.length := by
      rw [hst.length_eq]
      omega
    refine ⟨?_, hpiece, hlen, ?_⟩
    · rw [length_overwrite (by rw [hst.length_eq]; omega), hst.length_eq]
    · have hgo : stop = st.read + (stop - st.read) := by omega
      rw [drop_overwrite hwrite hpiece, hgo, ← List.drop_drop, hst.unread, List.drop_drop]
  · rw [hfault] at hturn
    cases hturn

theorem Reaches.sound (h : Reaches flags s st) : st.Sound s := by
  induction h with
  | start => exact ⟨rfl, Nat.le_refl 0, Nat.zero_le _, rfl⟩
  | turn _ hread hturn ih => exact ih.turn hread hturn

/-- From every state that is reached, the run goes on to the one answer. -/
theorem Reaches.decodeWithin_eq (h : Reaches flags s st) :
    decodeWithin flags s.length st.buf st.read st.write = decodeWithin flags s.length s 0 0 := by
  induction h with
  | start => rfl
  | turn _ hread hturn ih =>
    rw [decodeWithin_turn hread] at ih
    rw [← ih, hturn]
    rfl

theorem Reaches.turn_ne_violation (h : Reaches flags s st) (hread : st.read < s.length)
    (v : Violation) : Escape.turn flags s.length st ≠ .error (.violation v) := by
  obtain ⟨_, _, _, _, _, hok⟩ | ⟨fault, hfault⟩ := turn_cases h.sound hread
  · rw [hok]
    exact nofun
  · rw [hfault]
    exact nofun

/-- What an escape stands for ends where the escape ends or in front of that. -/
theorem Reaches.write_fits {v : Value} {used : Nat} {out : List UInt8} (h : Reaches flags s st)
    (hread : readEscape (st.buf.drop (st.read + 1)) = .ok (v, used))
    (hwrite : write flags v = .ok out) : st.write + out.length ≤ st.read + 1 + used := by
  have hout := write_length_le (readEscape_takes hread).1 hwrite
  have hw := h.sound.write_le
  omega

/-- Decoding in place fails at a backslash of the string, and the part in front of that is decoded
without fault. -/
theorem exists_of_unescapeInPlace_error {e : Failure} (h : unescapeInPlace s flags = .error e) :
    ∃ fault offset out, e = .error (.invalidFormat fault offset) ∧ s[offset]? = some backslash ∧
      offset < (CString.content s).length ∧ unescapeInPlace (s.take offset) flags = .ok out := by
  rw [unescapeInPlace_eq, decode] at h
  cases hdecode : decodeFrom flags (CString.content s) 0 with
  | ok out =>
    rw [hdecode] at h
    cases h
  | error e =>
    rw [hdecode] at h
    cases h
    obtain ⟨fault, n, out, rfl, hslash, hfront⟩ := exists_of_decodeFrom_error hdecode
    refine ⟨fault, n, out, by rw [Nat.zero_add], CString.getElem?_of_content hslash,
      (List.getElem?_eq_some_iff.1 hslash).1, ?_⟩
    rw [unescapeInPlace_eq, decode, CString.content_take, hfront]
    rfl

/-- Decoding in place answers what decoding from an untouched copy answers. At no time is the write
cursor in front of the read cursor, and no turn breaks a promise: every access is inside the buffer,
and what an escape stands for is no longer than the escape. No number leaves the 32 bits. A fault is
reported at a backslash of the string, and the part in front of that is decoded without fault. -/
theorem unescapeInPlace_refines_decode (s : List UInt8) (flags : Flags) :
    unescapeInPlace s flags = (decode flags s).mapError .error ∧
      (∀ st, Reaches flags (CString.content s) st →
        decodeWithin flags (CString.content s).length st.buf st.read st.write =
            unescapeInPlace s flags ∧
          st.write ≤ st.read ∧ st.read ≤ (CString.content s).length ∧
          st.buf.drop st.read = (CString.content s).drop st.read ∧
          (∀ v used out, readEscape (st.buf.drop (st.read + 1)) = .ok (v, used) →
            write flags v = .ok out → st.write + out.length ≤ st.read + 1 + used) ∧
          (st.read < (CString.content s).length →
            ∀ v, turn flags (CString.content s).length st ≠ .error (.violation v))) ∧
      (∀ rest, readEscapeInWord rest = some (readEscape rest)) ∧
      ∀ e, unescapeInPlace s flags = .error e →
        ∃ fault offset out, e = .error (.invalidFormat fault offset) ∧
          s[offset]? = some backslash ∧ offset < (CString.content s).length ∧
          unescapeInPlace (s.take offset) flags = .ok out := by
  refine ⟨unescapeInPlace_eq s flags, fun st h => ?_, readEscapeInWord_eq,
    fun e => exists_of_unescapeInPlace_error⟩
  have hsound := h.sound
  exact ⟨h.decodeWithin_eq, hsound.write_le, hsound.read_le, hsound.unread,
    fun v used out => h.write_fits, h.turn_ne_violation⟩

end CText.Escape
