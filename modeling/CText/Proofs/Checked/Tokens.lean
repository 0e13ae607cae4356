import CText.Checked.Tokens
import CText.Proofs.Checked.CString
import CText.Proofs.CString.Tokens

/-!
# The cursor of a tokenizer stays in its buffer

A call that begins in the buffer, or at its end, reads and writes inside it, and the cursor that it
leaves is there too. By that invariant all calls for the tokens of a string come to what they are on
lists, and each token is a range of the buffer.
-/

namespace CText.Checked

open Buffer CString

variable {α : Type} [DecidableEq α] [CodeUnit α] {s delims : List α} {pos : Nat}

/-- Going through the string in a buffer for a delimiter. -/
theorem findDelimiter_eq (delims : List α) {left : Nat} (h : pos + left ≤ s.length) :
    findDelimiter s delims pos left =
      .ok ((((s.drop pos).take left).findIdx? (isDelimiter delims)).map (pos + ·)) := by
  induction left generalizing pos with
  | zero => rfl
  | succ left ih =>
    have hpos : pos < s.length := by omega
    rw [findDelimiter, fetch_getElem hpos, ok_bind, List.drop_eq_getElem_cons hpos,
      List.take_succ_cons, List.findIdx?_cons, ih (by omega)]
    split
    · rfl
    · cases ((s.drop (pos + 1)).take left).findIdx? (isDelimiter delims) with
      | none => rfl
      | some i =>
        rw [Option.map_some, Option.map_some, Option.map_some]
        congr 2
        omega

theorem separate_eq (delims : List α) (hpos : pos ≤ s.length) (h : s.length < countLimit) :
    separate s (some pos) delims = .ok (CString.separate s (some pos) delims) := by
  have hlen := length_le (s.drop pos)
  rw [List.length_drop] at hlen
  rw [separate, length_eq, ok_bind, add_eq (by omega), ok_bind, findDelimiter_eq _ (by omega),
    ok_bind, Nat.add_sub_cancel_left, take_length, CString.separate]
  cases hfound : (CString.content (s.drop pos)).findIdx? (isDelimiter delims) with
  | none =>
    rw [Option.map_none]
    dsimp only
    rw [sub_eq (Nat.le_add_right _ _), Nat.add_sub_cancel_left, CString.length_eq]
    rfl
  | some i =>
    have hi : i < CString.length (s.drop pos) := by
      rw [CString.length_eq]
      exact (List.findIdx?_eq_some_iff_findIdx_eq.1 hfound).1
    rw [Option.map_some]
    dsimp only
    rw [store_eq_set (by omega), ok_bind, add_eq (by omega), ok_bind, sub_eq (Nat.le_add_right _ _),
      ok_bind, Nat.add_sub_cancel_left]
    rfl

theorem advance_eq (wanted : α → Bool) {left : Nat} (h : s.length < countLimit)
    (hleft : s.length ≤ pos + left) :
    advance wanted s pos left =
      .ok (pos + ((CString.content (s.drop pos)).takeWhile wanted).length) := by
  induction left generalizing pos with
  | zero =>
    rw [List.drop_eq_nil_of_le (by omega)]
    rfl
  | succ left ih =>
    rw [advance]
    by_cases hpos : pos < s.length
    · rw [if_pos hpos, fetch_getElem hpos, ok_bind, List.drop_eq_getElem_cons hpos]
      by_cases hnul : s[pos] = CodeUnit.nul
      · rw [if_neg fun hgo => hgo.1 hnul, hnul, content_cons_nul]
        rfl
      · rw [content_cons hnul, List.takeWhile_cons]
        by_cases hwanted : wanted s[pos]
        · rw [if_pos ⟨hnul, hwanted⟩, if_pos hwanted, add_eq (by omega), ok_bind, ih (by omega),
            List.length_cons, Nat.add_right_comm, Nat.add_assoc]
        · rw [if_neg fun hgo => hwanted hgo.2, if_neg hwanted]
          rfl
    · rw [if_neg hpos, List.drop_eq_nil_of_le (by omega)]
      rfl

theorem goesOn_eq (s : List α) (pos : Nat) :
    goesOn s pos = .ok (decide (CString.length (s.drop pos) ≠ 0)) := by
  rw [goesOn, CString.length_eq]
  by_cases hpos : pos < s.length
  · rw [if_pos hpos, fetch_getElem hpos, ok_bind, List.drop_eq_getElem_cons hpos]
    by_cases hnul : s[pos] = CodeUnit.nul
    · rw [hnul, content_cons_nul]
      simp [pure, Except.pure]
    · rw [content_cons hnul]
      simp [hnul, pure, Except.pure]
  · rw [if_neg hpos, List.drop_eq_nil_of_le (by omega)]
    rfl

/-- Behind a part of its content the string goes on for the rest of it. -/
theorem length_drop_add {k : Nat} (h : k ≤ CString.length (s.drop pos)) :
    CString.length (s.drop (pos + k)) = CString.length (s.drop pos) - k := by
  rw [CString.length_eq] at h ⊢
  rw [← List.drop_drop, content_drop h, List.length_drop, ← CString.length_eq]

theorem skip_eq (delims : List α) (h : s.length < countLimit) :
    skip s (some pos) delims = .ok (CString.skip s (some pos) delims) := by
  rw [skip, advance_eq _ h (Nat.le_add_left _ _), ok_bind, ← span_true, CString.skip_eq]
  generalize pos + CString.span (s.drop pos) delims true = start
  rw [goesOn_eq, ok_bind]
  by_cases hend : CString.length (s.drop start) = 0
  · rw [if_neg (by simpa using hend), if_pos hend]
    rfl
  have hspan := span_le_length (s.drop start) delims false
  have hlen := length_le (s.drop start)
  rw [List.length_drop] at hlen
  rw [if_pos (by simpa using hend), if_neg hend, advance_eq _ h (Nat.le_add_left _ _), ok_bind,
    ← span_false, sub_eq (Nat.le_add_right _ _), ok_bind, goesOn_eq, ok_bind,
    length_drop_add hspan, Nat.add_sub_cancel_left, CString.separate_eq]
  by_cases hlt : CString.span (s.drop start) delims false < CString.length (s.drop start)
  · have hrest := Nat.sub_ne_zero_of_lt hlt
    rw [if_pos (decide_eq_true hrest), if_pos hlt, store_eq_set (by omega), ok_bind,
      add_eq (by omega), ok_bind]
    rfl
  · have hrest := Nat.sub_eq_zero_of_le (Nat.le_of_not_lt hlt)
    rw [if_neg (by simpa using hrest), if_neg hlt]
    rfl

theorem next_eq {t : Tokenizer α} (hcursor : ∀ pos ∈ t.cursor, pos ≤ s.length)
    (h : s.length < countLimit) : next t s = .ok (t.next s) := by
  obtain ⟨delims, style, cursor⟩ := t
  cases cursor with
  | none => cases style <;> rfl
  | some pos =>
    have hpos := hcursor pos rfl
    cases style with
    | separate => exact separate_eq delims hpos h
    | skipEmpty => exact skip_eq delims h

/-- A token that a call finds lies in the buffer, and so does the cursor that the call leaves. -/
theorem within_of_outcome {c : Cut α} (h : Outcome s delims pos c) :
    c.buffer.length = s.length ∧ (∀ i ∈ c.cursor, i ≤ s.length) ∧
      ∀ r ∈ c.token, r.start + r.size ≤ s.length := by
  cases h with
  | finished => exact ⟨rfl, nofun, nofun⟩
  | last token start_le stop_le ended =>
    refine ⟨rfl, nofun, ?_⟩
    rintro r ⟨⟩
    exact stop_le
  | cut token start_le d found delimits =>
    obtain ⟨hstop, -⟩ := List.getElem?_eq_some_iff.1 found
    refine ⟨List.length_set, ?_, ?_⟩
    · rintro i ⟨⟩
      exact hstop
    · rintro r ⟨⟩
      exact hstop.le

/-- All calls together come to what they are on lists, and none of the tokens lies outside. -/
theorem collect_eq {t : Tokenizer α} {calls : Nat} (hcursor : ∀ pos ∈ t.cursor, pos ≤ s.length)
    (h : s.length < countLimit) (hcalls : callsLeft s.length t.cursor < calls) :
    ∃ result, t.collect s = .ok result ∧ collect t s calls = .ok result := by
  induction calls generalizing t s with
  | zero => cases hcalls
  | succ calls ih =>
    rw [collect, next_eq hcursor h, ok_bind, Tokenizer.collect]
    split
    next hnone =>
      rw [hnone]
      exact ⟨_, rfl, rfl⟩
    next r hr =>
      obtain ⟨hlen, hnext, hr_le⟩ : (t.next s).buffer.length = s.length ∧
          (∀ i ∈ (t.next s).cursor, i ≤ s.length) ∧ r.start + r.size ≤ s.length := by
        rcases hpos : t.cursor with _ | pos
        · rw [Tokenizer.next_of_exhausted hpos] at hr
          cases hr
        · have houtcome := Tokenizer.next_outcome hpos (hcursor pos hpos)
          obtain ⟨hlen, hnext, htoken⟩ := within_of_outcome houtcome
          exact ⟨hlen, hnext, htoken r hr⟩
      have hcallsLeft := t.next_callsLeft s (by rw [hr]; rfl)
      obtain ⟨⟨tokens, rest⟩, hresult, hchecked⟩ := @ih (t.next s).buffer
        { t with cursor := (t.next s).cursor } (by rwa [hlen]) (by omega) (by dsimp only; omega)
      rw [hr]
      dsimp only
      rw [Span.slice, if_neg (by omega), if_neg (by omega), ok_bind, add_eq (by omega), ok_bind,
        slice_eq (Nat.le_add_right _ _) (by omega), ok_bind, hresult, hchecked,
        Nat.add_sub_cancel_left]
      exact ⟨_, rfl, rfl⟩

theorem tokens_eq (style : TokenStyle) {s : List α} (delims : List α) (h : s.length < countLimit) :
    ∃ result, (Tokenizer.start delims style).collect s = .ok result ∧
      tokens style s delims = .ok result := by
  refine collect_eq ?_ h ?_
  · intro pos hpos
    cases hpos
    exact Nat.zero_le _
  · exact Nat.lt_succ_self _

end CText.Checked
