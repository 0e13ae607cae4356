import CText.CString.Search
import CText.CString.Tokens
import CText.Proofs.CString.Content

/-!
# One call for a token

The span functions and the tokenizer were written without each other, and agree. Separating takes
the span free of delimiters, and cuts behind it unless the string ends there. Skipping moves over
the span of delimiters first, and separates from there on unless the string ends there.

All that a call can do follows from it: find no token, take the rest of the string for one, or cut
one off at a delimiter.
-/

namespace CText.CString

variable {α : Type} [DecidableEq α] [CodeUnit α] {s delims : List α} {pos : Nat}

theorem isDelimiter_nul (delims : List α) : isDelimiter delims CodeUnit.nul = false := by
  rw [isDelimiter, List.contains_eq_mem, decide_eq_false_iff_not]
  exact nul_notMem_content delims

theorem ne_nul_of_isDelimiter {d : α} (h : isDelimiter delims d = true) : d ≠ CodeUnit.nul := by
  rintro rfl
  rw [isDelimiter_nul] at h
  cases h

theorem span_true (s delims : List α) :
    span s delims true = ((content s).takeWhile (isDelimiter delims)).length := by
  rw [span, take_length, take_length]
  congr 2
  funext u
  exact beq_true _

theorem span_false (s delims : List α) :
    span s delims false = ((content s).takeWhile fun u => !isDelimiter delims u).length := by
  rw [span, take_length, take_length]
  congr 2
  funext u
  exact beq_false _

/-- A span ends at the first unit of the string that is of the other kind. -/
theorem span_eq_findIdx (s delims : List α) (within : Bool) :
    span s delims within = (content s).findIdx fun u => isDelimiter delims u != within := by
  rw [span, take_length, take_length, List.takeWhile_eq_take_findIdx_not, List.length_take,
    Nat.min_eq_left List.findIdx_le_length]
  rfl

theorem span_le_length (s delims : List α) (within : Bool) : span s delims within ≤ length s := by
  rw [span_eq_findIdx, length_eq]
  exact List.findIdx_le_length

/-- The unit that ends a span before the string ends. -/
theorem exists_of_span_lt {within : Bool} (h : span s delims within < length s) :
    ∃ u, s[span s delims within]? = some u ∧ u ≠ CodeUnit.nul ∧
      isDelimiter delims u = !within := by
  rw [span_eq_findIdx, length_eq] at *
  refine ⟨_, getElem?_of_content (List.getElem?_eq_getElem h), ?_, ?_⟩
  · intro hnul
    exact nul_notMem_content s (hnul ▸ List.getElem_mem h)
  · have hstop := List.findIdx_getElem (w := h)
    revert hstop
    cases isDelimiter delims _ <;> cases within <;> simp

/-- Behind a span of delimiters stands a unit that is none, unless the string ends there. -/
theorem span_pos_of_behind (h : length (s.drop (span s delims true)) ≠ 0) :
    0 < span (s.drop (span s delims true)) delims false := by
  have hle := span_le_length s delims true
  have hlt : span s delims true < length s := by
    rw [length_eq] at h hle ⊢
    rw [content_drop hle, List.length_drop] at h
    omega
  obtain ⟨u, hu, -, hword⟩ := exists_of_span_lt hlt
  by_contra hzero
  rw [Nat.pos_iff_ne_zero, ne_eq, not_not] at hzero
  obtain ⟨v, hv, -, hdelim⟩ := exists_of_span_lt (hzero.trans_lt (Nat.pos_of_ne_zero h))
  rw [hzero, List.getElem?_drop, Nat.add_zero, hu] at hv
  cases hv
  rw [hword] at hdelim
  cases hdelim

/-- Separating takes what is free of delimiters, and cuts unless the string ends there. -/
theorem separate_eq (s delims : List α) (pos : Nat) :
    separate s (some pos) delims =
      if span (s.drop pos) delims false < length (s.drop pos) then
        ⟨s.set (pos + span (s.drop pos) delims false) CodeUnit.nul,
          some (pos + span (s.drop pos) delims false + 1),
          some ⟨pos, span (s.drop pos) delims false⟩⟩
      else ⟨s, none, some ⟨pos, span (s.drop pos) delims false⟩⟩ := by
  have hspan : span (s.drop pos) delims false =
      (content (s.drop pos)).findIdx (isDelimiter delims) := by
    rw [span_eq_findIdx]
    congr 1
    funext u
    exact Bool.bne_false _
  rw [hspan, length_eq, separate]
  cases hfind : (content (s.drop pos)).findIdx? (isDelimiter delims) with
  | none =>
    have hend := List.findIdx?_eq_none_iff_findIdx_eq.1 hfind
    rw [if_neg (Nat.not_lt.2 hend.ge), hend]
  | some i =>
    obtain ⟨hlt, rfl⟩ := List.findIdx?_eq_some_iff_findIdx_eq.1 hfind
    rw [if_pos hlt]

theorem separate_token (s delims : List α) (pos : Nat) :
    (separate s (some pos) delims).token = some ⟨pos, span (s.drop pos) delims false⟩ := by
  rw [separate_eq]
  split <;> rfl

/-- Skipping moves over delimiters and then separates, unless the string ends there. -/
theorem skip_eq (s delims : List α) (pos : Nat) :
    skip s (some pos) delims =
      if length (s.drop (pos + span (s.drop pos) delims true)) = 0 then ⟨s, none, none⟩
      else separate s (some (pos + span (s.drop pos) delims true)) delims := by
  have hpos := @span_pos_of_behind _ _ _ (s.drop pos) delims
  rw [List.drop_drop] at hpos
  rw [skip]
  dsimp only
  rw [← span_true]
  revert hpos
  generalize pos + span (s.drop pos) delims true = start
  intro hpos
  by_cases hend : length (s.drop start) = 0
  · have hempty : content (s.drop start) = [] := by
      rwa [length_eq, List.length_eq_zero_iff] at hend
    rw [if_pos hend, hempty]
    rfl
  · have hne : ((content (s.drop start)).takeWhile fun u => !isDelimiter delims u).isEmpty
        = false := by
      rw [List.isEmpty_eq_false_iff, ne_eq, ← List.length_eq_zero_iff, ← span_false]
      exact (hpos hend).ne'
    rw [if_neg hend, hne, ← span_false, separate_eq]
    by_cases hlt : span (s.drop start) delims false < length (s.drop start)
    · obtain ⟨u, hu, hnul, -⟩ := exists_of_span_lt hlt
      rw [List.getElem?_drop] at hu
      rw [if_pos hlt, hu]
      exact if_neg hnul
    · have hstop := Nat.le_antisymm (span_le_length _ _ _) (Nat.not_lt.1 hlt)
      rw [if_neg hlt]
      cases hu : s[start + span (s.drop start) delims false]? with
      | none => rfl
      | some u =>
        rw [hstop, ← List.getElem?_drop] at hu
        exact if_pos (eq_nul_of_getElem?_length hu)

theorem skip_token (s delims : List α) (cursor : Option Nat) :
    (skip s cursor delims).token = cursor.bind fun pos =>
      let start := pos + span (s.drop pos) delims true
      if length (s.drop start) = 0 then none else some ⟨start, span (s.drop start) delims false⟩
    := by
  cases cursor with
  | none => rfl
  | some pos =>
    rw [skip_eq, Option.bind_some]
    dsimp only
    split
    · rfl
    · exact separate_token s delims _

/-- What one call can do at offset `pos` of a buffer: find no token, take the rest of the string for
one, or cut one off at a delimiter. -/
inductive Outcome (s delims : List α) (pos : Nat) : Cut α → Prop
  | finished : Outcome s delims pos ⟨s, none, none⟩
  | last (token : Span) (start_le : pos ≤ token.start)
      (stop_le : token.start + token.size ≤ s.length)
      (ended : ∀ u ∈ s[token.start + token.size]?, u = CodeUnit.nul) :
      Outcome s delims pos ⟨s, none, some token⟩
  | cut (token : Span) (start_le : pos ≤ token.start) (d : α)
      (found : s[token.start + token.size]? = some d) (delimits : isDelimiter delims d = true) :
      Outcome s delims pos ⟨s.set (token.start + token.size) CodeUnit.nul,
        some (token.start + token.size + 1), some token⟩

theorem Outcome.mono {i : Nat} {c : Cut α} (h : Outcome s delims pos c) (hi : i ≤ pos) :
    Outcome s delims i c := by
  cases h with
  | finished => exact .finished
  | last token start_le stop_le ended => exact .last token (hi.trans start_le) stop_le ended
  | cut token start_le d found delimits => exact .cut token (hi.trans start_le) d found delimits

theorem separate_outcome (delims : List α) (h : pos ≤ s.length) :
    Outcome s delims pos (separate s (some pos) delims) := by
  rw [separate_eq]
  split
  case isTrue hlt =>
    obtain ⟨d, hd, -, hdelim⟩ := exists_of_span_lt hlt
    rw [List.getElem?_drop] at hd
    exact .cut ⟨pos, _⟩ (Nat.le_refl pos) d hd hdelim
  case isFalse hge =>
    have hstop := Nat.le_antisymm (span_le_length _ _ _) (Nat.not_lt.1 hge)
    refine .last ⟨pos, _⟩ (Nat.le_refl pos) ?_ ?_
    · have hle := content_length_le (s.drop pos)
      rw [List.length_drop] at hle
      rw [hstop, length_eq]
      dsimp only
      omega
    · intro u hu
      rw [hstop, ← List.getElem?_drop] at hu
      exact eq_nul_of_getElem?_length hu

theorem skip_outcome (delims : List α) (h : pos ≤ s.length) :
    Outcome s delims pos (skip s (some pos) delims) := by
  rw [skip_eq]
  split
  · exact .finished
  · refine (separate_outcome delims ?_).mono (Nat.le_add_right _ _)
    have hle := (span_le_length (s.drop pos) delims true).trans_eq (length_eq _)
    have hlen := content_length_le (s.drop pos)
    rw [List.length_drop] at hlen
    omega

namespace Tokenizer

variable {t : Tokenizer α}

theorem next_separate (s delims : List α) (cursor : Option Nat) :
    next ⟨delims, .separate, cursor⟩ s = separate s cursor delims :=
  rfl

theorem next_skipEmpty (s delims : List α) (cursor : Option Nat) :
    next ⟨delims, .skipEmpty, cursor⟩ s = skip s cursor delims :=
  rfl

theorem next_outcome (hcursor : t.cursor = some pos) (h : pos ≤ s.length) :
    Outcome s t.delims pos (t.next s) := by
  obtain ⟨delims, style, cursor⟩ := t
  cases hcursor
  cases style with
  | separate => exact separate_outcome delims h
  | skipEmpty => exact skip_outcome delims h

theorem next_of_exhausted (hcursor : t.cursor = none) (s : List α) :
    t.next s = ⟨s, none, none⟩ := by
  obtain ⟨delims, style, cursor⟩ := t
  cases hcursor
  cases style <;> rfl

/-- A call that finds no token leaves the buffer alone and the tokenizer exhausted. -/
theorem next_of_token_none (h : (t.next s).token = none) : t.next s = ⟨s, none, none⟩ := by
  obtain ⟨delims, style, cursor⟩ := t
  cases cursor with
  | none => exact next_of_exhausted rfl s
  | some pos =>
    cases style with
    | separate =>
      rw [next_separate, separate_token] at h
      cases h
    | skipEmpty =>
      rw [next_skipEmpty, skip_eq] at h ⊢
      split at h
      case isTrue hend => exact if_pos hend
      case isFalse =>
        rw [separate_token] at h
        cases h

end Tokenizer

end CText.CString
