import CText.Proofs.CString.Tokens
import CText.Proofs.Fields

/-!
# A run over all tokens

A buffer either holds no more delimiter in its string, or is a word, a delimiter and a buffer again.
Cutting follows these cases: what a call overwrites lies in front of the cursor that it leaves, so
that the calls to come see what was there from the start. A run therefore yields the fields of the
string; where empty tokens are skipped, it yields those that are not empty.
-/

namespace CText.CString

variable {α : Type} [DecidableEq α] [CodeUnit α]
variable {delims word more rest : List α} {d : α}

/-- Units none of which ends a string or a token. -/
def IsWord (delims word : List α) : Prop :=
  ∀ u ∈ word, u ≠ CodeUnit.nul ∧ isDelimiter delims u = false

/-- Whether a string has no delimiter left. -/
def IsLast (delims rest : List α) : Prop :=
  ∀ u ∈ content rest, isDelimiter delims u = false

theorem isLast_or_exists_word (delims rest : List α) :
    IsLast delims rest ∨
      ∃ word d more, rest = word ++ d :: more ∧ IsWord delims word ∧
        isDelimiter delims d = true := by
  induction rest with
  | nil => exact .inl fun u hu => by cases hu
  | cons a rest ih =>
    by_cases ha : a = CodeUnit.nul
    · refine .inl fun u hu => ?_
      rw [ha, content, List.takeWhile_cons_of_neg (by simp)] at hu
      cases hu
    · by_cases hdelim : isDelimiter delims a = true
      · exact .inr ⟨[], a, rest, rfl, List.forall_mem_nil _, hdelim⟩
      · rw [Bool.not_eq_true] at hdelim
        rcases ih with hlast | ⟨word, d, more, rfl, hword, hd⟩
        · refine .inl fun u hu => ?_
          rw [content_cons ha] at hu
          rcases List.mem_cons.1 hu with rfl | hu
          · exact hdelim
          · exact hlast u hu
        · refine .inr ⟨a :: word, d, more, rfl, fun u hu => ?_, hd⟩
          rcases List.mem_cons.1 hu with rfl | hu
          · exact ⟨ha, hdelim⟩
          · exact hword u hu

/-- Induction over the words of a string, from the last to the first. -/
theorem word_induction (delims : List α) {P : List α → Prop}
    (last : ∀ rest, IsLast delims rest → P rest)
    (cut : ∀ word d more, IsWord delims word → isDelimiter delims d = true → P more →
      P (word ++ d :: more)) (rest : List α) : P rest := by
  rcases isLast_or_exists_word delims rest with hlast | ⟨word, d, more, hrest, hword, hd⟩
  · exact last rest hlast
  · rw [hrest]
    exact cut word d more hword hd (word_induction delims last cut more)
termination_by rest.length
decreasing_by
  rw [hrest, List.length_append, List.length_cons]
  omega

theorem content_word (hword : IsWord delims word) (hd : isDelimiter delims d = true)
    (more : List α) : content (word ++ d :: more) = word ++ d :: content more := by
  rw [content_append fun hmem => (hword _ hmem).1 rfl, content_cons (ne_nul_of_isDelimiter hd)]

theorem length_word (hword : IsWord delims word) (hd : isDelimiter delims d = true)
    (more : List α) : length (word ++ d :: more) = word.length + 1 + length more := by
  rw [length_eq, content_word hword hd, List.length_append, List.length_cons, length_eq]
  omega

theorem span_word (hword : IsWord delims word) (hd : isDelimiter delims d = true)
    (more : List α) : span (word ++ d :: more) delims false = word.length := by
  have hfree : ∀ u ∈ word, (!isDelimiter delims u) = true := fun u hu => by
    rw [(hword u hu).2]
    rfl
  rw [span_false, content_word hword hd, List.takeWhile_append_of_pos hfree,
    List.takeWhile_cons_of_neg (by simp [hd]), List.append_nil]

theorem span_last (h : IsLast delims rest) : span rest delims false = length rest := by
  have hfree : ∀ u ∈ content rest, (!isDelimiter delims u) = true := fun u hu => by
    rw [h u hu]
    rfl
  rw [span_false, List.takeWhile_eq_self_iff.2 hfree, length_eq]

/-- The fields of a string between its delimiters. -/
def cells (delims s : List α) : List (List α) :=
  fields (isDelimiter delims) (content s)

theorem cells_last (h : IsLast delims rest) : cells delims rest = [content rest] :=
  fields_of_free h

theorem cells_word (hword : IsWord delims word) (hd : isDelimiter delims d = true)
    (more : List α) : cells delims (word ++ d :: more) = word :: cells delims more := by
  rw [cells, content_word hword hd, fields_append hd, fields_of_free fun u hu => (hword u hu).2]
  rfl

/-- The ranges of fields that stand one after the other from an offset, each behind the separator
that ends the one before it. -/
def spansFrom (offset : Nat) : List (List α) → List Span
  | [] => []
  | field :: others => ⟨offset, field.length⟩ :: spansFrom (offset + field.length + 1) others

theorem slice_append {β : Type} (front word rest : List β) :
    Span.slice ⟨front.length, word.length⟩ (front ++ (word ++ rest)) = .ok word := by
  rw [Span.slice, if_neg, if_neg, List.drop_left, List.take_left]
  all_goals
    simp only [List.length_append]
    omega

/-- The ranges of the fields hold the fields. -/
theorem spansFrom_slice (delims front rest : List α) :
    (spansFrom front.length (cells delims rest)).map (·.slice (front ++ rest)) =
      (cells delims rest).map .ok := by
  induction rest using word_induction delims generalizing front with
  | last rest hlast =>
    have hrest : content rest ++ rest.dropWhile (· ≠ CodeUnit.nul) = rest :=
      List.takeWhile_append_dropWhile
    have hslice := slice_append front (content rest) (rest.dropWhile (· ≠ CodeUnit.nul))
    rw [hrest] at hslice
    rw [cells_last hlast]
    exact congrArg (fun r => [r]) hslice
  | cut word d more hword hd ih =>
    have hmore := ih (front ++ word ++ [d])
    rw [List.length_append, List.length_append, List.length_singleton, List.append_assoc,
      List.append_assoc, List.singleton_append] at hmore
    rw [cells_word hword hd, spansFrom, List.map_cons, List.map_cons, hmore, slice_append]

/-- A unit, overwritten if it is a delimiter. -/
def blank (delims : List α) (u : α) : α :=
  if isDelimiter delims u then CodeUnit.nul else u

theorem map_blank (h : ∀ u ∈ word, isDelimiter delims u = false) :
    word.map (blank delims) = word := by
  have hblank : ∀ u ∈ word, blank delims u = id u := fun u hu => by
    rw [blank, h u hu]
    rfl
  rw [List.map_congr_left hblank, List.map_id]

/-- A buffer with the delimiters of its string overwritten. -/
def blanked (delims s : List α) : List α :=
  (content s).map (blank delims) ++ s.drop (content s).length

theorem blanked_last (h : IsLast delims rest) : blanked delims rest = rest := by
  rw [blanked, map_blank h, ← length_eq, ← take_length, List.take_append_drop]

theorem blanked_word (hword : IsWord delims word) (hd : isDelimiter delims d = true)
    (more : List α) :
    blanked delims (word ++ d :: more) = word ++ CodeUnit.nul :: blanked delims more := by
  have hblank : blank delims d = CodeUnit.nul := if_pos hd
  rw [blanked, content_word hword hd, List.map_append, List.map_cons,
    map_blank fun u hu => (hword u hu).2, hblank, blanked, List.length_append, List.length_cons,
    List.drop_length_add_append, List.drop_succ_cons, List.append_assoc, List.cons_append]

namespace Tokenizer

variable {t : Tokenizer α} {s : List α}

theorem next_word (hword : IsWord delims word) (hd : isDelimiter delims d = true)
    (front more : List α) :
    next ⟨delims, .separate, some front.length⟩ (front ++ (word ++ d :: more)) =
      ⟨front ++ word ++ [CodeUnit.nul] ++ more, some (front ++ word ++ [CodeUnit.nul]).length,
        some ⟨front.length, word.length⟩⟩ := by
  have hlt : word.length < length (word ++ d :: more) := by
    rw [length_word hword hd]
    omega
  rw [next_separate, separate_eq, List.drop_left, span_word hword hd, if_pos hlt]
  simp [Nat.add_assoc]

theorem next_last (h : IsLast delims rest) (front : List α) :
    next ⟨delims, .separate, some front.length⟩ (front ++ rest) =
      ⟨front ++ rest, none, some ⟨front.length, (content rest).length⟩⟩ := by
  rw [next_separate, separate_eq, List.drop_left, span_last h, if_neg (Nat.lt_irrefl _), length_eq]

/-- Skipping separates where a word begins. -/
theorem next_of_content_cons {u : α} {others : List α} (hrest : content rest = u :: others)
    (hu : isDelimiter delims u = false) (front : List α) :
    next ⟨delims, .skipEmpty, some front.length⟩ (front ++ rest) =
      next ⟨delims, .separate, some front.length⟩ (front ++ rest) := by
  have hlead : span rest delims true = 0 := by
    rw [span_true, hrest, List.takeWhile_cons_of_neg (by simp [hu])]
    rfl
  rw [next_skipEmpty, next_separate, skip_eq, List.drop_left, hlead, Nat.add_zero, List.drop_left,
    length_eq, hrest, if_neg (by simp)]

theorem next_of_content_nil (hrest : content rest = []) (front : List α) :
    next ⟨delims, .skipEmpty, some front.length⟩ (front ++ rest) = ⟨front ++ rest, none, none⟩ := by
  have hlead : span rest delims true = 0 := by
    rw [span_true, hrest]
    rfl
  rw [next_skipEmpty, skip_eq, List.drop_left, hlead, Nat.add_zero, List.drop_left, length_eq,
    hrest]
  rfl

/-- Skipping moves over a delimiter in front. -/
theorem next_delimiter (hd : isDelimiter delims d = true) (front more : List α) :
    next ⟨delims, .skipEmpty, some front.length⟩ (front ++ d :: more) =
      next ⟨delims, .skipEmpty, some (front.length + 1)⟩ (front ++ d :: more) := by
  have hlead : span (d :: more) delims true = span more delims true + 1 := by
    rw [span_true, content_cons (ne_nul_of_isDelimiter hd), List.takeWhile_cons_of_pos hd,
      List.length_cons, span_true]
  have hdrop : (front ++ d :: more).drop (front.length + 1) = more := by
    rw [List.drop_length_add_append, List.drop_one, List.tail_cons]
  rw [next_skipEmpty, next_skipEmpty, skip_eq, skip_eq, List.drop_left, hdrop, hlead,
    Nat.add_right_comm front.length 1, Nat.add_assoc front.length]

theorem run_of_next_none {s' : List α} {cursor : Option Nat}
    (h : t.next s = ⟨s', cursor, none⟩) : t.run s = ([], s') := by
  rw [run]
  split
  · rw [h]
  · simp_all

theorem run_of_next_some {s' : List α} {cursor : Option Nat} {r : Span}
    (h : t.next s = ⟨s', cursor, some r⟩) :
    t.run s =
      (r :: (run { t with cursor := cursor } s').1, (run { t with cursor := cursor } s').2) := by
  rw [run]
  split
  · simp_all
  · simp_all

theorem run_of_exhausted (h : t.cursor = none) (s : List α) : t.run s = ([], s) :=
  run_of_next_none (next_of_exhausted h s)

/-- A run depends on the cursor only through what the first call does. -/
theorem run_congr {style : TokenStyle} {i j : Option Nat}
    (h : next ⟨delims, style, i⟩ s = next ⟨delims, style, j⟩ s) :
    run ⟨delims, style, i⟩ s = run ⟨delims, style, j⟩ s := by
  rcases hnext : next ⟨delims, style, j⟩ s with ⟨s', cursor, token⟩
  cases token with
  | none => rw [run_of_next_none hnext, run_of_next_none (h.trans hnext)]
  | some r => rw [run_of_next_some hnext, run_of_next_some (h.trans hnext)]

/-- Separating yields every field. -/
theorem run_separate (delims front rest : List α) :
    run ⟨delims, .separate, some front.length⟩ (front ++ rest) =
      (spansFrom front.length (cells delims rest), front ++ blanked delims rest) := by
  induction rest using word_induction delims generalizing front with
  | last rest hlast =>
    rw [run_of_next_some (next_last hlast front), run_of_exhausted rfl, cells_last hlast,
      blanked_last hlast]
    rfl
  | cut word d more hword hd ih =>
    rw [run_of_next_some (next_word hword hd front more), ih, cells_word hword hd,
      blanked_word hword hd]
    simp [spansFrom, Nat.add_assoc]

/-- Skipping yields every field that is not empty. -/
theorem run_skip (delims front rest : List α) :
    (run ⟨delims, .skipEmpty, some front.length⟩ (front ++ rest)).1 =
      (spansFrom front.length (cells delims rest)).filter (·.size ≠ 0) := by
  induction rest using word_induction delims generalizing front with
  | last rest hlast =>
    rw [cells_last hlast]
    cases hcontent : content rest with
    | nil =>
      rw [run_of_next_none (next_of_content_nil hcontent front)]
      rfl
    | cons u others =>
      have hu := hlast u (by rw [hcontent]; exact List.mem_cons_self)
      have hnext := (next_of_content_cons hcontent hu front).trans (next_last hlast front)
      rw [run_of_next_some hnext, run_of_exhausted rfl, hcontent]
      rfl
  | cut word d more hword hd ih =>
    rw [cells_word hword hd, spansFrom]
    cases word with
    | nil =>
      -- The call reports nothing here, but goes on behind the delimiter, which it leaves in place.
      have hmore := ih (front ++ [d])
      rw [← List.append_cons, List.length_append, List.length_singleton] at hmore
      rw [List.nil_append, run_congr (next_delimiter hd front more), hmore]
      rfl
    | cons u others =>
      have hu := (hword u List.mem_cons_self).2
      have hnext := (next_of_content_cons (content_word hword hd more) hu front).trans
        (next_word hword hd front more)
      rw [run_of_next_some hnext, ih]
      simp [Nat.add_assoc]

/-- What the call of number `n` does, counting from zero. -/
def call (t : Tokenizer α) (s : List α) : Nat → Cut α
  | 0 => t.next s
  | n + 1 => call { t with cursor := (t.next s).cursor } (t.next s).buffer n

theorem call_of_exhausted (h : t.cursor = none) (s : List α) (n : Nat) :
    t.call s n = ⟨s, none, none⟩ := by
  induction n generalizing t with
  | zero => exact next_of_exhausted h s
  | succ n ih =>
    rw [call, next_of_exhausted h]
    exact ih rfl

/-- Once a call has found no token, no call finds one or changes anything. -/
theorem call_of_token_none (h : (t.next s).token = none) (n : Nat) :
    t.call s n = ⟨s, none, none⟩ := by
  cases n with
  | zero => exact next_of_token_none h
  | succ n =>
    rw [call, next_of_token_none h]
    exact call_of_exhausted rfl s n

/-- The calls answer with the tokens of the run, and with none from then on. -/
theorem call_token (t : Tokenizer α) (s : List α) (n : Nat) :
    (t.call s n).token = (t.run s).1[n]? := by
  induction n generalizing t s with
  | zero =>
    rcases hnext : t.next s with ⟨s', cursor, token⟩
    cases token with
    | none => rw [run_of_next_none hnext, call, hnext]; rfl
    | some r => rw [run_of_next_some hnext, call, hnext]; rfl
  | succ n ih =>
    rcases hnext : t.next s with ⟨s', cursor, token⟩
    cases token with
    | none => rw [run_of_next_none hnext, call_of_token_none (by rw [hnext])]; rfl
    | some r => rw [run_of_next_some hnext, call, hnext, ih]; rfl

/-- The calls behind the last token leave the buffer as the run does. -/
theorem call_buffer (t : Tokenizer α) (s : List α) (n : Nat) :
    (t.call s ((t.run s).1.length + n)).buffer = (t.run s).2 := by
  induction t, s using run.induct with
  | case1 t s htoken =>
    rw [run_of_next_none (next_of_token_none htoken), call_of_token_none htoken]
  | case2 t s r htoken tokens rest hrun ih =>
    rcases hnext : t.next s with ⟨s', cursor, token⟩
    rw [hnext] at htoken ih
    dsimp only at htoken
    rw [htoken] at hnext
    rw [run_of_next_some hnext, List.length_cons, Nat.add_right_comm, call, hnext]
    exact ih

/-- A run yields the fields of the string between its delimiters, one more than there are
delimiters, and overwrites these and nothing else. If empty tokens are skipped it yields the fields
that are not empty. Called as often as one likes, a tokenizer answers with the tokens of its run one
after the other, then with none; from there on the buffer stays as the run leaves it. -/
theorem run_yields_fields (s delims : List α) :
    (spansFrom 0 (cells delims s)).map (·.slice s) = (cells delims s).map .ok ∧
      (cells delims s).length = (content s).countP (isDelimiter delims) + 1 ∧
      (start delims .separate).run s = (spansFrom 0 (cells delims s), blanked delims s) ∧
      ((start delims .skipEmpty).run s).1 =
        (spansFrom 0 (cells delims s)).filter (·.size ≠ 0) ∧
      ∀ style n,
        ((start delims style).call s n).token = ((start delims style).run s).1[n]? ∧
        ((start delims style).call s (((start delims style).run s).1.length + n)).buffer =
          ((start delims style).run s).2 := by
  refine ⟨spansFrom_slice delims [] s, length_fields _, run_separate delims [] s,
    run_skip delims [] s, ?_⟩
  intro style n
  exact ⟨call_token _ s n, call_buffer _ s n⟩

end Tokenizer

end CText.CString
