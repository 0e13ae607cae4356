import CText.CString.Compare
import CText.Proofs.CString.Content

/-!
# What a comparison looks at

A comparison ends where one of the strings ends at the latest. So it makes no difference what stands
behind a terminator, whether there is one, or how far a limit behind it lies.
-/

namespace CText.CString

variable {α : Type} [CodeUnit α]

/-- Folding leaves the terminator alone and makes no other unit a terminator. -/
theorem fold_eq_fold_nul_iff {folding : Bool} {a : α} :
    fold folding a = fold folding CodeUnit.nul ↔ a = CodeUnit.nul := by
  constructor
  · intro h
    cases folding with
    | false => exact h
    | true =>
      apply CodeUnit.lower_eq_nul
      exact h.trans CodeUnit.lower_nul
  · rintro rfl
    rfl

variable [DecidableEq α]

theorem compare_succ (folding : Bool) (n : Nat) (s t : List α) :
    compare folding (n + 1) s t =
      if fold folding (s.headD CodeUnit.nul) ≠ fold folding (t.headD CodeUnit.nul) then
        clamp (CodeUnit.signed (fold folding (s.headD CodeUnit.nul)) -
          CodeUnit.signed (fold folding (t.headD CodeUnit.nul)))
      else if s.headD CodeUnit.nul = CodeUnit.nul then 0
      else compare folding n s.tail t.tail :=
  rfl

theorem headD_content (s : List α) :
    (content s).headD CodeUnit.nul = s.headD CodeUnit.nul := by
  cases s with
  | nil => rfl
  | cons a rest =>
    by_cases ha : a = CodeUnit.nul
    · rw [ha, content_cons_nul]
      rfl
    · rw [content_cons ha]
      rfl

theorem content_of_headD {s : List α} (h : s.headD CodeUnit.nul ≠ CodeUnit.nul) :
    content s = s.headD CodeUnit.nul :: content s.tail := by
  cases s with
  | nil => exact absurd rfl h
  | cons a rest => exact content_cons h rest

theorem compare_content_left (folding : Bool) (n : Nat) (s t : List α) :
    compare folding n (content s) t = compare folding n s t := by
  induction n generalizing s t with
  | zero => rfl
  | succ n ih =>
    rw [compare_succ, compare_succ, headD_content]
    split
    · rfl
    · split
      · rfl
      · rename_i hs
        rw [content_of_headD hs, List.tail_cons, ih]

theorem compare_content_right (folding : Bool) (n : Nat) (s t : List α) :
    compare folding n s (content t) = compare folding n s t := by
  induction n generalizing s t with
  | zero => rfl
  | succ n ih =>
    rw [compare_succ, compare_succ, headD_content]
    split
    · rfl
    · rename_i hsame
      split
      · rfl
      · rename_i hs
        have ht : t.headD CodeUnit.nul ≠ CodeUnit.nul := by
          intro ht
          rw [ht] at hsame
          exact hs (fold_eq_fold_nul_iff.1 (not_not.1 hsame))
        rw [content_of_headD ht, List.tail_cons, ih]

/-- A limit behind the end of the string is as good as the first one behind it. -/
theorem compare_limit (folding : Bool) {n : Nat} {s : List α} (h : (content s).length < n)
    (t : List α) :
    compare folding n s t = compare folding ((content s).length + 1) s t := by
  induction n generalizing s t with
  | zero => exact absurd h (Nat.not_lt_zero _)
  | succ n ih =>
    rw [compare_succ, compare_succ]
    split
    · rfl
    · split
      · rfl
      · rename_i hs
        rw [content_of_headD hs, List.length_cons] at h ⊢
        exact ih (by omega) _

theorem compareAll_eq (folding : Bool) (s t : List α) :
    compareAll folding s t = compare folding ((content s).length + 1) s t := by
  have hlen := content_length_le s
  exact compare_limit folding (by omega) t

end CText.CString
