import CText.CString.Basic
import Mathlib.Data.List.TakeWhile

/-!
# The content of a string

What stands before the terminator holds no terminator itself, and cutting it once more changes
nothing. The lengths that the routines count, by scanning for the terminator, are those of the
content, whether a terminator was found or not.
-/

namespace CText.CString

variable {α : Type} [DecidableEq α] [CodeUnit α]

theorem nul_notMem_content (s : List α) : CodeUnit.nul ∉ content s := by
  intro h
  have hne := List.mem_takeWhile_imp h
  simp at hne

theorem content_cons {u : α} (h : u ≠ CodeUnit.nul) (rest : List α) :
    content (u :: rest) = u :: content rest :=
  List.takeWhile_cons_of_pos (decide_eq_true h)

theorem content_cons_nul (rest : List α) : content (CodeUnit.nul :: rest) = [] :=
  List.takeWhile_cons_of_neg (by simp)

theorem content_eq_self {s : List α} (h : CodeUnit.nul ∉ s) : content s = s := by
  refine List.takeWhile_eq_self_iff.2 fun a ha => ?_
  rw [decide_eq_true_iff]
  rintro rfl
  exact h ha

theorem content_content (s : List α) : content (content s) = content s :=
  content_eq_self (nul_notMem_content s)

/-- A string that holds no terminator goes on into what follows it. -/
theorem content_append {s : List α} (h : CodeUnit.nul ∉ s) (t : List α) :
    content (s ++ t) = s ++ content t := by
  refine List.takeWhile_append_of_pos fun a ha => ?_
  rw [decide_eq_true_iff]
  rintro rfl
  exact h ha

/-- Terminators behind a string are not in it. -/
theorem content_append_nuls (s : List α) (n : Nat) :
    content (s ++ List.replicate n CodeUnit.nul) = content s := by
  induction s with
  | nil =>
    cases n with
    | zero => rfl
    | succ n => exact content_cons_nul _
  | cons u rest ih =>
    by_cases hu : u = CodeUnit.nul
    · rw [hu, List.cons_append, content_cons_nul, content_cons_nul]
    · rw [List.cons_append, content_cons hu, content_cons hu, ih]

theorem content_take (s : List α) (n : Nat) : content (s.take n) = (content s).take n :=
  List.take_takeWhile.symm

theorem getElem?_of_content {s : List α} {i : Nat} {a : α} (h : (content s)[i]? = some a) :
    s[i]? = some a := by
  obtain ⟨hi, rfl⟩ := List.getElem?_eq_some_iff.1 h
  have hfront : content s <+: s := List.takeWhile_prefix _
  exact List.getElem?_eq_some_iff.2
    ⟨Nat.lt_of_lt_of_le hi hfront.length_le, (hfront.getElem hi).symm⟩

theorem length_eq_findIdx (s : List α) : length s = s.findIdx (· == CodeUnit.nul) := by
  rw [length, Buffer.scanForward, List.take_length, List.findIdx_eq_getD_findIdx?]

theorem take_length (s : List α) : s.take (length s) = content s := by
  have hnul : (fun u : α => !decide (u ≠ CodeUnit.nul)) = (· == CodeUnit.nul) := by
    funext u
    by_cases hu : u = CodeUnit.nul <;> simp [hu]
  rw [content, List.takeWhile_eq_take_findIdx_not, hnul, length_eq_findIdx]

theorem length_eq (s : List α) : length s = (content s).length := by
  rw [← take_length, List.length_take, length_eq_findIdx, Nat.min_eq_left List.findIdx_le_length]

theorem length_le (s : List α) : length s ≤ s.length := by
  rw [length_eq]
  exact content_length_le s

/-- As long as a cut stays inside the string it does not matter whether the buffer is cut. -/
theorem take_content {s : List α} {n : Nat} (h : n ≤ (content s).length) :
    (content s).take n = s.take n := by
  rw [← take_length, List.take_take, length_eq, Nat.min_eq_left h]

theorem take_length_take (s : List α) (n : Nat) :
    s.take ((content s).take n).length = (content s).take n := by
  have hle : ((content s).take n).length ≤ (content s).length := List.length_take_le' n _
  rw [← take_content hle, List.length_take]
  simp

/-- A limited scan stops at the terminator or at the limit, whichever comes first. -/
theorem boundedLength_eq (s : List α) (n : Nat) :
    boundedLength s n = ((content s).take n).length := by
  have hscan : boundedLength s n = length (s.take (min n s.length)) := by
    have hlen : (s.take (min n s.length)).length = min n s.length := by
      rw [List.length_take]
      omega
    rw [boundedLength, length, hlen, Buffer.scanForward, Buffer.scanForward, List.take_take,
      Nat.min_self]
  rw [hscan, length_eq, content_take, List.length_take, List.length_take]
  have hle := content_length_le s
  omega

/-- A string ends at a terminator, or where its buffer ends. -/
theorem eq_nul_of_getElem?_length {u : α} (h : s[length s]? = some u) : u = CodeUnit.nul := by
  rw [length_eq_findIdx] at h
  exact eq_of_beq (List.findIdx_of_getElem?_eq_some (p := (· == CodeUnit.nul)) h)

/-- Inside a string, what is left of it is the string in what is left of the buffer. -/
theorem content_drop {s : List α} {n : Nat} (h : n ≤ (content s).length) :
    content (s.drop n) = (content s).drop n := by
  have hs : content s ++ s.dropWhile (· ≠ CodeUnit.nul) = s := List.takeWhile_append_dropWhile
  have hend : content (s.dropWhile (· ≠ CodeUnit.nul)) = [] := by
    have happ := content_append (nul_notMem_content s) (s.dropWhile (· ≠ CodeUnit.nul))
    rw [hs] at happ
    exact List.self_eq_append_right.1 happ
  have hdrop : s.drop n = (content s).drop n ++ s.dropWhile (· ≠ CodeUnit.nul) :=
    (congrArg (List.drop n) hs).symm.trans (List.drop_append_of_le_length h)
  rw [hdrop, content_append fun hmem => nul_notMem_content s (List.mem_of_mem_drop hmem), hend,
    List.append_nil]

end CText.CString
