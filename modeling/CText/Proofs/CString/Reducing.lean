import CText.Proofs.CString.Mapping

/-!
# Comparisons reduced to the plain one

Limits and folding can be taken out of a comparison. What is compared up to a limit are the buffers
cut there, the place of the cut being an end as good as any, and what is compared without regard to
case are the buffers in small letters. The answers are the same numbers, not only the same signs.
-/

namespace CText.CString

section

variable {α : Type} [DecidableEq α] [CodeUnit α]

/-- Buffers cut at the limit end there, if no terminator stands in front of it. -/
theorem compare_take (folding : Bool) {n m : Nat} (h : n < m) (s t : List α) :
    compare folding m (s.take n) (t.take n) = compare folding n s t := by
  induction n generalizing m s t with
  | zero =>
    obtain ⟨m, rfl⟩ := Nat.exists_eq_add_one_of_ne_zero (Nat.ne_zero_of_lt h)
    rw [List.take_zero, List.take_zero, compare_succ, if_neg (not_not.2 rfl)]
    exact if_pos rfl
  | succ n ih =>
    obtain ⟨m, rfl⟩ := Nat.exists_eq_add_one_of_ne_zero (Nat.ne_zero_of_lt h)
    have hhead (u : List α) : (u.take (n + 1)).headD CodeUnit.nul = u.headD CodeUnit.nul := by
      cases u <;> rfl
    have htail (u : List α) : (u.take (n + 1)).tail = u.tail.take n := by
      cases u with
      | nil => exact List.take_nil.symm
      | cons a rest => rfl
    rw [compare_succ, hhead, hhead, htail, htail, ih (Nat.lt_of_succ_lt_succ h), ← compare_succ]

theorem compareAll_take (folding : Bool) (n : Nat) (s t : List α) :
    compareAll folding (s.take n) (t.take n) = compare folding n s t := by
  have hlen := content_length_le (s.take n)
  have hcut := List.length_take_le n s
  rw [compareAll_eq, ← compare_limit folding (n := n + 1) (by omega),
    compare_take folding (Nat.lt_succ_self n)]

/-- Whatever is compared, and how, it is a plain comparison of two strings. -/
theorem compareAll_map_fold_take (folding : Bool) (n : Nat) (s t : List α) :
    compareAll false ((s.take n).map (fold folding)) ((t.take n).map (fold folding)) =
      compare folding n s t := by
  rw [(carries_fold folding).compareAll_map, compareAll_take]

theorem compare_of_length_lt (folding : Bool) {n : Nat} {s : List α} (h : length s < n)
    (t : List α) : compare folding n s t = compareAll folding s t := by
  rw [length_eq] at h
  rw [compareAll_eq, compare_limit folding h]

end

open Byte Wide

/-- A comparison with a limit gives the number that the plain comparison gives for the two buffers
cut at the limit, a comparison without regard to case the number that it gives for the buffers in
small letters, and a comparison with both the number that it gives for the buffers cut and then put
in small letters. A limit that is larger than both lengths is no limit. -/
theorem comparisons_reduce :
    -- Bytes.
    (∀ s t n, strncmp s t n = strcmp (s.take n) (t.take n)) ∧
    (∀ s t, strcasecmp s t = strcmp (s.map Ascii.lower) (t.map Ascii.lower)) ∧
    (∀ s t n, strncasecmp s t n =
      strcmp ((s.take n).map Ascii.lower) ((t.take n).map Ascii.lower)) ∧
    (∀ s t n, strlen s < n → strlen t < n → strncmp s t n = strcmp s t) ∧
    -- Wide units.
    (∀ s t n, wcsncmp s t n = wcscmp (s.take n) (t.take n)) ∧
    (∀ s t, wcscasecmp s t = wcscmp (s.map lowerWide) (t.map lowerWide)) ∧
    (∀ s t n, wcsncasecmp s t n =
      wcscmp ((s.take n).map lowerWide) ((t.take n).map lowerWide)) ∧
    ∀ s t n, wcslen s < n → wcslen t < n → wcsncmp s t n = wcscmp s t := by
  refine ⟨?_, ?_, ?_, ?_, ?_, ?_, ?_, ?_⟩
  · intro s t n
    exact (compareAll_take false n s t).symm
  · intro s t
    exact ((carries_fold true).compareAll_map s t).symm
  · intro s t n
    exact (compareAll_map_fold_take true n s t).symm
  · intro s t n hs _
    exact compare_of_length_lt false hs t
  · intro s t n
    exact congrArg Int.sign (compareAll_take false n s t).symm
  · intro s t
    exact congrArg Int.sign ((carries_fold true).compareAll_map s t).symm
  · intro s t n
    exact congrArg Int.sign (compareAll_map_fold_take true n s t).symm
  · intro s t n hs _
    exact congrArg Int.sign (compare_of_length_lt false hs t)

/-- Two strings, of which one has its terminator in the buffer and one has not, under a limit of
four. -/
theorem comparisons_reduce_sample :
    strlen [97, 98, 99] < 4 ∧ strlen [97, 98, 0, 99] < 4 ∧
      strncmp [97, 98, 99] [97, 98, 0, 99] 4 = strcmp [97, 98, 99] [97, 98, 0, 99] ∧
      wcslen [97, 4294967295] < 4 ∧ wcslen [97, 98, 0, 99] < 4 ∧
      wcsncmp [97, 4294967295] [97, 98, 0, 99] 4 = wcscmp [97, 4294967295] [97, 98, 0, 99] := by
  obtain ⟨-, -, -, hbytes, -, -, -, hwide⟩ := comparisons_reduce
  have hs : strlen [97, 98, 99] < 4 := by decide
  have ht : strlen [97, 98, 0, 99] < 4 := by decide
  have hu : wcslen [97, 4294967295] < 4 := by decide
  have hv : wcslen [97, 98, 0, 99] < 4 := by decide
  exact ⟨hs, ht, hbytes _ _ _ hs ht, hu, hv, hwide _ _ _ hu hv⟩

end CText.CString
