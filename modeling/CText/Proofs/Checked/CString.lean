import CText.Checked.CString
import CText.Proofs.Checked.Buffer
import CText.Proofs.CString.Building
import CText.Proofs.CString.Reading

/-!
# Routines on strings never leave their buffers

What the routines on strings work out about offsets is right: every range that they take lies in its
buffer, and every length that they add up can be counted. So they come to what they are on lists,
and refuse only what is too large for its destination.
-/

namespace CText.Checked

open Buffer CString

variable {α : Type} [DecidableEq α] [CodeUnit α]

theorem length_eq (s : List α) : length s = .ok (CString.length s) := by
  rw [length, scanForward_eq]
  rfl

theorem boundedLength_eq (s : List α) (n : Nat) :
    boundedLength s n = .ok (CString.boundedLength s n) := by
  rw [boundedLength, scanForward_eq]
  rfl

theorem content_eq (s : List α) : content s = .ok (CString.content s) := by
  rw [content, length_eq, ok_bind, front_eq (length_le s), take_length]

/-! ## Comparing -/

/-- Units whose differences have 64 bits. -/
class Narrow (α : Type) [CodeUnit α] : Prop where
  signed_range : ∀ a : α, -2147483648 ≤ CodeUnit.signed a ∧ CodeUnit.signed a ≤ 2147483647

instance : Narrow UInt8 where
  signed_range a := by
    have := a.toNat_lt
    change -2147483648 ≤ (a.toNat : Int) ∧ (a.toNat : Int) ≤ 2147483647
    omega

instance : Narrow UInt32 where
  signed_range a := by
    have := a.toNat_lt
    change -2147483648 ≤ signedWide a ∧ signedWide a ≤ 2147483647
    unfold signedWide
    split <;> omega

omit [DecidableEq α] in
theorem lowered_eq (a : α) : lowered a = .ok (CodeUnit.lower a) := by
  rw [lowered]
  split
  · rw [addBelow_eq (by omega)]
    rfl
  · rfl

omit [DecidableEq α] in
theorem folded_eq (folding : Bool) (a : α) : folded folding a = .ok (fold folding a) := by
  rw [folded, fold]
  split
  · exact lowered_eq a
  · rfl

section

variable [Narrow α]

theorem compare_eq (folding : Bool) (n : Nat) (s t : List α) :
    compare folding n s t = .ok (CString.compare folding n s t) := by
  induction n generalizing s t with
  | zero => rfl
  | succ n ih =>
    have hs := Narrow.signed_range (fold folding (s.headD CodeUnit.nul))
    have ht := Narrow.signed_range (fold folding (t.headD CodeUnit.nul))
    rw [compare, CString.compare, folded_eq, ok_bind, folded_eq, ok_bind]
    split
    · rw [subSigned, if_pos (by omega)]
      rfl
    · split
      · rfl
      · exact ih _ _

theorem compareAll_eq (folding : Bool) (s t : List α) :
    compareAll folding s t = .ok (CString.compareAll folding s t) :=
  compare_eq folding _ s t

end

/-! ## Searching -/

theorem indexOf_eq (s : List α) (c : α) : indexOf s c = .ok (CString.indexOf s c) := by
  rw [indexOf, CString.indexOf, length_eq, ok_bind]
  split
  · rfl
  · exact scanForward_eq ..

theorem lastIndexOf_eq (s : List α) (c : α) : lastIndexOf s c = .ok (CString.lastIndexOf s c) := by
  rw [lastIndexOf, CString.lastIndexOf, length_eq, ok_bind]
  split
  · rfl
  · exact scanBackward_eq ..

theorem indexOrEnd_eq (s : List α) (c : α) :
    indexOrEnd s c = .ok ((CString.indexOf s c).getD (CString.length s)) := by
  rw [indexOrEnd, indexOf_eq, ok_bind]
  cases CString.indexOf s c with
  | none => exact length_eq s
  | some i => rfl

theorem span_eq (s set : List α) (within : Bool) :
    span s set within = .ok (CString.span s set within) := by
  rw [span, CString.span, length_eq, ok_bind, content_eq, ok_bind, front_eq (length_le s), ok_bind,
    take_length set]
  rfl

theorem indexOfAny_eq (s set : List α) : indexOfAny s set = .ok (CString.indexOfAny s set) := by
  rw [indexOfAny, CString.indexOfAny, span_eq, ok_bind, length_eq, ok_bind]
  rfl

theorem alike_eq (folding : Bool) {needle hay : List α} (h : needle.length ≤ hay.length) :
    alike folding (hay.take needle.length) needle = .ok (startsWith folding hay needle) := by
  induction needle generalizing hay with
  | nil =>
    rw [List.length_nil, List.take_zero, startsWith]
    rfl
  | cons b needle ih =>
    cases hay with
    | nil => cases h
    | cons a hay =>
      rw [List.length_cons, List.take_succ_cons, alike, folded_eq, ok_bind, folded_eq, ok_bind,
        startsWith, sameUnit_eq, ih (Nat.le_of_succ_le_succ h)]
      by_cases hab : fold folding a = fold folding b
      · rw [if_pos hab, decide_eq_true hab, Bool.true_and]
      · rw [if_neg hab, decide_eq_false hab, Bool.false_and]
        rfl

theorem startsWith_of_short (folding : Bool) {needle hay : List α}
    (h : hay.length < needle.length) : startsWith folding hay needle = false := by
  induction hay generalizing needle with
  | nil =>
    cases needle with
    | nil => cases h
    | cons b needle => rfl
  | cons a hay ih =>
    cases needle with
    | nil => cases h
    | cons b needle => rw [startsWith, ih (Nat.lt_of_succ_lt_succ h), Bool.and_false]

theorem findFrom_of_short (folding : Bool) {needle hay : List α} (h : hay.length < needle.length) :
    findFrom folding needle hay = none := by
  induction hay with
  | nil =>
    cases needle with
    | nil => cases h
    | cons b needle => rfl
  | cons a hay ih =>
    have hrest : hay.length < needle.length := (Nat.lt_succ_self _).trans h
    rw [findFrom, startsWith_of_short folding h, ih hrest]
    rfl

/-- Trying the runs of the right length is trying one offset after the other. -/
theorem firstAlike_runs (folding : Bool) {needle : List α} (hneedle : needle ≠ [])
    (hay : List α) :
    firstAlike folding needle (runs needle.length hay) = .ok (findFrom folding needle hay) := by
  induction hay with
  | nil =>
    rw [runs, findFrom, List.isEmpty_eq_false_iff.2 hneedle]
    rfl
  | cons a hay ih =>
    rw [runs]
    split
    next hroom =>
      rw [firstAlike, alike_eq folding hroom, ok_bind, ih, findFrom]
      cases startsWith folding (a :: hay) needle <;> rfl
    next hshort =>
      rw [findFrom_of_short folding (Nat.lt_of_not_le hshort)]
      rfl

theorem find_eq (folding : Bool) (hay needle : List α) :
    find folding hay needle = .ok (CString.find folding hay needle) := by
  have hlen : (CString.content needle).length = CString.length needle :=
    (CString.length_eq needle).symm
  rw [find, length_eq, ok_bind, length_eq, ok_bind, CString.find_eq]
  by_cases hempty : CString.length needle = 0
  · rw [if_pos hempty, List.length_eq_zero_iff.1 (hlen.trans hempty)]
    cases CString.content hay <;> rfl
  rw [if_neg hempty]
  by_cases hshort : CString.length hay < CString.length needle
  · rw [if_pos hshort, findFrom_of_short]
    · rfl
    · rwa [← CString.length_eq, hlen]
  · have hne : CString.content needle ≠ [] := fun h => hempty (by rw [← hlen, h, List.length_nil])
    rw [if_neg hshort, front_eq (length_le needle), ok_bind, front_eq (length_le hay), ok_bind,
      windows, if_neg hempty, ok_bind, take_length, take_length, ← hlen, firstAlike_runs _ hne]

/-! ## Building -/

theorem copy_eq (routine : String) (dest src : List α) :
    copy routine dest src = CString.copy routine dest src := by
  rw [copy, CString.copy, length_eq, ok_bind]
  split
  next hroom =>
    have hlen := length_copyDisjoint dest src (CString.length src)
    rw [copyDisjoint_eq, ok_bind]
    rcases hcopied : Buffer.copyDisjoint dest src (CString.length src) with ⟨written, count⟩
    rw [hcopied] at hlen
    dsimp only at hlen ⊢
    rw [store_eq_set (by omega), ok_bind]
    rfl
  next => rfl

theorem copyAll_eq (routine : String) (dest src : List α) (h : dest.length < countLimit) :
    copyAll routine dest src =
      (CString.copy routine dest src).map fun (written, len) => (written, len + 1) := by
  rw [copyAll, copy_eq, CString.copy]
  dsimp only
  split
  next hroom =>
    rw [ok_bind, add_eq (by omega)]
    rfl
  next => rfl

theorem copyWindow_eq (dest src : List α) (n : Nat) :
    copyWindow dest src n = .ok (CString.copyWindow dest src n) := by
  obtain ⟨ending, hcopy, hending⟩ :=
    exists_copyUntil_nul dest src (Nat.min_le_right n dest.length)
  rw [copyWindow, CString.copyWindow, copyUntil_eq, ok_bind, hcopy]
  have hpiece : ((CString.content src).take (min n dest.length)).length ≤ min n dest.length :=
    List.length_take_le _ _
  generalize (CString.content src).take (min n dest.length) = piece at hpiece hending
  have hlen : (overwrite dest 0 piece).length = dest.length := length_overwrite (by omega)
  have hpadded : fillBetween (overwrite dest 0 piece) CodeUnit.nul piece.length
      (min n dest.length) = .ok _ := fillBetween_eq CodeUnit.nul hpiece (by omega)
  rcases hending with rfl | rfl
  · dsimp only
    rw [hpadded]
    rfl
  · dsimp only
    rw [hpadded]
    rfl

theorem boundedLength_le (s : List α) (n : Nat) : CString.boundedLength s n ≤ s.length := by
  have hle := content_length_le s
  rw [CString.boundedLength_eq, List.length_take]
  omega

theorem append_eq (routine : String) {dest src : List α} (n : Nat)
    (h : dest.length + src.length < countLimit) :
    append routine dest src n = CString.append routine dest src n := by
  have hstart := length_le dest
  have hadded := boundedLength_le src n
  rw [append, CString.append, length_eq, ok_bind, boundedLength_eq, ok_bind, add_eq (by omega),
    ok_bind]
  split
  next hroom =>
    have hlen : (onSuffix dest (CString.length dest) fun rest =>
        Buffer.copyDisjoint rest src (CString.boundedLength src n)).1.length = dest.length :=
      length_onSuffix hstart (length_copyDisjoint ..)
    rw [onBehind_eq hstart fun rest => copyDisjoint_eq rest src _, ok_bind]
    revert hlen
    generalize onSuffix dest (CString.length dest) _ = joined
    intro hlen
    dsimp only at hlen ⊢
    rw [store_eq_set (by omega), ok_bind]
    rfl
  next => rfl

theorem copyCut_eq (dest src : List α) : copyCut dest src = .ok (CString.copyCut dest src) := by
  rw [copyCut, CString.copyCut, length_eq, ok_bind]
  split
  · rfl
  · have hlen := length_copyDisjoint dest src (min (CString.length src) (dest.length - 1))
    have hcount : (Buffer.copyDisjoint dest src (min (CString.length src) (dest.length - 1))).2 ≤
        dest.length - 1 := by
      rw [Buffer.copyDisjoint]
      dsimp only
      omega
    rw [copyDisjoint_eq, ok_bind]
    rcases hcopied : Buffer.copyDisjoint dest src (min (CString.length src) (dest.length - 1))
      with ⟨written, count⟩
    rw [hcopied] at hlen hcount
    dsimp only at hlen hcount ⊢
    rw [store_eq_set (by omega), ok_bind]
    rfl

theorem copyCut_length (dest src : List α) : (CString.copyCut dest src).2 = CString.length src := by
  rw [CString.copyCut]
  split <;> rfl

theorem appendCut_eq {dest src : List α} (h : dest.length + src.length < countLimit) :
    appendCut dest src = .ok (CString.appendCut dest src) := by
  have hstart := boundedLength_le dest dest.length
  have hadded := length_le src
  rw [appendCut, CString.appendCut, boundedLength_eq, ok_bind]
  split
  next hfull =>
    rw [length_eq, ok_bind, add_eq (by omega)]
    rfl
  next =>
    have hlen := copyCut_length (dest.drop (CString.boundedLength dest dest.length)) src
    rw [onBehind_eq hstart fun rest => copyCut_eq rest src, ok_bind, onSuffix]
    rcases hcut : CString.copyCut (dest.drop (CString.boundedLength dest dest.length)) src
      with ⟨part, len⟩
    rw [hcut] at hlen
    dsimp only at hlen ⊢
    rw [hlen, add_eq (by omega)]
    rfl

omit [DecidableEq α] in
theorem duplicate_eq (width : Nat) {s : List α} {len : Nat} (hlen : len ≤ s.length)
    (h : len + 1 < countLimit) :
    duplicate width s len = granted (CString.duplicate width s len) := by
  rw [duplicate, CString.duplicate, add_eq h, checked_ok, ok_bind, front_eq hlen, granted_bind]
  rfl

end CText.Checked
