import CText.Checked.Buffer
import CText.Proofs.Buffer.Writing

/-!
# Routines on buffers never leave their buffers

Going through a buffer step by step, a routine never reads or writes outside it, copies only to
ranges of the right length, and comes to what it is on the list of units.
-/

namespace CText.Checked

open Buffer

section

variable {α : Type} {buf : List α} {n : Nat}

theorem fetch_getElem (h : n < buf.length) : fetch buf n = .ok buf[n] := by
  rw [fetch, List.getElem?_eq_getElem h]

theorem store_eq_set (h : n < buf.length) (a : α) : store buf n a = .ok (buf.set n a) := if_pos h

/-- A slice has the length of its range, which lies in the buffer. -/
theorem bounds_of_slice {start stop : Nat} {part : List α} (h : slice buf start stop = .ok part) :
    start + part.length = stop ∧ stop ≤ buf.length := by
  rw [slice] at h
  split at h
  next => cases h
  next =>
    split at h
    next => cases h
    next =>
      split at h
      next => cases h
      next =>
        cases h
        rw [List.length_take, List.length_drop]
        omega

theorem add_length_le_of_slice {start stop : Nat} {part : List α}
    (h : slice buf start stop = .ok part) : start + part.length ≤ buf.length := by
  obtain ⟨hstop, hle⟩ := bounds_of_slice h
  omega

theorem front_eq (h : n ≤ buf.length) : front buf n = .ok (buf.take n) :=
  slice_eq (Nat.zero_le n) h

theorem front_min (buf : List α) (n : Nat) : front buf (min n buf.length) = .ok (buf.take n) := by
  rw [front_eq (Nat.min_le_right _ _), ← List.take_eq_take_min]

theorem behind_eq (h : n ≤ buf.length) : behind buf n = .ok (buf.drop n) := by
  have hall := Nat.le_of_eq (List.length_drop (i := n) (l := buf))
  rw [behind, slice_eq h (Nat.le_refl _), List.take_of_length_le hall]

theorem replace_eq {start stop : Nat} {units : List α} (hstart : start + units.length = stop)
    (hstop : stop ≤ buf.length) :
    replace buf start stop units = .ok (overwrite buf start units) := by
  have hold : ((buf.drop start).take (stop - start)).length = units.length := by
    rw [List.length_take, List.length_drop]
    omega
  rw [replace, slice_eq (by omega) hstop, ok_bind, if_pos hold.symm, overwrite, hstart]
  rfl

theorem copyDisjoint_eq (dest src : List α) (n : Nat) :
    copyDisjoint dest src n = .ok (Buffer.copyDisjoint dest src n) := by
  have hsrc : min n (min dest.length src.length) ≤ src.length := by omega
  have hpiece : 0 + (src.take (min n (min dest.length src.length))).length =
      min n (min dest.length src.length) := by
    rw [List.length_take]
    omega
  rw [copyDisjoint, front_eq hsrc, ok_bind, replace_eq hpiece (by omega), ok_bind, overwrite,
    hpiece]
  rfl

theorem fill_eq (dest : List α) (a : α) (n : Nat) : fill dest a n = .ok (Buffer.fill dest a n) := by
  have hpiece : 0 + (List.replicate (min n dest.length) a).length = min n dest.length := by
    rw [List.length_replicate, Nat.zero_add]
  rw [fill, replace_eq hpiece (Nat.min_le_right _ _), ok_bind, overwrite, hpiece]
  rfl

theorem length_copyDisjoint (dest src : List α) (n : Nat) :
    (Buffer.copyDisjoint dest src n).1.length = dest.length := by
  simp only [Buffer.copyDisjoint, List.length_append, List.length_take, List.length_drop]
  omega

theorem overwrite_all {piece : List α} (h : piece.length = buf.length) :
    overwrite buf 0 piece = piece := by
  rw [overwrite, h, Nat.zero_add, List.drop_length, List.take_zero, List.append_nil,
    List.nil_append]

theorem fillBetween_eq (a : α) {start stop : Nat} (hstart : start ≤ stop)
    (hstop : stop ≤ buf.length) :
    fillBetween buf a start stop =
      .ok (onSuffix buf start fun rest => Buffer.fill rest a (stop - start)).1 := by
  have hpart : ((buf.drop start).take (stop - start)).length = stop - start := by
    rw [List.length_take, List.length_drop]
    omega
  have hfilled : Buffer.fill ((buf.drop start).take (stop - start)) a (stop - start) =
      (List.replicate (stop - start) a, stop - start) := by
    rw [Buffer.fill_eq (Nat.le_of_eq hpart.symm), overwrite_all]
    rw [List.length_replicate, hpart]
  have hsuffix : onSuffix buf start (fun rest => Buffer.fill rest a (stop - start)) =
      (overwrite buf start (List.replicate (stop - start) a), stop - start) := by
    apply onSuffix_overwrite
    rw [Buffer.fill_eq]
    rw [List.length_drop]
    omega
  rw [fillBetween, slice_eq hstart hstop, ok_bind, sub_eq hstart, ok_bind, fill_eq, ok_bind,
    hfilled, hsuffix]
  apply replace_eq _ hstop
  rw [List.length_replicate]
  omega

theorem length_onSuffix {ρ : Type} {f : List α → List α × ρ} (h : n ≤ buf.length)
    (hf : (f (buf.drop n)).1.length = (buf.drop n).length) :
    (onSuffix buf n f).1.length = buf.length := by
  rw [onSuffix]
  dsimp only
  rw [List.length_append, hf, List.length_take, List.length_drop]
  omega

theorem onBehind_eq {ρ : Type} {routine : List α → Except Violation (List α × ρ)}
    {f : List α → List α × ρ} (h : n ≤ buf.length)
    (hroutine : ∀ rest, routine rest = .ok (f rest)) :
    onBehind buf n routine = .ok (onSuffix buf n f) := by
  rw [onBehind, behind_eq h, ok_bind, hroutine, ok_bind]
  rfl

/-- Two regions of one buffer end where they can be counted. -/
theorem copyOverlapping_eq {first second : Nat} (h : buf.length < countLimit) :
    copyOverlapping buf first second n = Buffer.copyOverlapping buf first second n := by
  rw [copyOverlapping, Buffer.copyOverlapping]
  generalize hcount : min n (min (buf.length - first) (buf.length - second)) = count
  split
  · rfl
  · rw [add_eq (by omega), ok_bind, add_eq (by omega), ok_bind]
    split
    · cases moveDown buf first second count <;> rfl
    · cases moveUp buf first second count <;> rfl

end

variable {α : Type} [DecidableEq α] {buf dest src : List α} {n : Nat}

/-! ## Scanning -/

theorem scanForward_eq (buf : List α) (needle : α) (limit : Nat) :
    scanForward buf needle limit = .ok (Buffer.scanForward buf needle limit) := by
  rw [scanForward, front_min]
  rfl

theorem scanBackward_eq (buf : List α) (needle : α) (limit : Nat) :
    scanBackward buf needle limit = .ok (Buffer.scanBackward buf needle limit) := by
  rw [scanBackward, front_min]
  rfl

/-! ## Copying -/

/-- A copy up to a stop unit, from an offset on. -/
theorem copyUntilFrom_eq {i left : Nat} (stop : α) (hdest : i + left ≤ dest.length)
    (hsrc : i + left ≤ src.length) :
    let piece := ((src.drop i).takeWhile (· ≠ stop)).take left
    copyUntilFrom dest src stop i left =
      .ok (overwrite dest i piece,
        if piece.length < left then .stopped (i + piece.length)
        else .exhausted (i + piece.length)) := by
  induction left generalizing dest i with
  | zero => simp [copyUntilFrom, overwrite_nil, pure, Except.pure]
  | succ left ih =>
    obtain ⟨a, rest, ha⟩ : ∃ a rest, src.drop i = a :: rest :=
      List.exists_cons_of_length_pos (by rw [List.length_drop]; omega)
    have hrest : src.drop (i + 1) = rest := by
      rw [← List.drop_drop, ha]
      rfl
    rw [copyUntilFrom, fetch_eq ha, ok_bind]
    by_cases hstop : a = stop
    · simp [ha, hstop, overwrite_nil, pure, Except.pure]
    · have hpiece : (a :: rest).takeWhile (· ≠ stop) = a :: rest.takeWhile (· ≠ stop) :=
        List.takeWhile_cons_of_pos (by simp [hstop])
      have hone : i + [a].length ≤ dest.length := by
        rw [List.length_singleton]
        omega
      have hlen := length_overwrite hone
      have hnext := @ih (overwrite dest i [a]) (i + 1) (by omega) (by omega)
      dsimp only at hnext ⊢
      rw [if_neg hstop, store_eq (by omega), ok_bind, hnext, hrest, ha, hpiece]
      rw [show i + 1 = i + [a].length from rfl, overwrite_overwrite hone]
      simp only [List.take_succ_cons, List.length_cons, List.length_nil, Nat.add_lt_add_iff_right,
        List.singleton_append]
      rw [Nat.zero_add, Nat.add_assoc, Nat.add_comm 1]

theorem copyUntil_eq (dest src : List α) (stop : α) (limit : Nat) :
    copyUntil dest src stop limit = .ok (Buffer.copyUntil dest src stop limit) := by
  have hpiece : (src.takeWhile (· ≠ stop)).take (min limit (min dest.length src.length)) =
      (src.takeWhile (· ≠ stop)).take (min limit dest.length) := by
    have := (List.takeWhile_sublist (l := src) (· ≠ stop)).length_le
    rw [List.take_eq_take_iff]
    omega
  rw [copyUntil, copyUntilFrom_eq stop (by omega) (by omega), Buffer.copyUntil_eq]
  simp only [List.drop_zero, hpiece, Nat.zero_add]

/-- The place of a stop unit lies in both buffers. -/
theorem lt_of_stopped {stop : α} {copied : List α} {i : Nat}
    (h : Buffer.copyUntil dest src stop n = (copied, .stopped i)) :
    i < copied.length ∧ i < src.length := by
  rw [Buffer.copyUntil_eq] at h
  generalize hpiece : ((src.takeWhile (· ≠ stop)).take (min n dest.length)) = piece at h
  have hlen : (overwrite dest 0 piece).length = dest.length := by
    refine length_overwrite ?_
    rw [← hpiece, List.length_take]
    omega
  split at h
  · cases h
    omega
  · cases h

theorem copyThroughStop_eq (dest : List α) (stop : α) (n : Nat) (h : src.length < countLimit) :
    copyThroughStop dest src stop n = .ok (Buffer.copyThroughStop dest src stop n) := by
  rw [copyThroughStop, Buffer.copyThroughStop, copyUntil_eq, ok_bind]
  cases hcopied : Buffer.copyUntil dest src stop n with
  | mk copied ending =>
    cases ending with
    | exhausted i => rfl
    | stopped i =>
      obtain ⟨hdest, hsrc⟩ := lt_of_stopped hcopied
      dsimp only
      rw [store_eq_set hdest, ok_bind, add_eq (by omega)]
      rfl

/-! ## Comparing -/

/-- Only units at offsets that both buffers have are compared. -/
theorem firstDifference_take {s t : List α} (h : min s.length t.length ≤ n) :
    firstDifference (s.take n) (t.take n) = firstDifference s t := by
  induction s generalizing t n with
  | nil => simp [firstDifference]
  | cons a s ih =>
    cases t with
    | nil => cases n <;> simp [firstDifference]
    | cons b t =>
      cases n with
      | zero => simp at h
      | succ n =>
        simp only [List.length_cons, Nat.add_min_add_right, Nat.add_le_add_iff_right] at h
        rw [List.take_succ_cons, List.take_succ_cons, firstDifference, firstDifference, ih h]

theorem firstDifference_front (s t : List α) (n : Nat) :
    let count := min n (min s.length t.length)
    firstDifference ((s.take count).take count) ((t.take count).take count) =
      firstDifference (s.take n) (t.take n) := by
  intro count
  have hcut (u : List α) : (u.take count).take count = (u.take n).take (min s.length t.length) := by
    rw [List.take_take, List.take_take, Nat.min_self, Nat.min_comm]
  rw [hcut, hcut, firstDifference_take]
  rw [List.length_take, List.length_take]
  omega

section

variable [CodeUnit α]

theorem compareUnsigned_eq (s t : List α) (n : Nat) :
    compareUnsigned s t n = .ok (Buffer.compareUnsigned s t n) := by
  rw [compareUnsigned, front_eq (by omega), ok_bind, front_eq (by omega), ok_bind,
    Buffer.compareUnsigned, firstDifference_front]
  rfl

theorem compareSigned_eq (s t : List α) (n : Nat) :
    compareSigned s t n = .ok (Buffer.compareSigned s t n) := by
  rw [compareSigned, front_eq (by omega), ok_bind, front_eq (by omega), ok_bind,
    Buffer.compareSigned, firstDifference_front]
  rfl

end

/-! ## Blocks -/

theorem take_eq_iff_isPrefixOf {needle hay : List α} :
    hay.take needle.length = needle ↔ needle.isPrefixOf hay = true := by
  rw [List.isPrefixOf_iff_prefix, List.prefix_iff_eq_take, eq_comm]

section

variable {hay needle : List α} {first : α}

theorem findBlockFrom_of_none (hlen : needle.length ≤ hay.length)
    (hscan : Buffer.scanForward hay first (hay.length - needle.length + 1) = none) (base : Nat) :
    Buffer.findBlockFrom first needle hay base = none := by
  rw [Buffer.findBlockFrom, if_pos hlen]
  split
  next => rfl
  next i hi =>
    rw [hscan] at hi
    cases hi

theorem findBlockFrom_of_some {i : Nat} (hlen : needle.length ≤ hay.length)
    (hscan : Buffer.scanForward hay first (hay.length - needle.length + 1) = some i) (base : Nat) :
    Buffer.findBlockFrom first needle hay base =
      if needle.isPrefixOf (hay.drop i) then some (base + i)
      else Buffer.findBlockFrom first needle (hay.drop (i + 1)) (base + i + 1) := by
  rw [Buffer.findBlockFrom, if_pos hlen]
  split
  next hnone =>
    rw [hscan] at hnone
    cases hnone
  next j hj =>
    rw [hscan] at hj
    cases hj
    rfl

/-- A search from an offset on sees what lies behind it. -/
theorem findBlockFrom_eq {last pos turns : Nat} (hlimit : hay.length < countLimit)
    (hneedle : 0 < needle.length) (hlast : last + needle.length = hay.length)
    (hpos : pos ≤ hay.length) (hturns : last < pos + turns) :
    findBlockFrom hay needle first last pos turns =
      .ok (Buffer.findBlockFrom first needle (hay.drop pos) pos) := by
  induction turns generalizing pos with
  | zero =>
    rw [Buffer.findBlockFrom, if_neg (by rw [List.length_drop]; omega)]
    rfl
  | succ turns ih =>
    rw [findBlockFrom]
    by_cases hin : pos ≤ last
    · have hlen : needle.length ≤ (hay.drop pos).length := by
        rw [List.length_drop]
        omega
      have hroom : last - pos + 1 = (hay.drop pos).length - needle.length + 1 := by
        rw [List.length_drop]
        omega
      rw [if_pos hin, sub_eq hin, ok_bind, add_eq (by omega), ok_bind, behind_eq hpos, ok_bind,
        scanForward_eq, ok_bind, hroom]
      cases hscan : Buffer.scanForward (hay.drop pos) first
          ((hay.drop pos).length - needle.length + 1) with
      | none =>
        rw [findBlockFrom_of_none hlen hscan]
        rfl
      | some i =>
        have hi : i < last - pos + 1 := by
          have := (List.findIdx?_eq_some_iff_findIdx_eq.1 hscan).1
          rw [List.length_take] at this
          omega
        have hword : (hay.drop (pos + i)).take (pos + i + needle.length - (pos + i)) = needle ↔
            needle.isPrefixOf ((hay.drop pos).drop i) = true := by
          rw [Nat.add_sub_cancel_left, List.drop_drop, take_eq_iff_isPrefixOf]
        rw [findBlockFrom_of_some hlen hscan]
        dsimp only
        rw [add_eq (by omega), ok_bind, add_eq (by omega), ok_bind,
          slice_eq (by omega) (by omega), ok_bind]
        by_cases hhit : needle.isPrefixOf ((hay.drop pos).drop i) = true
        · rw [if_pos (hword.2 hhit), if_pos hhit]
          rfl
        · rw [if_neg (mt hword.1 hhit), if_neg hhit, add_eq (by omega), ok_bind,
            ih (by omega) (by omega), List.drop_drop]
          rfl
    · rw [if_neg hin, Buffer.findBlockFrom, if_neg (by rw [List.length_drop]; omega)]
      rfl

end

theorem findBlock_eq {hay : List α} (needle : List α) (h : hay.length < countLimit) :
    findBlock hay needle = .ok (Buffer.findBlock hay needle) := by
  cases needle with
  | nil => rfl
  | cons first rest =>
    rw [findBlock, Buffer.findBlock, List.isEmpty_cons, if_neg Bool.false_ne_true]
    by_cases hlong : hay.length < (first :: rest).length
    · rw [if_pos hlong, Buffer.findBlockFrom, if_neg (by omega)]
      rfl
    · have hfirst : fetch (first :: rest) 0 = .ok first := rfl
      have hlast : hay.length - (first :: rest).length + (first :: rest).length = hay.length := by
        omega
      rw [if_neg hlong, hfirst, ok_bind, sub_eq (by omega), ok_bind,
        findBlockFrom_eq h (List.length_pos_of_mem List.mem_cons_self) hlast (Nat.zero_le _)
          (by omega)]
      rfl

end CText.Checked
