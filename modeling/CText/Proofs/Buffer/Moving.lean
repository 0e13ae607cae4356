import CText.Proofs.Checked.Buffer

/-!
# Moving units within a buffer

Two regions of one buffer may overlap, and then a unit can be overwritten before it is read. At any
time of a move the units that have been moved are a run of the region: its lowest ones when the move
goes up, its highest ones when it goes down. The next unit to be read is not among the units
overwritten so far, because the move goes up only where the region written begins at or below the
region read or behind it, and down only where it begins above. So every unit is read as it was at
the start, as if the region had been copied elsewhere first.
-/

namespace CText.Buffer

variable {α : Type} {buf now : List α} {dest src first stop count n : Nat}

/-- A buffer in which the units of a region from the one numbered `first` up to the one numbered
`stop` have been moved from `src` to `dest`, and all else is as it was. -/
structure Moved (buf : List α) (dest src first stop : Nat) (now : List α) : Prop where
  length_eq : now.length = buf.length
  moved : ∀ i, first ≤ i → i < stop → now[dest + i]? = buf[src + i]?
  kept : ∀ p, p < dest + first ∨ dest + stop ≤ p → now[p]? = buf[p]?

/-- At the start nothing has been moved. -/
theorem Moved.start (buf : List α) (dest src i : Nat) : Moved buf dest src i i buf where
  length_eq := rfl
  moved _ hi hlt := absurd hi (Nat.not_le.2 hlt)
  kept _ _ := rfl

/-- A unit that is not overwritten yet is moved as it was at the start. -/
theorem Moved.exists_move {i : Nat} (h : Moved buf dest src first stop now)
    (hunread : src + i < dest + first ∨ dest + stop ≤ src + i) (hdest : dest + i < buf.length)
    (hsrc : src + i < buf.length) :
    ∃ next, move now (dest + i) (src + i) = .ok next ∧ next.length = buf.length ∧
      next[dest + i]? = buf[src + i]? ∧ ∀ p, p ≠ dest + i → next[p]? = now[p]? := by
  have hsame : now[src + i]? = some buf[src + i] := by
    rw [h.kept _ hunread, List.getElem?_eq_getElem hsrc]
  have hfetch : fetch now (src + i) = .ok buf[src + i] := by
    rw [fetch, hsame]
  have hroom : dest + i < now.length := by
    rw [h.length_eq]
    exact hdest
  refine ⟨now.set (dest + i) buf[src + i], ?_, ?_, ?_, ?_⟩
  · rw [move, hfetch]
    exact if_pos hroom
  · rw [List.length_set, h.length_eq]
  · rw [List.getElem?_set_self hroom, List.getElem?_eq_getElem hsrc]
  · intro p hp
    exact List.getElem?_set_ne (Ne.symm hp)

/-- One more unit above those that have been moved. -/
theorem Moved.up (h : Moved buf dest src 0 stop now)
    (hunread : src + stop < dest ∨ dest + stop ≤ src + stop) (hdest : dest + stop < buf.length)
    (hsrc : src + stop < buf.length) :
    ∃ next, move now (dest + stop) (src + stop) = .ok next ∧
      Moved buf dest src 0 (stop + 1) next := by
  obtain ⟨next, hmove, hlen, hnew, hold⟩ := h.exists_move hunread hdest hsrc
  refine ⟨next, hmove, hlen, ?_, ?_⟩
  · intro i _ hi
    rcases Nat.lt_or_eq_of_le (Nat.le_of_lt_succ hi) with hlt | rfl
    · rw [hold _ (by omega)]
      exact h.moved i (Nat.zero_le i) hlt
    · exact hnew
  · intro p hp
    rw [hold p (by omega)]
    exact h.kept p (by omega)

/-- One more unit below those that have been moved. -/
theorem Moved.down (h : Moved buf dest src (first + 1) stop now) (hfirst : first < stop)
    (hunread : src ≤ dest) (hdest : dest + first < buf.length) (hsrc : src + first < buf.length) :
    ∃ next, move now (dest + first) (src + first) = .ok next ∧
      Moved buf dest src first stop next := by
  obtain ⟨next, hmove, hlen, hnew, hold⟩ := h.exists_move (.inl (by omega)) hdest hsrc
  refine ⟨next, hmove, hlen, ?_, ?_⟩
  · intro i hi hlt
    rcases Nat.lt_or_eq_of_le hi with hlarger | rfl
    · rw [hold _ (by omega)]
      exact h.moved i hlarger hlt
    · exact hnew
  · intro p hp
    rw [hold p (by omega)]
    exact h.kept p (by omega)

/-- Going up moves the rest of a region, unless a unit still to be read lies where units have been
written. -/
theorem Moved.moveUp (h : Moved buf dest src 0 stop now)
    (hapart : dest ≤ src ∨ src + (stop + n) ≤ dest) (hdest : dest + (stop + n) ≤ buf.length)
    (hsrc : src + (stop + n) ≤ buf.length) :
    ∃ next, moveUp now (dest + stop) (src + stop) n = .ok next ∧
      Moved buf dest src 0 (stop + n) next := by
  induction n generalizing now stop with
  | zero => exact ⟨now, rfl, h⟩
  | succ n ih =>
    obtain ⟨next, hmove, hnext⟩ := h.up (by omega) (by omega) (by omega)
    obtain ⟨last, hrest, hlast⟩ := ih hnext (by omega) (by omega) (by omega)
    refine ⟨last, ?_, ?_⟩
    · rw [Buffer.moveUp, hmove]
      exact hrest
    · rwa [Nat.add_assoc, Nat.add_comm 1] at hlast

/-- Going down moves the rest of a region that is to stand no lower than it does. -/
theorem Moved.moveDown (h : Moved buf dest src n stop now) (hn : n ≤ stop) (hup : src ≤ dest)
    (hdest : dest + n ≤ buf.length) (hsrc : src + n ≤ buf.length) :
    ∃ next, moveDown now dest src n = .ok next ∧ Moved buf dest src 0 stop next := by
  induction n generalizing now with
  | zero => exact ⟨now, rfl, h⟩
  | succ n ih =>
    obtain ⟨next, hmove, hnext⟩ := h.down hn hup (by omega) (by omega)
    obtain ⟨last, hrest, hlast⟩ := ih hnext (by omega) (by omega) (by omega)
    refine ⟨last, ?_, hlast⟩
    rw [Buffer.moveDown, hmove]
    exact hrest

/-- Whichever way the regions lie, the whole region is moved. -/
theorem exists_copyOverlapping (buf : List α) (dest src n : Nat) :
    let count := min n (min (buf.length - dest) (buf.length - src))
    ∃ now, copyOverlapping buf dest src n = .ok (now, count) ∧ Moved buf dest src 0 count now := by
  intro count
  have hcount : count = min n (min (buf.length - dest) (buf.length - src)) := rfl
  rw [copyOverlapping, ← hcount]
  by_cases hstill : count = 0 ∨ dest = src
  · refine ⟨buf, if_pos hstill, ?_⟩
    rcases hstill with hzero | rfl
    · rw [hzero]
      exact .start buf dest src 0
    · exact ⟨rfl, fun _ _ _ => rfl, fun _ _ => rfl⟩
  · obtain ⟨hsome, hne⟩ := not_or.1 hstill
    have hdest : dest + count ≤ buf.length := by omega
    have hsrc : src + count ≤ buf.length := by omega
    by_cases hinside : src < dest ∧ dest < src + count
    · obtain ⟨now, hmove, hmoved⟩ :=
        (Moved.start buf dest src count).moveDown (Nat.le_refl _) (Nat.le_of_lt hinside.1)
          hdest hsrc
      refine ⟨now, ?_, hmoved⟩
      rw [if_neg hstill, if_pos hinside, hmove]
      rfl
    · have hapart : dest ≤ src ∨ src + (0 + count) ≤ dest := by omega
      obtain ⟨now, hmove, hmoved⟩ :=
        (Moved.start buf dest src 0).moveUp hapart (by omega) (by omega)
      refine ⟨now, ?_, by rwa [Nat.zero_add] at hmoved⟩
      rw [if_neg hstill, if_neg hinside]
      exact congrArg (Except.map (·, count)) hmove

/-- A region that has been moved stands where it was moved to as it was read at the start. -/
theorem Moved.eq_overwrite (h : Moved buf dest src 0 count now) (hdest : dest + count ≤ buf.length)
    (hsrc : src + count ≤ buf.length) : now = overwrite buf dest ((buf.drop src).take count) := by
  have hregion : ((buf.drop src).take count).length = count := by
    rw [List.length_take, List.length_drop]
    omega
  apply List.ext_getElem?
  intro p
  rw [getElem?_overwrite (by omega), hregion]
  by_cases hinside : dest ≤ p ∧ p < dest + count
  · obtain ⟨i, rfl⟩ := Nat.exists_eq_add_of_le hinside.1
    have hi : i < count := by omega
    rw [if_pos hinside, h.moved i (Nat.zero_le i) hi, Nat.add_sub_cancel_left,
      List.getElem?_take_of_lt hi, List.getElem?_drop]
  · rw [if_neg hinside]
    exact h.kept p (by omega)

theorem Moved.eq_of_count_zero (h : Moved buf dest src 0 0 now) : now = buf :=
  List.ext_getElem? fun p => h.kept p (Nat.lt_or_ge p dest)

/-- Moving a region is copying it elsewhere and back: it is read whole before it is written. -/
theorem Moved.eq_copyThrough
    (h : Moved buf dest src 0 (min n (min (buf.length - dest) (buf.length - src))) now) :
    copyThrough buf dest src n =
      (now, min n (min (buf.length - dest) (buf.length - src))) := by
  rw [copyThrough]
  generalize hcount : min n (min (buf.length - dest) (buf.length - src)) = count at h
  congr 1
  rcases Nat.eq_zero_or_pos count with rfl | hpos
  · rw [h.eq_of_count_zero, List.take_zero, List.append_nil, Nat.add_zero, List.take_append_drop]
  · have hregion : ((buf.drop src).take count).length = count := by
      rw [List.length_take, List.length_drop]
      omega
    rw [h.eq_overwrite (by omega) (by omega), overwrite, hregion]

/-- A move within a buffer that can be counted keeps to the buffer, whatever its two offsets and its
count are. It moves as many units as there are behind both offsets and no more than it is asked to,
and answers how many. Each of them is afterwards the unit that was there at the start, wherever the
two regions lie, and all other units are as they were: it is a copy through a buffer of its own. -/
theorem overlapping_move_reads_before_writes (buf : List α) (dest src n : Nat)
    (h : buf.length < Checked.countLimit) :
    let count := min n (min (buf.length - dest) (buf.length - src))
    ∃ now, Checked.copyOverlapping buf dest src n = .ok (now, count) ∧
      copyOverlapping buf dest src n = .ok (now, count) ∧
      now.length = buf.length ∧
      (∀ i < count, dest + i < buf.length ∧ src + i < buf.length ∧
        now[dest + i]? = buf[src + i]?) ∧
      (∀ p, p < dest ∨ dest + count ≤ p → now[p]? = buf[p]?) ∧
      copyThrough buf dest src n = (now, count) := by
  intro count
  obtain ⟨now, hmove, hmoved⟩ := exists_copyOverlapping buf dest src n
  refine ⟨now, ?_, hmove, hmoved.length_eq, ?_, hmoved.kept, hmoved.eq_copyThrough⟩
  · rw [Checked.copyOverlapping_eq h]
    exact hmove
  · intro i hi
    exact ⟨by omega, by omega, hmoved.moved i (Nat.zero_le i) hi⟩

/-- Five units are to be moved up by one, of which three fit. -/
theorem overlapping_move_sample :
    ([1, 2, 3, 4] : List UInt8).length < Checked.countLimit ∧
      Checked.copyOverlapping ([1, 2, 3, 4] : List UInt8) 1 0 5 = .ok ([1, 1, 2, 3], 3) := by
  have hlen : ([1, 2, 3, 4] : List UInt8).length < Checked.countLimit := by decide
  obtain ⟨now, hmove, -, -, -, -, hthrough⟩ :=
    overlapping_move_reads_before_writes ([1, 2, 3, 4] : List UInt8) 1 0 5 hlen
  have hnow : copyThrough ([1, 2, 3, 4] : List UInt8) 1 0 5 = ([1, 1, 2, 3], 3) := rfl
  rw [hnow] at hthrough
  refine ⟨hlen, ?_⟩
  rw [hmove, ← hthrough]

end CText.Buffer
