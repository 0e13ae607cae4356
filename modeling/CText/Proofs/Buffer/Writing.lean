import CText.Buffer.Copy

/-!
# Reads and writes that stay inside a buffer

A routine that works in its own buffer reads and writes by offsets that are checked every time.
Here stand the conditions under which these checks pass, and what the buffer is after a run of
writes: a piece of it is replaced, and what lies in front of the piece and behind it is kept.
-/

namespace CText.Buffer

variable {α : Type} {buf : List α}

/-- The buffer with `piece` in the place of as many units from offset `i` on. -/
def overwrite (buf : List α) (i : Nat) (piece : List α) : List α :=
  buf.take i ++ piece ++ buf.drop (i + piece.length)

theorem fetch_eq {i : Nat} {a : α} {rest : List α} (h : buf.drop i = a :: rest) :
    fetch buf i = .ok a := by
  have ha : buf[i]? = some a := by
    rw [← List.head?_drop, h, List.head?_cons]
  rw [fetch]
  rw [ha]

theorem slice_eq {start stop : Nat} (hstart : start ≤ stop) (hstop : stop ≤ buf.length) :
    slice buf start stop = .ok ((buf.drop start).take (stop - start)) := by
  rw [slice]
  rw [if_neg (by omega), if_neg (by omega), if_neg (by omega)]

theorem store_eq {i : Nat} (h : i < buf.length) (a : α) :
    store buf i a = .ok (overwrite buf i [a]) := by
  rw [store, overwrite]
  rw [if_pos h, List.set_eq_take_append_cons_drop, if_pos h]
  simp

theorem overwrite_nil (i : Nat) : overwrite buf i [] = buf := by
  simp [overwrite]

theorem length_overwrite {i : Nat} {piece : List α} (h : i + piece.length ≤ buf.length) :
    (overwrite buf i piece).length = buf.length := by
  simp only [overwrite, List.length_append, List.length_take, List.length_drop]
  omega

/-- The front of the buffer, the piece included. -/
theorem take_overwrite {i : Nat} {piece : List α} (h : i ≤ buf.length) :
    (overwrite buf i piece).take (i + piece.length) = buf.take i ++ piece := by
  have hlen : i + piece.length = (buf.take i ++ piece).length := by
    rw [List.length_append, List.length_take, Nat.min_eq_left h]
  rw [overwrite]
  rw [hlen, List.take_left]

/-- What lies behind the piece is not touched. -/
theorem drop_overwrite {i r : Nat} {piece : List α} (hi : i ≤ buf.length)
    (h : i + piece.length ≤ r) : (overwrite buf i piece).drop r = buf.drop r := by
  have hlen : (buf.take i ++ piece).length = i + piece.length := by
    rw [List.length_append, List.length_take, Nat.min_eq_left hi]
  have hr : r = (buf.take i ++ piece).length + (r - (i + piece.length)) := by omega
  rw [overwrite]
  rw [hr, List.drop_length_add_append, List.drop_drop]
  congr 1
  omega

/-- Inside the piece stand its units, and outside of it those of the buffer. -/
theorem getElem?_overwrite {i : Nat} {piece : List α} (h : i + piece.length ≤ buf.length) (p : Nat) :
    (overwrite buf i piece)[p]? =
      if i ≤ p ∧ p < i + piece.length then piece[p - i]? else buf[p]? := by
  have hfront : (buf.take i).length = i := by
    rw [List.length_take]
    omega
  rw [overwrite, List.append_assoc]
  rcases Nat.lt_or_ge p i with hp | hp
  · rw [if_neg (by omega), List.getElem?_append_left (by omega), List.getElem?_take_of_lt hp]
  · rw [List.getElem?_append_right (by omega), hfront]
    rcases Nat.lt_or_ge p (i + piece.length) with hinside | hbehind
    · rw [if_pos ⟨hp, hinside⟩, List.getElem?_append_left (by omega)]
    · rw [if_neg (by omega), List.getElem?_append_right (by omega), List.getElem?_drop]
      congr 1
      omega

theorem slice_overwrite {i start : Nat} {piece : List α} (hlen : i + piece.length ≤ buf.length)
    (h : i + piece.length ≤ start) (stop : Nat) :
    slice (overwrite buf i piece) start stop = slice buf start stop := by
  unfold slice
  rw [length_overwrite hlen, drop_overwrite (Nat.le_of_add_right_le hlen) h]

/-- Two pieces written one behind the other are one piece. -/
theorem overwrite_overwrite {i : Nat} {piece next : List α}
    (h : i + piece.length ≤ buf.length) :
    overwrite (overwrite buf i piece) (i + piece.length) next =
      overwrite buf i (piece ++ next) := by
  have hfront : (overwrite buf i piece).take (i + piece.length) = buf.take i ++ piece :=
    take_overwrite (Nat.le_of_add_right_le h)
  have hback : (overwrite buf i piece).drop (i + piece.length + next.length) =
      buf.drop (i + piece.length + next.length) :=
    drop_overwrite (Nat.le_of_add_right_le h) (Nat.le_add_right _ _)
  rw [overwrite, hfront, hback]
  simp only [overwrite, List.length_append, List.append_assoc, Nat.add_assoc]

theorem storeAll_eq {i : Nat} {piece : List α} (h : i + piece.length ≤ buf.length) :
    storeAll buf i piece = .ok (overwrite buf i piece) := by
  induction piece generalizing buf i with
  | nil => rw [storeAll, overwrite_nil]
  | cons a rest ih =>
    rw [List.length_cons] at h
    have hone : i + [a].length ≤ buf.length := by
      rw [List.length_singleton]
      omega
    have hlen := length_overwrite hone
    rw [storeAll, store_eq (by omega)]
    change storeAll (overwrite buf i [a]) (i + [a].length) rest = _
    rw [ih (by rw [hlen, List.length_singleton]; omega), overwrite_overwrite hone]
    rfl

theorem length_storeAll {i : Nat} {units written : List α}
    (h : storeAll buf i units = .ok written) : written.length = buf.length := by
  induction units generalizing buf i with
  | nil =>
    cases h
    rfl
  | cons a units ih =>
    rw [storeAll, store] at h
    split at h
    next stored hstored =>
      split at hstored
      · cases hstored
        rw [ih h, List.length_set]
      · cases hstored
    next => cases h

theorem set_eq_overwrite {i : Nat} (h : i < buf.length) (a : α) :
    buf.set i a = overwrite buf i [a] := by
  have hstore := store_eq h a
  rw [store, if_pos h] at hstore
  exact Except.ok.inj hstore

/-- A unit stored behind a piece is written with it. -/
theorem set_overwrite {i : Nat} {piece : List α} (h : i + piece.length < buf.length) (a : α) :
    (overwrite buf i piece).set (i + piece.length) a = overwrite buf i (piece ++ [a]) := by
  have hlen := length_overwrite (Nat.le_of_lt h)
  rw [set_eq_overwrite (by omega), overwrite_overwrite (Nat.le_of_lt h)]

theorem copyDisjoint_eq {dest src : List α} {n : Nat} (hsrc : n ≤ src.length)
    (hdest : n ≤ dest.length) : copyDisjoint dest src n = (overwrite dest 0 (src.take n), n) := by
  have hcount : min n (min dest.length src.length) = n := by omega
  have hpiece : 0 + (src.take n).length = n := by
    rw [List.length_take]
    omega
  rw [copyDisjoint, hcount, overwrite, hpiece]
  rfl

theorem fill_eq {dest : List α} {n : Nat} (h : n ≤ dest.length) (a : α) :
    fill dest a n = (overwrite dest 0 (List.replicate n a), n) := by
  have hcount : min n dest.length = n := by omega
  rw [fill, hcount, overwrite, List.length_replicate, Nat.zero_add]
  rfl

/-- A piece written to a part of a buffer is written to the buffer. -/
theorem onSuffix_overwrite {ρ : Type} {i : Nat} {piece : List α} {answer : ρ}
    {routine : List α → List α × ρ}
    (h : routine (buf.drop i) = (overwrite (buf.drop i) 0 piece, answer)) :
    onSuffix buf i routine = (overwrite buf i piece, answer) := by
  rw [onSuffix, h]
  simp [overwrite]

theorem overwrite_cons (d a : α) (dest piece : List α) :
    overwrite (d :: dest) 0 (a :: piece) = a :: overwrite dest 0 piece := by
  simp [overwrite]

theorem copyUntil_nil_left [DecidableEq α] (src : List α) (stop : α) (limit : Nat) :
    copyUntil [] src stop limit = ([], .exhausted 0) := by
  cases limit <;> rfl

theorem copyUntil_nil_right [DecidableEq α] (dest : List α) (stop : α) (limit : Nat) :
    copyUntil dest [] stop limit = (dest, .exhausted 0) := by
  cases limit <;> cases dest <;> rfl

/-- A copy up to a stop unit writes the units in front of it, as many as there is room for. -/
theorem copyUntil_eq [DecidableEq α] (dest src : List α) (stop : α) (limit : Nat) :
    let piece := (src.takeWhile (· ≠ stop)).take (min limit dest.length)
    copyUntil dest src stop limit =
      (overwrite dest 0 piece,
        if piece.length < min limit (min dest.length src.length) then .stopped piece.length
        else .exhausted piece.length) := by
  induction limit generalizing dest src with
  | zero => simp [copyUntil, overwrite_nil]
  | succ n ih =>
    cases dest with
    | nil => simp [copyUntil_nil_left, overwrite_nil]
    | cons d dest =>
      cases src with
      | nil => simp [copyUntil_nil_right, overwrite_nil]
      | cons a src =>
        by_cases ha : a = stop
        · simp [copyUntil, ha, overwrite_nil]
        · have hrest := ih dest src
          have hpiece : (a :: src).takeWhile (· ≠ stop) = a :: src.takeWhile (· ≠ stop) :=
            List.takeWhile_cons_of_pos (by simp [ha])
          dsimp only at hrest ⊢
          rw [hpiece, copyUntil, if_neg ha, hrest]
          simp only [List.length_cons, Nat.add_min_add_right, List.take_succ_cons, overwrite_cons,
            Nat.add_lt_add_iff_right]
          split <;> rfl

end CText.Buffer
