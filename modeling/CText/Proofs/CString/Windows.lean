import CText.Byte
import CText.Wide
import CText.Proofs.Buffer.Searching
import CText.Proofs.Checked.CString

/-!
# Copies up to a stop unit

Two kinds of routines copy up to a unit at which they stop. Those that copy a string stop in front
of its terminator and fill the rest of their window with terminators. The one that copies through a
stop unit writes that unit too, and has nothing to fill. Neither writes behind its window, whichever
of the limit, the two buffers and the stop unit ends the copy first.
-/

namespace CText.Buffer

variable {α : Type} {dest src : List α} {stop : α} {i k : Nat}

/-- A piece written over the front of a buffer. -/
theorem getElem?_overwrite_front {piece : List α} (h : piece.length ≤ dest.length) (p : Nat) :
    (overwrite dest 0 piece)[p]? = if p < piece.length then piece[p]? else dest[p]? := by
  rw [getElem?_overwrite (by omega), Nat.zero_add, Nat.sub_zero]
  simp only [Nat.zero_le, true_and]

/-- The front of one buffer written over the front of another. -/
theorem getElem?_overwrite_take (hsrc : k ≤ src.length) (hdest : k ≤ dest.length) (p : Nat) :
    (overwrite dest 0 (src.take k))[p]? = if p < k then src[p]? else dest[p]? := by
  have hpiece : (src.take k).length = k := List.length_take_of_le hsrc
  rw [getElem?_overwrite_front (by omega), hpiece]
  by_cases hp : p < k
  · rw [if_pos hp, if_pos hp, List.getElem?_take_of_lt hp]
  · rw [if_neg hp, if_neg hp]

variable [DecidableEq α]

/-- What a copy up to a stop unit takes reaches to the first of them. -/
theorem takeWhile_of_first (hstop : src[i]? = some stop)
    (hbefore : ∀ j < i, src[j]? ≠ some stop) : src.takeWhile (· ≠ stop) = src.take i := by
  induction src generalizing i with
  | nil => cases hstop
  | cons a src ih =>
    cases i with
    | zero =>
      cases hstop
      exact List.takeWhile_cons_of_neg (by simp)
    | succ i =>
      have ha : a ≠ stop := fun h => hbefore 0 (Nat.succ_pos i) (congrArg some h)
      have hrest : src.takeWhile (· ≠ stop) = src.take i :=
        ih hstop fun j hj => hbefore (j + 1) (Nat.succ_lt_succ hj)
      rw [List.take_succ_cons, ← hrest]
      exact List.takeWhile_cons_of_pos (decide_eq_true ha)

/-- A stop unit in the window is copied with all that is in front of it. -/
theorem copyThroughStop_of_first {n : Nat} (hi : i < min n (min dest.length src.length))
    (hstop : src[i]? = some stop) (hbefore : ∀ j < i, src[j]? ≠ some stop) :
    copyThroughStop dest src stop n = (overwrite dest 0 (src.take (i + 1)), some (i + 1)) := by
  have hpiece : (src.takeWhile (· ≠ stop)).take (min n dest.length) = src.take i := by
    rw [takeWhile_of_first hstop hbefore, List.take_take]
    congr 1
    omega
  have hlen : (src.take i).length = i := List.length_take_of_le (by omega)
  have hset : (overwrite dest 0 (src.take i)).set (0 + (src.take i).length) stop =
      overwrite dest 0 (src.take i ++ [stop]) := set_overwrite (by omega) stop
  rw [hlen, Nat.zero_add] at hset
  rw [copyThroughStop, copyUntil_eq, hpiece, hlen, if_pos hi]
  dsimp only
  rw [hset, List.take_add_one, hstop]
  rfl

/-- If no stop unit is in the window, the window is copied. -/
theorem copyThroughStop_of_absent {n : Nat}
    (habsent : ∀ j < min n (min dest.length src.length), src[j]? ≠ some stop) :
    copyThroughStop dest src stop n =
      (overwrite dest 0 (src.take (min n (min dest.length src.length))), none) := by
  have hfront : src.take (min n dest.length) = src.take (min n (min dest.length src.length)) := by
    rw [List.take_eq_take_iff]
    omega
  have hpiece : (src.takeWhile (· ≠ stop)).take (min n dest.length) =
      src.take (min n (min dest.length src.length)) := by
    rw [List.take_takeWhile, hfront]
    refine List.takeWhile_eq_self_iff.2 fun a ha => decide_eq_true ?_
    rintro rfl
    obtain ⟨j, hj⟩ := List.mem_iff_getElem?.1 ha
    rw [List.getElem?_take] at hj
    split at hj
    next hlt => exact habsent j hlt hj
    next => cases hj
  have hlen : (src.take (min n (min dest.length src.length))).length =
      min n (min dest.length src.length) := List.length_take_of_le (by omega)
  rw [copyThroughStop, copyUntil_eq, hpiece, hlen, if_neg (Nat.lt_irrefl _)]

/-- A buffer into whose first `m` units a source has been copied, up to the first stop unit and with
it, and the answer how far. -/
structure CopiesThrough (dest src : List α) (stop : α) (m : Nat) (now : List α)
    (answer : Option Nat) : Prop where
  length_eq : now.length = dest.length
  met : ∀ i < m, src[i]? = some stop → (∀ j < i, src[j]? ≠ some stop) →
    answer = some (i + 1) ∧ (∀ p ≤ i, now[p]? = src[p]?) ∧ ∀ p, i < p → now[p]? = dest[p]?
  missed : (∀ j < m, src[j]? ≠ some stop) →
    answer = none ∧ (∀ p < m, now[p]? = src[p]?) ∧ ∀ p, m ≤ p → now[p]? = dest[p]?

/-- Wherever the first stop unit stands, the copy goes through it and no further. -/
theorem copiesThrough_copyThroughStop (dest src : List α) (stop : α) (n : Nat) :
    CopiesThrough dest src stop (min n (min dest.length src.length))
      (copyThroughStop dest src stop n).1 (copyThroughStop dest src stop n).2 := by
  have hcopied {k : Nat} (hk : k ≤ min n (min dest.length src.length)) (p : Nat) :
      (overwrite dest 0 (src.take k))[p]? = if p < k then src[p]? else dest[p]? :=
    getElem?_overwrite_take (by omega) (by omega) p
  refine ⟨?_, fun i hi hstop hbefore => ?_, fun habsent => ?_⟩
  · cases hscan : scanForward src stop (min n (min dest.length src.length)) with
    | none =>
      rw [copyThroughStop_of_absent fun j hj => ne_of_scanForward_none hscan hj]
      exact length_overwrite (by rw [List.length_take]; omega)
    | some i =>
      obtain ⟨hi, hstop, hbefore⟩ := getElem?_of_scanForward hscan
      rw [copyThroughStop_of_first hi hstop hbefore]
      exact length_overwrite (by rw [List.length_take]; omega)
  · rw [copyThroughStop_of_first hi hstop hbefore]
    refine ⟨rfl, fun p hp => ?_, fun p hp => ?_⟩
    · rw [hcopied hi, if_pos (Nat.lt_succ_of_le hp)]
    · rw [hcopied hi, if_neg (Nat.not_lt_of_le hp)]
  · rw [copyThroughStop_of_absent habsent]
    refine ⟨rfl, fun p hp => ?_, fun p hp => ?_⟩
    · rw [hcopied (Nat.le_refl _), if_pos hp]
    · rw [hcopied (Nat.le_refl _), if_neg (Nat.not_lt_of_le hp)]

end CText.Buffer

namespace CText.CString

open Buffer

section

variable {α : Type} [DecidableEq α] [CodeUnit α]

/-- A buffer whose first `w` units have been filled with a string, and with terminators behind it as
far as there is room for them. -/
structure FillsWindow (dest src : List α) (w : Nat) (now : List α) : Prop where
  length_eq : now.length = dest.length
  copied : ∀ p < min w (length src), now[p]? = src[p]?
  padded : ∀ p, min w (length src) ≤ p → p < w → now[p]? = some CodeUnit.nul
  kept : ∀ p, w ≤ p → now[p]? = dest[p]?
  ended_iff : CodeUnit.nul ∈ now.take w ↔ length src < w

/-- A string and the terminators behind it, as many units as a window has. -/
def windowPiece (src : List α) (w : Nat) : List α :=
  (content src).take w ++ List.replicate (w - ((content src).take w).length) CodeUnit.nul

theorem length_take_content (src : List α) (w : Nat) :
    ((content src).take w).length = min w (length src) := by
  rw [List.length_take, ← length_eq]

theorem length_windowPiece (src : List α) (w : Nat) : (windowPiece src w).length = w := by
  have hle := List.length_take_le w (content src)
  rw [windowPiece, List.length_append, List.length_replicate]
  omega

theorem getElem?_windowPiece_of_lt {src : List α} {w p : Nat} (h : p < min w (length src)) :
    (windowPiece src w)[p]? = src[p]? := by
  rw [windowPiece, List.getElem?_append_left (by rwa [length_take_content]),
    ← take_length_take src w, List.getElem?_take_of_lt (by rwa [length_take_content])]

theorem getElem?_windowPiece_of_le {src : List α} {w p : Nat} (h : min w (length src) ≤ p)
    (hp : p < w) : (windowPiece src w)[p]? = some CodeUnit.nul := by
  rw [windowPiece, List.getElem?_append_right (by rwa [length_take_content]), length_take_content,
    List.getElem?_replicate, if_pos (by omega)]

theorem nul_mem_windowPiece {src : List α} {w : Nat} :
    CodeUnit.nul ∈ windowPiece src w ↔ length src < w := by
  have hcontent : CodeUnit.nul ∉ (content src).take w :=
    fun h => nul_notMem_content src (List.mem_of_mem_take h)
  have hrest : w - min w (length src) ≠ 0 ↔ length src < w := by omega
  rw [windowPiece, List.mem_append, or_iff_right hcontent, List.mem_replicate, length_take_content,
    hrest]
  exact and_iff_left rfl

theorem fillsWindow_overwrite {dest : List α} (src : List α) {w : Nat} (hw : w ≤ dest.length) :
    FillsWindow dest src w (overwrite dest 0 (windowPiece src w)) := by
  have hlen := length_windowPiece src w
  have hroom : 0 + (windowPiece src w).length ≤ dest.length := by omega
  have hread (p : Nat) : (overwrite dest 0 (windowPiece src w))[p]? =
      if p < w then (windowPiece src w)[p]? else dest[p]? := by
    rw [getElem?_overwrite_front (by omega), hlen]
  have hfront : (overwrite dest 0 (windowPiece src w)).take w = windowPiece src w := by
    have htake : (overwrite dest 0 (windowPiece src w)).take (0 + (windowPiece src w).length) =
        dest.take 0 ++ windowPiece src w := take_overwrite (Nat.zero_le _)
    rwa [hlen, Nat.zero_add, List.take_zero, List.nil_append] at htake
  refine ⟨length_overwrite hroom, fun p hp => ?_, fun p hp hlt => ?_, fun p hp => ?_, ?_⟩
  · rw [hread, if_pos (by omega), getElem?_windowPiece_of_lt hp]
  · rw [hread, if_pos hlt, getElem?_windowPiece_of_le hp hlt]
  · rw [hread, if_neg (Nat.not_lt_of_le hp)]
  · rw [hfront, nul_mem_windowPiece]

/-- The copy of a string into a window fills the window, and answers how much of it is the string
and how large it is. -/
theorem exists_copyWindow (dest src : List α) (n : Nat) :
    let w := min n dest.length
    ∃ now, copyWindow dest src n = (now, ⟨min w (length src), w⟩) ∧ FillsWindow dest src w now := by
  intro w
  refine ⟨_, ?_, fillsWindow_overwrite src (Nat.min_le_right n dest.length)⟩
  rw [copyWindow_eq, windowPiece, length_take_content]

end

open Byte Wide

/-- A copy of a string into a window writes the whole of the window and nothing else: the string, or
as much of it as the window has room for, and terminators behind it. So a terminator is in the
window exactly if the string is shorter than it. A copy through a stop byte writes all up to the
first one and the stop byte itself, or, if there is none among the bytes it may copy, all of these,
and nothing else. Step by step no copy reads or writes outside its buffers. -/
theorem copies_keep_to_windows :
    -- Bytes.
    (∀ dest src n,
      let w := min n dest.length
      let copied := min w (strlen src)
      ∃ now, Checked.copyWindow dest src n = .ok (now, ⟨copied, w⟩) ∧
        strncpy dest src n = (now, w) ∧ stpncpy dest src n = (now, copied) ∧
        FillsWindow dest src w now) ∧
    -- Wide units.
    (∀ dest src n,
      let w := min n dest.length
      ∃ now, Checked.copyWindow dest src n = .ok (now, ⟨min w (wcslen src), w⟩) ∧
        wcsncpy dest src n = (now, w) ∧ FillsWindow dest src w now) ∧
    -- Bytes, through a stop byte.
    ∀ dest src stop n,
      ∃ now answer, memccpy dest src stop n = (now, answer) ∧
        (src.length < Checked.countLimit →
          Checked.copyThroughStop dest src stop n = .ok (now, answer)) ∧
        CopiesThrough dest src stop (min n (min dest.length src.length)) now answer := by
  refine ⟨fun dest src n => ?_, fun dest src n => ?_, fun dest src stop n => ?_⟩
  · obtain ⟨now, hcopy, hfills⟩ := exists_copyWindow dest src n
    refine ⟨now, ?_, ?_, ?_, hfills⟩
    · rw [Checked.copyWindow_eq, hcopy]
      rfl
    · rw [strncpy, hcopy]
      rfl
    · rw [stpncpy, hcopy]
      rfl
  · obtain ⟨now, hcopy, hfills⟩ := exists_copyWindow dest src n
    refine ⟨now, ?_, ?_, hfills⟩
    · rw [Checked.copyWindow_eq, hcopy]
      rfl
    · rw [wcsncpy, hcopy]
      rfl
  · exact ⟨_, _, rfl, fun h => Checked.copyThroughStop_eq dest stop n h,
      copiesThrough_copyThroughStop dest src stop n⟩

/-- The stop byte is the last byte that the limit allows for. -/
theorem copies_keep_to_windows_last :
    ([97, 98, 99, 100] : List UInt8).length < Checked.countLimit ∧
      Checked.copyThroughStop ([0, 0, 0, 0] : List UInt8) [97, 98, 99, 100] 99 3 =
        .ok ([97, 98, 99, 0], some 3) := by
  have hlen : ([97, 98, 99, 100] : List UInt8).length < Checked.countLimit := by decide
  obtain ⟨-, -, hthrough⟩ := copies_keep_to_windows
  obtain ⟨now, answer, hrun, hsteps, -⟩ := hthrough [0, 0, 0, 0] [97, 98, 99, 100] 99 3
  have hcopy : memccpy [0, 0, 0, 0] [97, 98, 99, 100] 99 3 = ([97, 98, 99, 0], some 3) := rfl
  rw [hcopy] at hrun
  refine ⟨hlen, ?_⟩
  rw [hsteps hlen, ← hrun]

end CText.CString
