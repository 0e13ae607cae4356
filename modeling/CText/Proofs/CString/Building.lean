import CText.CString.Build
import CText.Proofs.Buffer.Writing
import CText.Proofs.CString.Content

/-!
# What the building routines write

Copying and joining write one piece of the destination and leave the rest of it alone. The piece is
the string, or what there is room for, with a terminator behind it. It begins where the destination
begins, or where the string in the destination ends.
-/

namespace CText.CString

open Buffer

variable {α : Type} [CodeUnit α]

/-- Copying units and ending them writes one piece. -/
theorem set_copyDisjoint {dest src : List α} {n : Nat} (hsrc : n ≤ src.length)
    (hdest : n < dest.length) :
    (copyDisjoint dest src n).1.set n CodeUnit.nul =
      overwrite dest 0 (src.take n ++ [CodeUnit.nul]) := by
  have hpiece : 0 + (src.take n).length = n := by
    rw [List.length_take]
    omega
  have hset : (overwrite dest 0 (src.take n)).set (0 + (src.take n).length) CodeUnit.nul =
      overwrite dest 0 (src.take n ++ [CodeUnit.nul]) := set_overwrite (by omega) _
  rw [copyDisjoint_eq hsrc (Nat.le_of_lt hdest)]
  rwa [hpiece] at hset

variable [DecidableEq α]

theorem copy_eq (routine : String) (dest src : List α) :
    copy routine dest src =
      if (content src).length < dest.length then
        .ok (overwrite dest 0 (content src ++ [CodeUnit.nul]), (content src).length)
      else .error (.noRoomToCopy routine dest.length (content src).length) := by
  rw [copy, ← length_eq]
  split
  · rename_i hroom
    rw [set_copyDisjoint (length_le src) hroom, take_length]
  · rfl

theorem append_eq (routine : String) (dest src : List α) (n : Nat) :
    append routine dest src n =
      if (content dest).length + ((content src).take n).length < dest.length then
        .ok (overwrite dest (content dest).length ((content src).take n ++ [CodeUnit.nul]),
          (content dest).length + ((content src).take n).length)
      else .error (.noRoomToAppend routine dest.length
        ((content dest).length + ((content src).take n).length)) := by
  rw [append, boundedLength_eq, length_eq]
  dsimp only
  split
  · rename_i hroom
    have hfront : ((content src).take n).length ≤ src.length :=
      (List.length_take_le' _ _).trans (content_length_le src)
    have hjoined : onSuffix dest (content dest).length
        (fun rest => copyDisjoint rest src ((content src).take n).length) =
        (overwrite dest (content dest).length ((content src).take n),
          ((content src).take n).length) := by
      apply onSuffix_overwrite
      rw [copyDisjoint_eq hfront (by rw [List.length_drop]; omega), take_length_take]
    rw [hjoined]
    dsimp only
    rw [set_overwrite hroom]
  · rfl

/-- A limit that the buffer does not reach is none. -/
theorem append_whole (routine : String) (dest src : List α) :
    append routine dest src src.length =
      if (content dest).length + (content src).length < dest.length then
        .ok (overwrite dest (content dest).length (content src ++ [CodeUnit.nul]),
          (content dest).length + (content src).length)
      else .error (.noRoomToAppend routine dest.length
        ((content dest).length + (content src).length)) := by
  rw [append_eq, List.take_of_length_le (content_length_le src)]

/-- What fits, with a terminator, is copied; there is no room for anything in an empty buffer. -/
theorem copyCut_eq (dest src : List α) :
    copyCut dest src =
      (if dest.length = 0 then dest
        else overwrite dest 0 ((content src).take (dest.length - 1) ++ [CodeUnit.nul]),
        (content src).length) := by
  rw [copyCut, length_eq]
  split
  · rfl
  · have hsrc := content_length_le src
    have hcut : src.take (min (content src).length (dest.length - 1)) =
        (content src).take (dest.length - 1) := by
      rw [← take_content (Nat.min_le_left _ _), Nat.min_comm, ← List.take_take, List.take_length]
    have hwritten : (copyDisjoint dest src (min (content src).length (dest.length - 1))).1.set
        (min (content src).length (dest.length - 1)) CodeUnit.nul = _ :=
      set_copyDisjoint (by omega) (by omega)
    rw [hcut] at hwritten
    have hcount : (copyDisjoint dest src (min (content src).length (dest.length - 1))).2 =
        min (content src).length (dest.length - 1) := by
      rw [copyDisjoint_eq (by omega) (by omega)]
    dsimp only
    rw [hcount, hwritten]

/-- What fits behind the string in the destination is joined to it; nothing does if that string
takes the whole of the destination. -/
theorem appendCut_eq (dest src : List α) :
    appendCut dest src =
      (if (content dest).length = dest.length then dest
        else overwrite dest (content dest).length
          ((content src).take (dest.length - 1 - (content dest).length) ++ [CodeUnit.nul]),
        (content dest).length + (content src).length) := by
  have hle := content_length_le dest
  have hstart : boundedLength dest dest.length = (content dest).length := by
    rw [boundedLength_eq, List.take_of_length_le hle]
  rw [appendCut, hstart, length_eq]
  split
  · rfl
  · have hjoined : onSuffix dest (content dest).length (fun rest => copyCut rest src) =
        (overwrite dest (content dest).length
          ((content src).take (dest.length - 1 - (content dest).length) ++ [CodeUnit.nul]),
          (content src).length) := by
      apply onSuffix_overwrite
      rw [copyCut_eq, List.length_drop, if_neg (by omega), Nat.sub_right_comm]
    rw [hjoined]

/-- A copy up to the terminator ends where what fits of the string ends. -/
theorem exists_copyUntil_nul (dest src : List α) {limit : Nat} (h : limit ≤ dest.length) :
    ∃ ending, copyUntil dest src CodeUnit.nul limit =
        (overwrite dest 0 ((content src).take limit), ending) ∧
      (ending = .stopped ((content src).take limit).length ∨
        ending = .exhausted ((content src).take limit).length) := by
  have hcopy : copyUntil dest src CodeUnit.nul limit =
      (overwrite dest 0 ((content src).take limit),
        if ((content src).take limit).length < min limit (min dest.length src.length) then
          .stopped ((content src).take limit).length
        else .exhausted ((content src).take limit).length) := by
    have hall := copyUntil_eq dest src CodeUnit.nul limit
    rw [Nat.min_eq_left h] at hall
    exact hall
  refine ⟨_, hcopy, ?_⟩
  split
  · exact .inl rfl
  · exact .inr rfl

/-- A window is filled whole: with what fits of the string, then with terminators. -/
theorem copyWindow_eq (dest src : List α) (n : Nat) :
    let size := min n dest.length
    let piece := (content src).take size
    copyWindow dest src n =
      (overwrite dest 0 (piece ++ List.replicate (size - piece.length) CodeUnit.nul),
        ⟨piece.length, size⟩) := by
  obtain ⟨ending, hcopy, hending⟩ :=
    exists_copyUntil_nul dest src (Nat.min_le_right n dest.length)
  have hpiece : ((content src).take (min n dest.length)).length ≤ min n dest.length :=
    List.length_take_le _ _
  simp only [copyWindow, hcopy]
  generalize (content src).take (min n dest.length) = piece at hpiece hending ⊢
  have hlen : (overwrite dest 0 piece).length = dest.length := length_overwrite (by omega)
  have hpadded : onSuffix (overwrite dest 0 piece) piece.length
      (fun rest => fill rest CodeUnit.nul (min n dest.length - piece.length)) =
      (overwrite (overwrite dest 0 piece) (0 + piece.length)
        (List.replicate (min n dest.length - piece.length) CodeUnit.nul),
        min n dest.length - piece.length) := by
    rw [Nat.zero_add]
    apply onSuffix_overwrite
    rw [fill_eq (by rw [List.length_drop]; omega)]
  rw [overwrite_overwrite (by omega)] at hpadded
  rcases hending with rfl | rfl
  · rw [hpadded]
  · rw [hpadded]

end CText.CString
