import CText.Buffer.Order
import CText.Buffer.Scan
import CText.Proofs.Buffer.Writing
import Mathlib.Logic.Function.Basic

/-!
# Buffers of other units

Writing each unit of a buffer as a unit of another kind goes along with every routine on buffers.
For copies any way of writing units will do. A search also needs that different units are written
as different ones.
-/

namespace CText.Buffer

variable {α β : Type} {f : α → β}

/-- A buffer and an answer, the buffer in other units. -/
def inUnits {ρ : Type} (f : α → β) (r : List α × ρ) : List β × ρ := (r.1.map f, r.2)

theorem overwrite_map (buf : List α) (i : Nat) (piece : List α) :
    overwrite (buf.map f) i (piece.map f) = (overwrite buf i piece).map f := by
  simp [overwrite]

theorem copyDisjoint_map (dest src : List α) (n : Nat) :
    copyDisjoint (dest.map f) (src.map f) n = inUnits f (copyDisjoint dest src n) := by
  simp [copyDisjoint, inUnits]

theorem fill_map (dest : List α) (a : α) (n : Nat) :
    fill (dest.map f) (f a) n = inUnits f (fill dest a n) := by
  simp [fill, inUnits]

theorem fetch_map (buf : List α) (i : Nat) : fetch (buf.map f) i = (fetch buf i).map f := by
  rw [fetch, fetch, List.getElem?_map, List.length_map]
  cases buf[i]? <;> rfl

theorem store_map (buf : List α) (i : Nat) (a : α) :
    store (buf.map f) i (f a) = (store buf i a).map (List.map f) := by
  rw [store, store, List.length_map]
  split
  · rw [← List.map_set]
    rfl
  · rfl

theorem move_map (buf : List α) (dest src : Nat) :
    move (buf.map f) dest src = (move buf dest src).map (List.map f) := by
  rw [move, move, fetch_map]
  cases fetch buf src with
  | error v => rfl
  | ok a => exact store_map buf dest a

theorem moveUp_map (buf : List α) (dest src n : Nat) :
    moveUp (buf.map f) dest src n = (moveUp buf dest src n).map (List.map f) := by
  induction n generalizing buf dest src with
  | zero => rfl
  | succ n ih =>
    rw [moveUp, moveUp, move_map]
    cases move buf dest src with
    | error v => rfl
    | ok moved => exact ih moved (dest + 1) (src + 1)

theorem moveDown_map (buf : List α) (dest src n : Nat) :
    moveDown (buf.map f) dest src n = (moveDown buf dest src n).map (List.map f) := by
  induction n generalizing buf with
  | zero => rfl
  | succ n ih =>
    rw [moveDown, moveDown, move_map]
    cases move buf (dest + n) (src + n) with
    | error v => rfl
    | ok moved => exact ih moved

theorem copyOverlapping_map (buf : List α) (dest src n : Nat) :
    copyOverlapping (buf.map f) dest src n =
      (copyOverlapping buf dest src n).map (inUnits f) := by
  rw [copyOverlapping, copyOverlapping, List.length_map]
  split
  · rfl
  · split
    · rw [moveDown_map]
      cases moveDown buf dest src _ <;> rfl
    · rw [moveUp_map]
      cases moveUp buf dest src _ <;> rfl

theorem lastIndex_map (p : β → Bool) (s : List α) : lastIndex p (s.map f) = lastIndex (p ∘ f) s := by
  induction s with
  | nil => rfl
  | cons a rest ih =>
    rw [List.map_cons, lastIndex, ih]
    rfl

variable [DecidableEq α] [DecidableEq β]

theorem beq_comp (hf : Function.Injective f) (a : α) : (· == f a) ∘ f = (· == a) := by
  funext b
  rw [Function.comp_apply, Bool.eq_iff_iff, beq_iff_eq, beq_iff_eq, hf.eq_iff]

theorem scanForward_map (hf : Function.Injective f) (buf : List α) (a : α) (limit : Nat) :
    scanForward (buf.map f) (f a) limit = scanForward buf a limit := by
  rw [scanForward, scanForward, ← List.map_take, List.findIdx?_map, beq_comp hf]

theorem scanBackward_map (hf : Function.Injective f) (buf : List α) (a : α) (limit : Nat) :
    scanBackward (buf.map f) (f a) limit = scanBackward buf a limit := by
  rw [scanBackward, scanBackward, ← List.map_take, lastIndex_map, beq_comp hf]

theorem firstDifference_map (hf : Function.Injective f) (s t : List α) :
    firstDifference (s.map f) (t.map f) = (firstDifference s t).map (Prod.map f f) := by
  induction s generalizing t with
  | nil => rfl
  | cons a s ih =>
    cases t with
    | nil => rfl
    | cons b t =>
      rw [List.map_cons, List.map_cons, firstDifference, firstDifference]
      by_cases h : a = b
      · rw [if_pos h, if_pos (congrArg f h), ih]
      · rw [if_neg h, if_neg fun hne => h (hf hne)]
        rfl

theorem ne_of_firstDifference {s t : List α} {a b : α} (h : firstDifference s t = some (a, b)) :
    a ≠ b := by
  induction s generalizing t with
  | nil => cases h
  | cons c s ih =>
    cases t with
    | nil => cases h
    | cons d t =>
      rw [firstDifference] at h
      split at h
      · exact ih h
      · rename_i hne
        cases h
        exact hne

end CText.Buffer
