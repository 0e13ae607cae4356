import CText.Proofs.CString.Reading

/-!
# Strings of other units

Of a unit a comparison or a search notices whether it is the terminator, and which number it is once
it is folded. So it makes no difference to them if every unit is written as one of another kind that
is the same number, or if letters are folded before the string is read and not then.
-/

namespace CText.CString

variable {α β : Type} [CodeUnit α] [CodeUnit β]

theorem fold_nul (folding : Bool) : fold folding (CodeUnit.nul : α) = CodeUnit.nul := by
  cases folding with
  | false => rfl
  | true => exact CodeUnit.lower_nul

/-- A way to write units. As they are written, and folded or not as `folding'` says, they are the
numbers that they are themselves, folded or not as `folding` says. -/
structure Carries (f : α → β) (folding folding' : Bool) : Prop where
  nul : f CodeUnit.nul = CodeUnit.nul
  signed : ∀ a, CodeUnit.signed (fold folding' (f a)) = CodeUnit.signed (fold folding a)

/-- What has been folded need not be folded. -/
theorem carries_fold (folding : Bool) : Carries (fold folding : α → α) folding false where
  nul := fold_nul folding
  signed _ := rfl

namespace Carries

variable {f : α → β} {folding folding' : Bool} (hf : Carries f folding folding')

include hf

theorem fold_eq_iff (a b : α) :
    fold folding' (f a) = fold folding' (f b) ↔ fold folding a = fold folding b := by
  constructor
  · intro h
    apply CodeUnit.signed_injective
    rw [← hf.signed, ← hf.signed, h]
  · intro h
    apply CodeUnit.signed_injective
    rw [hf.signed, hf.signed, h]

theorem eq_nul_iff (a : α) : f a = CodeUnit.nul ↔ a = CodeUnit.nul := by
  constructor
  · intro h
    rw [← hf.nul] at h
    exact fold_eq_fold_nul_iff.1 ((hf.fold_eq_iff a CodeUnit.nul).1 (congrArg _ h))
  · rintro rfl
    exact hf.nul

theorem headD_map (s : List α) : (s.map f).headD CodeUnit.nul = f (s.headD CodeUnit.nul) := by
  rw [← hf.nul, List.headD_map]

variable [DecidableEq α] [DecidableEq β]

theorem content_map (s : List α) : content (s.map f) = (content s).map f := by
  have hstop : (fun b : β => decide (b ≠ CodeUnit.nul)) ∘ f = fun a => decide (a ≠ CodeUnit.nul) := by
    funext a
    simp [hf.eq_nul_iff]
  rw [content, List.takeWhile_map, hstop]
  rfl

theorem compare_map (n : Nat) (s t : List α) :
    compare folding' n (s.map f) (t.map f) = compare folding n s t := by
  induction n generalizing s t with
  | zero => rfl
  | succ n ih =>
    rw [compare_succ, compare_succ, hf.headD_map, hf.headD_map, hf.signed, hf.signed,
      ← List.map_tail, ← List.map_tail, ih]
    simp only [ne_eq, hf.fold_eq_iff, hf.eq_nul_iff]

theorem compareAll_map (s t : List α) :
    compareAll folding' (s.map f) (t.map f) = compareAll folding s t := by
  rw [compareAll, compareAll, hf.compare_map, List.length_map, List.length_map]

theorem startsWith_map (hay needle : List α) :
    startsWith folding' (hay.map f) (needle.map f) = startsWith folding hay needle := by
  induction hay generalizing needle with
  | nil => cases needle <;> rfl
  | cons a hay ih =>
    cases needle with
    | nil => rfl
    | cons b needle =>
      have hsame : sameUnit folding' (f a) (f b) = sameUnit folding a b := by
        rw [sameUnit_eq, sameUnit_eq, decide_eq_decide]
        exact hf.fold_eq_iff a b
      rw [List.map_cons, List.map_cons, startsWith, startsWith, hsame, ih]

theorem findFrom_map (needle hay : List α) :
    findFrom folding' (needle.map f) (hay.map f) = findFrom folding needle hay := by
  induction hay with
  | nil => simp [findFrom]
  | cons a hay ih =>
    have hstarts := hf.startsWith_map (a :: hay) needle
    rw [List.map_cons] at hstarts ⊢
    rw [findFrom, findFrom, hstarts, ih]

theorem find_map (hay needle : List α) :
    find folding' (hay.map f) (needle.map f) = find folding hay needle := by
  rw [find_eq, find_eq, hf.content_map, hf.content_map, hf.findFrom_map]

end Carries

end CText.CString
