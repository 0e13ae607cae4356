import CText.Buffer.Scan

/-!
# What a search finds

The last unit with a property stands in front of units that do not have it, and the first place of a
unit behind units that are others.
-/

namespace CText.Buffer

variable {α : Type} {p : α → Bool}

theorem lastIndex_eq_none {s : List α} (h : ∀ a ∈ s, p a = false) : lastIndex p s = none := by
  induction s with
  | nil => rfl
  | cons a rest ih =>
    rw [lastIndex, ih fun b hb => h b (List.mem_cons_of_mem _ hb), h a List.mem_cons_self]
    rfl

theorem lastIndex_append {a : α} {t : List α} (ha : p a = true) (h : ∀ b ∈ t, p b = false)
    (s : List α) : lastIndex p (s ++ a :: t) = some s.length := by
  induction s with
  | nil =>
    rw [List.nil_append, lastIndex, lastIndex_eq_none h]
    exact if_pos ha
  | cons b rest ih =>
    rw [List.cons_append, lastIndex, ih, List.length_cons]

theorem forall_of_lastIndex_none {s : List α} (h : lastIndex p s = none) : ∀ a ∈ s, p a = false := by
  induction s with
  | nil => nofun
  | cons a rest ih =>
    rw [lastIndex] at h
    split at h
    next => cases h
    next hrest =>
      split at h
      next => cases h
      next ha =>
        rw [List.forall_mem_cons]
        exact ⟨Bool.eq_false_iff.2 ha, ih hrest⟩

/-- What is found parts the units into those in front of it and those behind it. -/
theorem exists_of_lastIndex {s : List α} {i : Nat} (h : lastIndex p s = some i) :
    ∃ t a behind, s = t ++ a :: behind ∧ t.length = i ∧ p a = true ∧
      ∀ b ∈ behind, p b = false := by
  induction s generalizing i with
  | nil => cases h
  | cons a rest ih =>
    rw [lastIndex] at h
    split at h
    next j hj =>
      cases h
      obtain ⟨t, b, behind, rfl, rfl, hb, hbehind⟩ := ih hj
      exact ⟨a :: t, b, behind, rfl, rfl, hb, hbehind⟩
    next hnone =>
      split at h
      next ha =>
        cases h
        exact ⟨[], a, rest, rfl, rfl, ha, forall_of_lastIndex_none hnone⟩
      next => cases h

theorem lt_of_lastIndex {s : List α} {i : Nat} (h : lastIndex p s = some i) : i < s.length := by
  obtain ⟨t, a, behind, rfl, rfl, -, -⟩ := exists_of_lastIndex h
  simp

variable [DecidableEq α] {buf : List α} {needle : α} {limit i : Nat}

theorem getElem?_of_scanForward (h : scanForward buf needle limit = some i) :
    i < limit ∧ buf[i]? = some needle ∧ ∀ j < i, buf[j]? ≠ some needle := by
  obtain ⟨hi, hneedle, hbefore⟩ := List.findIdx?_eq_some_iff_getElem.1 h
  rw [List.length_take] at hi
  refine ⟨by omega, ?_, fun j hj hsome => ?_⟩
  · rw [List.getElem_take] at hneedle
    rw [List.getElem?_eq_getElem (by omega), eq_of_beq hneedle]
  · have hne := hbefore j hj
    rw [List.getElem?_eq_getElem (by omega)] at hsome
    rw [List.getElem_take, Option.some.inj hsome, beq_self_eq_true] at hne
    exact hne rfl

theorem ne_of_scanForward_none (h : scanForward buf needle limit = none) (hi : i < limit) :
    buf[i]? ≠ some needle := by
  intro hsome
  have hmem : needle ∈ buf.take limit := by
    rw [List.mem_iff_getElem?]
    exact ⟨i, by rw [List.getElem?_take_of_lt hi, hsome]⟩
  have hne := List.findIdx?_eq_none_iff.1 h needle hmem
  rw [beq_self_eq_true] at hne
  cases hne

end CText.Buffer
