import Mathlib.Data.List.Basic

/-!
# What a run yields

A run ends with a value or fails. What is said of its value is put together along its steps.
-/

namespace CText

/-- Whatever a run yields, if it does not fail, has a property. -/
def Yields {ε β : Type} (P : β → Prop) (x : Except ε β) : Prop := ∀ b, x = .ok b → P b

section

variable {ε β γ : Type} {P : β → Prop} {Q : γ → Prop} {x : Except ε β}

theorem yields_ok {b : β} (h : P b) : Yields P (.ok b : Except ε β) := by
  rintro _ ⟨⟩
  exact h

theorem yields_error (e : ε) : Yields P (.error e : Except ε β) := nofun

theorem Yields.bind {k : β → Except ε γ} (h : Yields P x) (hk : ∀ b, P b → Yields Q (k b)) :
    Yields Q (x >>= k) := by
  cases x with
  | ok b => exact hk b (h b rfl)
  | error e => exact yields_error e

/-- What a run yields, whatever is yielded on the way. -/
theorem yields_bind {k : β → Except ε γ} (hk : ∀ b, Yields Q (k b)) : Yields Q (x >>= k) := by
  cases x with
  | ok b => exact hk b
  | error e => exact yields_error e

theorem Yields.map {f : β → γ} (h : Yields P x) (hf : ∀ b, P b → Q (f b)) : Yields Q (x.map f) := by
  cases x with
  | ok b => exact yields_ok (hf b (h b rfl))
  | error e => exact yields_error e

/-- What one run after the other yields. -/
theorem yields_mapM {f : γ → Except ε β} {items : List γ} (h : ∀ c ∈ items, Yields P (f c)) :
    Yields (∀ b ∈ ·, P b) (items.mapM f) := by
  induction items with
  | nil => exact yields_ok nofun
  | cons c items ih =>
    rw [List.forall_mem_cons] at h
    rw [List.mapM_cons]
    exact h.1.bind fun b hb => (ih h.2).bind fun rest hrest =>
      yields_ok (List.forall_mem_cons.2 ⟨hb, hrest⟩)

/-- If each run yields something, one after the other do. -/
theorem exists_mapM {f : γ → Except ε β} {items : List γ} (h : ∀ c ∈ items, ∃ b, f c = .ok b) :
    ∃ results, items.mapM f = .ok results := by
  induction items with
  | nil => exact ⟨[], rfl⟩
  | cons c items ih =>
    rw [List.forall_mem_cons] at h
    obtain ⟨b, hb⟩ := h.1
    obtain ⟨results, hresults⟩ := ih h.2
    refine ⟨b :: results, ?_⟩
    rw [List.mapM_cons, hb, hresults]
    rfl

end

end CText
