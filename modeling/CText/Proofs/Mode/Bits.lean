import CText.Mode.Parser

/-!
# Bits of modes

Modes and updates are compared bit by bit. A mode lies within another if it has no other bits. The
four bits of a class are permissions, and no two classes share a bit.
-/

namespace CText.Mode

variable {m n k : UInt32} {i : Nat}

def hasBit (n : UInt32) (i : Nat) : Bool := n.toBitVec.getLsbD i

theorem eq_of_hasBit (h : ∀ i < 32, hasBit m i = hasBit n i) : m = n := by
  apply UInt32.eq_of_toBitVec_eq
  apply BitVec.eq_of_getLsbD_eq
  exact h

@[simp] theorem hasBit_zero : hasBit 0 i = false := by
  simp [hasBit]

theorem not_hasBit_zero : ¬ hasBit 0 i = true := by
  simp

@[simp] theorem hasBit_or : hasBit (m ||| n) i = (hasBit m i || hasBit n i) := by
  simp [hasBit]

@[simp] theorem hasBit_and : hasBit (m &&& n) i = (hasBit m i && hasBit n i) := by
  simp [hasBit]

theorem hasBit_not (hi : i < 32) : hasBit (~~~m) i = !hasBit m i := by
  simp [hasBit, hi]

theorem lt_of_hasBit (h : hasBit m i = true) : i < 32 :=
  BitVec.lt_of_getLsbD h

theorem hasBit_union (bits : List UInt32) :
    hasBit (union bits) i = true ↔ ∃ n ∈ bits, hasBit n i = true := by
  have hfold : ∀ start : UInt32, hasBit (bits.foldl (· ||| ·) start) i = true ↔
      hasBit start i = true ∨ ∃ n ∈ bits, hasBit n i = true := by
    induction bits with
    | nil => simp
    | cons n rest ih =>
      intro start
      simp [ih, or_assoc]
  rw [union, hfold, hasBit_zero]
  simp

def Within (m n : UInt32) : Prop := ∀ i, hasBit m i = true → hasBit n i = true

theorem within_iff : Within m n ↔ m &&& ~~~n = 0 := by
  constructor
  · intro h
    apply eq_of_hasBit
    intro i hi
    have hm := h i
    cases hmi : hasBit m i <;> simp_all [hasBit_not]
  · intro h i hi
    have hand : hasBit (m &&& ~~~n) i = false := by rw [h, hasBit_zero]
    rw [hasBit_and, hasBit_not (lt_of_hasBit hi), hi] at hand
    simpa using hand

theorem Within.trans (hmn : Within m n) (hnk : Within n k) : Within m k :=
  fun i hi => hnk i (hmn i hi)

theorem within_zero : Within 0 n := by
  intro i hi
  simp at hi

theorem Within.or (hm : Within m k) (hn : Within n k) : Within (m ||| n) k := by
  intro i hi
  rw [hasBit_or, Bool.or_eq_true] at hi
  exact hi.elim (hm i) (hn i)

theorem within_union {bits : List UInt32} (h : ∀ m ∈ bits, Within m n) : Within (union bits) n := by
  intro i hi
  obtain ⟨m, hm, hbit⟩ := (hasBit_union bits).1 hi
  exact h m hm i hbit

theorem within_union_of_mem {bits : List UInt32} (h : m ∈ bits) : Within m (union bits) :=
  fun _ hi => (hasBit_union bits).2 ⟨m, h, hi⟩

/-! ## The bits of a class -/

theorem scope_within_permissions (who : Who) : Within who.scope allPermissions := by
  rw [within_iff]
  cases who <;> decide

/-- No bit belongs to two classes. -/
theorem scope_disjoint {v w : Who} (h : v ≠ w) : v.scope &&& w.scope = 0 := by
  revert h
  cases v <;> cases w <;> decide

end CText.Mode
