import CText.Proofs.Mode.Bits
import CText.Proofs.Mode.Clauses

/-!
# Clauses merged into one update

An update clears bits first and sets bits then, once for all clauses together. This is what the
clauses do one after the other, because a bit that one of them sets belongs to a class that no later
one changes. For the same reason the order of the clauses does not matter.
-/

namespace CText.Mode

variable {m n : UInt32} {i : Nat}

/-! ## The bits of a clause -/

theorem letterBits_within (p : UInt8) (who : Who) :
    Within ((letterBits p who).getD 0) who.scope := by
  have hall : ∀ p : UInt8, ∀ w ∈ Who.all, (letterBits p w).getD 0 &&& ~~~w.scope = 0 :=
    byte_induction (by decide)
  have hwho : who ∈ Who.all := by cases who <;> decide
  exact within_iff.2 (hall p who hwho)

theorem Clause.named_within (c : Clause) : Within c.named c.scope := by
  refine within_union fun n hn => ?_
  obtain ⟨p, -, hp⟩ := List.mem_flatMap.1 hn
  obtain ⟨who, hwho, rfl⟩ := List.mem_map.1 hp
  exact (letterBits_within p who).trans (within_union_of_mem (List.mem_map_of_mem hwho))

theorem Clause.scope_within (c : Clause) : Within c.scope allPermissions := by
  refine within_union fun n hn => ?_
  obtain ⟨who, -, rfl⟩ := List.mem_map.1 hn
  exact scope_within_permissions who

theorem Clause.update_within (c : Clause) :
    Within c.update.bits c.scope ∧ Within c.update.mask c.scope := by
  unfold Clause.update
  cases c.operator with
  | add => exact ⟨c.named_within, within_zero⟩
  | remove => exact ⟨within_zero, c.named_within⟩
  | assign => exact ⟨c.named_within, fun _ hi => hi⟩

theorem hasBit_ite {p : Prop} [Decidable p] :
    hasBit (if p then m else 0) i = true ↔ p ∧ hasBit m i = true := by
  split <;> simp [*]

/-- What the reader takes for the bits of a letter are the bits that the notation gives it. -/
theorem ClauseText.hasBit_namedOf (c : ClauseText) (who : Who) :
    hasBit (c.namedOf who) i = true ↔
      ∃ p ∈ c.letters, hasBit ((letterBits p who).getD 0) i = true := by
  simp only [ClauseText.namedOf, hasBit_or, Bool.or_eq_true, hasBit_ite]
  constructor
  · rintro (⟨hp, hi⟩ | ⟨hp, hi⟩ | ⟨hp, hi⟩ | ⟨hp, hi⟩)
    · exact ⟨_, hp, hi⟩
    · exact ⟨_, hp, hi⟩
    · exact ⟨_, hp, hi⟩
    · refine ⟨_, hp, ?_⟩
      cases who <;> exact hi
  · rintro ⟨p, hp, hi⟩
    have hletter : p = Ascii.byte 'r' ∨ p = Ascii.byte 'w' ∨ p = Ascii.byte 'x' ∨
        p = Ascii.byte 's' ∨ p = Ascii.byte 't' := by
      simpa [Ascii.bytes] using c.letters_mem p hp
    rcases hletter with rfl | rfl | rfl | rfl | rfl
    · exact .inl ⟨hp, hi⟩
    · exact .inr (.inl ⟨hp, hi⟩)
    · exact .inr (.inr (.inl ⟨hp, hi⟩))
    · cases who with
      | owner => exact .inr (.inr (.inr ⟨hp, hi⟩))
      | group => exact .inr (.inr (.inr ⟨hp, hi⟩))
      | other => exact absurd hi not_hasBit_zero
    · cases who with
      | owner => exact absurd hi not_hasBit_zero
      | group => exact absurd hi not_hasBit_zero
      | other => exact .inr (.inr (.inr ⟨hp, hi⟩))

theorem ClauseText.clause_named (c : ClauseText) : c.clause.named = c.named := by
  apply eq_of_hasBit
  intro i _
  rw [Bool.eq_iff_iff, Clause.named, ClauseText.named, hasBit_union, hasBit_union]
  simp only [List.mem_flatMap, List.mem_map]
  constructor
  · rintro ⟨n, ⟨p, hp, who, hwho, rfl⟩, hi⟩
    exact ⟨_, ⟨who, hwho, rfl⟩, (c.hasBit_namedOf who).2 ⟨p, hp, hi⟩⟩
  · rintro ⟨n, ⟨who, hwho, rfl⟩, hi⟩
    obtain ⟨p, hp, hi⟩ := (c.hasBit_namedOf who).1 hi
    exact ⟨_, ⟨p, hp, who, hwho, rfl⟩, hi⟩

theorem ClauseText.clause_apply (c : ClauseText) (mode : UInt32) :
    c.clause.apply mode = c.run mode := by
  have hop : c.clause.operator = c.operator := rfl
  rw [Clause.apply, ClauseText.run, c.clause_named, hop]
  cases c.operator <;> rfl

/-! ## Merging -/

/-- No bit is a bit of both. -/
def Apart (m n : UInt32) : Prop := ∀ i, hasBit m i = true → hasBit n i = false

theorem Apart.or {k : UInt32} (hm : Apart m k) (hn : Apart n k) : Apart (m ||| n) k := by
  intro i hi
  rw [hasBit_or, Bool.or_eq_true] at hi
  exact hi.elim (hm i) (hn i)

theorem apart_scope {v w : Who} (h : v ≠ w) : Apart v.scope w.scope := by
  intro i hv
  have hand : hasBit (v.scope &&& w.scope) i = false := by rw [scope_disjoint h, hasBit_zero]
  rw [hasBit_and, hv] at hand
  exact hand

theorem Clause.scope_apart {c : Clause} {who : Who} (h : who ∉ c.who) :
    Apart c.scope who.scope := by
  intro i hc
  obtain ⟨n, hn, hni⟩ := (hasBit_union _).1 hc
  obtain ⟨v, hv, rfl⟩ := List.mem_map.1 hn
  have hne : v ≠ who := by
    rintro rfl
    exact h hv
  exact apart_scope hne i hni

/-- Clauses without a common class have no common bit. -/
theorem Clause.scopes_apart {c d : Clause} (h : ∀ who ∈ c.who, who ∉ d.who) :
    Apart c.scope d.scope := by
  intro i hc
  rw [← Bool.not_eq_true]
  intro hd
  obtain ⟨n, hn, hni⟩ := (hasBit_union _).1 hd
  obtain ⟨who, hwho, rfl⟩ := List.mem_map.1 hn
  have hnot := Clause.scope_apart (fun hc => h who hc hwho) i hc
  rw [hni] at hnot
  cases hnot

/-- A clause leaves the bits of all other classes alone. -/
theorem Clause.apply_and_scope {c : Clause} {who : Who} (h : who ∉ c.who) (mode : UInt32) :
    c.apply mode &&& who.scope = mode &&& who.scope := by
  apply eq_of_hasBit
  intro i hi
  have hapart := Clause.scope_apart h i
  have hnamed := c.named_within i
  unfold Clause.apply
  cases c.operator with
  | add =>
    rw [hasBit_and, hasBit_and, hasBit_or]
    cases hn : hasBit c.named i <;> simp_all
  | remove =>
    rw [hasBit_and, hasBit_and, hasBit_and, hasBit_not hi]
    cases hn : hasBit c.named i <;> simp_all
  | assign =>
    rw [hasBit_and, hasBit_and, hasBit_or, hasBit_and, hasBit_not hi]
    cases hn : hasBit c.named i <;> cases hs : hasBit c.scope i <;> simp_all

/-- A clause merged into an update comes after it, if the update sets no bit of the clause's
classes. -/
theorem apply_merge_update {u : Update} {c : Clause} (h : Apart u.bits c.scope) (base : UInt32) :
    (u.merge c.update).apply base = c.apply (u.apply base) := by
  apply eq_of_hasBit
  intro i hi
  have hset := h i
  have hnamed := c.named_within i
  cases hop : c.operator with
  | add =>
    simp [Update.merge, Clause.update, Clause.apply, Update.apply, hop, hasBit_not hi,
      Bool.or_assoc]
  | remove =>
    simp only [Update.merge, Clause.update, Clause.apply, Update.apply, hop, hasBit_or, hasBit_and,
      hasBit_not hi, hasBit_zero]
    cases hu : hasBit u.bits i <;> cases hn : hasBit c.named i <;> simp_all
  | assign =>
    simp only [Update.merge, Clause.update, Clause.apply, Update.apply, hop, hasBit_or, hasBit_and,
      hasBit_not hi]
    cases hu : hasBit u.bits i <;> cases hn : hasBit c.scope i <;> simp_all

theorem apply_foldl_merge {clauses : List Clause} {u : Update}
    (hu : ∀ c ∈ clauses, Apart u.bits c.scope)
    (hclauses : clauses.Pairwise fun c d => ∀ who ∈ c.who, who ∉ d.who) (base : UInt32) :
    (clauses.foldl (fun u c => u.merge c.update) u).apply base =
      clauses.foldl (fun mode c => c.apply mode) (u.apply base) := by
  induction clauses generalizing u with
  | nil => rfl
  | cons c others ih =>
    rw [List.pairwise_cons] at hclauses
    have hmerged : ∀ d ∈ others, Apart (u.merge c.update).bits d.scope := by
      intro d hd
      refine Apart.or (hu d (List.mem_cons_of_mem _ hd)) fun i hi => ?_
      exact Clause.scopes_apart (hclauses.1 d hd) i (c.update_within.1 i hi)
    rw [List.foldl_cons, ih hmerged hclauses.2, apply_merge_update (hu c List.mem_cons_self),
      List.foldl_cons]

theorem foldl_merge_within {clauses : List Clause} {u : Update}
    (hbits : Within u.bits allPermissions) (hmask : Within u.mask allPermissions) :
    Within (clauses.foldl (fun u c => u.merge c.update) u).bits allPermissions ∧
      Within (clauses.foldl (fun u c => u.merge c.update) u).mask allPermissions := by
  induction clauses generalizing u with
  | nil => exact ⟨hbits, hmask⟩
  | cons c others ih =>
    exact ih (hbits.or (c.update_within.1.trans c.scope_within))
      (hmask.or (c.update_within.2.trans c.scope_within))

theorem merge_right_comm (u v w : Update) : (u.merge v).merge w = (u.merge w).merge v := by
  simp only [Update.merge, UInt32.or_assoc, UInt32.or_comm w.bits, UInt32.or_comm w.mask]

/-! ## Partial modes -/

namespace PartialText

/-- The update that a partial mode is read as does what its clauses do one after the other. -/
theorem apply_update (t : PartialText) (base : UInt32) : t.update.apply base = t.run base := by
  have hclauses : (t.clauses.map ClauseText.clause).Pairwise
      fun c d => ∀ who ∈ c.who, who ∉ d.who := by
    refine List.pairwise_map.2 (t.disjoint.imp fun hcd who hc hd => ?_)
    exact hcd who ⟨ClauseText.mem_classes.1 hc, ClauseText.mem_classes.1 hd⟩
  have hnone : Update.none.apply base = base := by
    simp [Update.none, Update.apply]
  rw [update, apply_foldl_merge (fun _ _ _ hi => absurd hi not_hasBit_zero) hclauses, hnone,
    List.foldl_map, run]
  simp only [ClauseText.clause_apply]

/-- The clauses in another order are a partial mode that is read as the same update. -/
theorem exists_perm (t : PartialText) {clauses : List ClauseText} (h : clauses.Perm t.clauses) :
    ∃ t' : PartialText, t'.clauses = clauses ∧ t'.update = t.update := by
  have hsymm : ∀ {c d : ClauseText}, c.Disjoint d → d.Disjoint c :=
    fun hcd who hboth => hcd who hboth.symm
  have hne : clauses ≠ [] := by
    rintro rfl
    exact t.ne_nil h.nil_eq.symm
  refine ⟨⟨clauses, hne, h.symm.pairwise t.disjoint hsymm⟩, rfl, ?_⟩
  exact (h.map ClauseText.clause).foldl_eq'
    (fun c _ d _ u => merge_right_comm u c.update d.update) Update.none

/-- The bits of a class that no clause is about stay as they are. -/
theorem run_and_scope (t : PartialText) {who : Who} (h : ∀ c ∈ t.clauses, ¬ c.Covers who)
    (base : UInt32) : t.run base &&& who.scope = base &&& who.scope := by
  rw [run]
  generalize t.clauses = clauses at h
  induction clauses generalizing base with
  | nil => rfl
  | cons c others ih =>
    have hc : who ∉ c.clause.who := fun hwho =>
      h c List.mem_cons_self (ClauseText.mem_classes.1 hwho)
    rw [List.foldl_cons, ih _ fun d hd => h d (List.mem_cons_of_mem _ hd), ← c.clause_apply,
      Clause.apply_and_scope hc]

end PartialText

end CText.Mode
