import CText.Proofs.Conformance.Sets
import Mathlib.Data.List.Nodup
import Mathlib.Data.List.Perm.Basic

/-!
# The order of verdicts

Verdicts are ordered by what they are about: the family and the name of their case. If no two cases
have both in common, the order leaves no choice, and the same cases in another order come to the
same list of verdicts in the end.
-/

namespace CText.Conformance

namespace Verdict

def key (v : Verdict) : String × String := (v.family, v.caseName)

variable {u v w : Verdict}

theorem before_iff : v.before w = true ↔
    v.family < w.family ∨ v.family = w.family ∧ v.caseName ≤ w.caseName := by
  simp [before]

theorem before_trans (huv : u.before v = true) (hvw : v.before w = true) : u.before w = true := by
  rw [before_iff] at huv hvw ⊢
  rcases huv with hfamily | ⟨hfamily, hname⟩
  · rcases hvw with hfamily' | ⟨hfamily', -⟩
    · exact .inl (String.lt_trans hfamily hfamily')
    · exact .inl (hfamily' ▸ hfamily)
  · rw [hfamily]
    exact hvw.imp_right fun ⟨hfamily', hname'⟩ => ⟨hfamily', String.le_trans hname hname'⟩

theorem before_total (v w : Verdict) : (v.before w || w.before v) = true := by
  rw [Bool.or_eq_true, before_iff, before_iff]
  rcases Std.lt_trichotomy v.family w.family with hfamily | hfamily | hfamily
  · exact .inl (.inl hfamily)
  · rcases String.le_total v.caseName w.caseName with hname | hname
    · exact .inl (.inr ⟨hfamily, hname⟩)
    · exact .inr (.inr ⟨hfamily.symm, hname⟩)
  · exact .inr (.inl hfamily)

/-- Verdicts that may come in either order are about the same. -/
theorem key_eq_of_before (hvw : v.before w = true) (hwv : w.before v = true) : v.key = w.key := by
  rw [before_iff] at hvw hwv
  rcases hvw with hfamily | ⟨hfamily, hname⟩
  · rcases hwv with hfamily' | ⟨hfamily', -⟩
    · exact absurd hfamily' (String.lt_asymm hfamily)
    · rw [hfamily'] at hfamily
      exact absurd hfamily (String.lt_irrefl _)
  · rcases hwv with hfamily' | ⟨-, hname'⟩
    · rw [hfamily] at hfamily'
      exact absurd hfamily' (String.lt_irrefl _)
    · exact Prod.ext hfamily (String.le_antisymm hname hname')

end Verdict

theorem pairwise_inOrder (verdicts : List Verdict) :
    (inOrder verdicts).Pairwise fun v w => v.before w = true := by
  have htrans : ∀ u v w : Verdict, u.before v = true → v.before w = true → u.before w = true :=
    fun _ _ _ => Verdict.before_trans
  exact List.pairwise_mergeSort htrans Verdict.before_total verdicts

/-- The same verdicts, each about something else, come to the same list. -/
theorem inOrder_eq_of_perm {verdicts others : List Verdict} (h : verdicts.Perm others)
    (distinct : (verdicts.map Verdict.key).Nodup) : inOrder verdicts = inOrder others := by
  have hperm : (inOrder verdicts).Perm (inOrder others) :=
    (List.mergeSort_perm _ _).trans (h.trans (List.mergeSort_perm _ _).symm)
  refine List.Perm.eq_of_pairwise ?_ (pairwise_inOrder verdicts) (pairwise_inOrder others) hperm
  intro v w hv hw hvw hwv
  have hv : v ∈ verdicts := (List.mergeSort_perm _ _).mem_iff.1 hv
  have hw : w ∈ verdicts := h.mem_iff.2 ((List.mergeSort_perm _ _).mem_iff.1 hw)
  exact List.inj_on_of_nodup_map distinct hv hw (Verdict.key_eq_of_before hvw hwv)

/-! ## Verdicts on cases in another order -/

def caseKey (c : String × FixtureCase) : String × String := (c.1, c.2.name)

theorem map_key {cases : List (String × FixtureCase)} {verdicts : List Verdict}
    (h : verdictsOn cases = .ok verdicts) : verdicts.map Verdict.key = cases.map caseKey := by
  replace h := verdictsOn_eq_ok_iff.1 h
  induction h with
  | nil => rfl
  | cons hv _ ih =>
    obtain ⟨outcome, rfl, -⟩ := outcome_of_ofCase hv
    rw [List.map_cons, List.map_cons, ih]
    rfl

/-- The same cases in another order have the same verdicts in another order. -/
theorem verdictsOn_perm {cases others : List (String × FixtureCase)} {verdicts : List Verdict}
    (hperm : others.Perm cases) (h : verdictsOn cases = .ok verdicts) :
    ∃ verdicts', verdictsOn others = .ok verdicts' ∧ verdicts'.Perm verdicts := by
  obtain ⟨verdicts', hothers, hverdicts⟩ := List.perm_comp_forall₂ hperm (verdictsOn_eq_ok_iff.1 h)
  exact ⟨verdicts', verdictsOn_eq_ok_iff.2 hothers, hverdicts⟩

/-- If cases have a family and a name of their own each, the verdicts on them in the order of a
report do not depend on the order of the cases. -/
theorem inOrder_verdictsOn {cases others : List (String × FixtureCase)}
    {verdicts : List Verdict} (hperm : others.Perm cases) (distinct : (cases.map caseKey).Nodup)
    (h : verdictsOn cases = .ok verdicts) :
    ∃ verdicts', verdictsOn others = .ok verdicts' ∧ inOrder verdicts' = inOrder verdicts := by
  obtain ⟨verdicts', hothers, hverdicts⟩ := verdictsOn_perm hperm h
  rw [← map_key h] at distinct
  exact ⟨verdicts', hothers, (inOrder_eq_of_perm hverdicts.symm distinct).symm⟩

end CText.Conformance
