import CText.Conformance.Summary
import Mathlib.Algebra.GroupWithZero.Nat
import Mathlib.Data.List.Nodup
import Mathlib.Data.List.Induction
import Mathlib.Data.List.Sort
import Mathlib.Data.String.Basic

/-!
# Tallies

The tallies of a summary are made by counting one verdict after the other into a sorted list. After
any number of verdicts there is one tally for each family among them, with the numbers of its cases
that passed and failed. So the tallies do not depend on the order of the verdicts, and they add up
to the totals.
-/

namespace CText.Conformance

def tallyOf (verdicts : List Verdict) (family : String) : Tally where
  family := family
  passed := verdicts.countP fun v => v.family == family && v.passed
  failed := verdicts.countP fun v => v.family == family && !v.passed

/-! ## Tallies for one family -/

section

variable {verdicts others : List Verdict} {v : Verdict} {family : String}

theorem tallyOf_of_absent (h : ∀ w ∈ verdicts, w.family ≠ family) :
    tallyOf verdicts family = ⟨family, 0, 0⟩ := by
  have hzero (p : Verdict → Bool) : (verdicts.countP fun v => v.family == family && p v) = 0 := by
    rw [List.countP_eq_zero]
    intro w hw
    simp [h w hw]
  rw [tallyOf, hzero, hzero]

theorem tallyOf_concat_same : tallyOf (verdicts ++ [v]) v.family =
    ⟨v.family, (tallyOf verdicts v.family).passed + v.passed.toNat,
      (tallyOf verdicts v.family).failed + (!v.passed).toNat⟩ := by
  cases hv : v.passed <;> simp [tallyOf, hv]

theorem tallyOf_concat_other (h : v.family ≠ family) :
    tallyOf (verdicts ++ [v]) family = tallyOf verdicts family := by
  simp [tallyOf, h]

theorem tallyOf_perm (h : others.Perm verdicts) :
    tallyOf others family = tallyOf verdicts family := by
  rw [tallyOf, tallyOf, h.countP_eq, h.countP_eq]

theorem map_tallyOf_concat {families : List String} (h : v.family ∉ families) :
    families.map (tallyOf (verdicts ++ [v])) = families.map (tallyOf verdicts) := by
  refine List.map_congr_left fun family hfamily => tallyOf_concat_other ?_
  rintro rfl
  exact h hfamily

theorem tallyOf_concat_new (h : ∀ w ∈ verdicts, w.family ≠ v.family) :
    tallyOf (verdicts ++ [v]) v.family = ⟨v.family, v.passed.toNat, (!v.passed).toNat⟩ := by
  rw [tallyOf_concat_same, tallyOf_of_absent h, Nat.zero_add, Nat.zero_add]

/-! ## Counting -/

/-- The tallies of some verdicts: one for each family among them, in the order of their names. -/
structure Counted (verdicts : List Verdict) (families : List String) (tallies : List Tally) :
    Prop where
  sorted : families.Pairwise (· < ·)
  mem_iff : ∀ family, family ∈ families ↔ ∃ v ∈ verdicts, v.family = family
  tallies_eq : tallies = families.map (tallyOf verdicts)

/-- A verdict is counted in the tally of its family, for which there is a place among the others. -/
theorem exists_count {families : List String} (sorted : families.Pairwise (· < ·))
    (known : v.family ∈ families ∨ ∀ w ∈ verdicts, w.family ≠ v.family) :
    ∃ grown : List String, grown.Pairwise (· < ·) ∧
      (∀ family, family ∈ grown ↔ family = v.family ∨ family ∈ families) ∧
      count v (families.map (tallyOf verdicts)) = grown.map (tallyOf (verdicts ++ [v])) := by
  induction families with
  | nil =>
    have hnew := known.resolve_left List.not_mem_nil
    refine ⟨[v.family], List.pairwise_singleton _ _, by simp, ?_⟩
    rw [List.map_singleton, tallyOf_concat_new hnew]
    rfl
  | cons first families ih =>
    have hlast := sorted
    rw [List.pairwise_cons] at sorted
    rw [List.map_cons, count]
    split_ifs with hless hequal
    · -- The family comes before all others, so it is among none of them.
      have hbefore : ∀ other ∈ first :: families, v.family < other :=
        List.forall_mem_cons.2 ⟨hless, fun other h => String.lt_trans hless (sorted.1 other h)⟩
      have habsent : v.family ∉ first :: families := fun h => String.lt_irrefl _ (hbefore _ h)
      refine ⟨v.family :: first :: families, List.pairwise_cons.2 ⟨hbefore, hlast⟩, by simp, ?_⟩
      rw [List.map_cons, tallyOf_concat_new (known.resolve_left habsent),
        map_tallyOf_concat habsent, List.map_cons]
    · have hfamily : v.family = first := hequal
      subst hfamily
      have habsent : v.family ∉ families := fun h => String.lt_irrefl _ (sorted.1 _ h)
      refine ⟨v.family :: families, hlast, by simp, ?_⟩
      rw [List.map_cons, tallyOf_concat_same, map_tallyOf_concat habsent]
      rfl
    · have hne : v.family ≠ first := hequal
      have hfirst : first < v.family := lt_of_le_of_ne (not_lt.1 hless) hne.symm
      obtain ⟨grown, hsorted, hmem, hcount⟩ :=
        ih sorted.2 (known.imp_left fun h => (List.mem_cons.1 h).resolve_left hne)
      refine ⟨first :: grown, List.pairwise_cons.2 ⟨?_, hsorted⟩, ?_, ?_⟩
      · intro other hother
        rcases (hmem other).1 hother with rfl | h
        · exact hfirst
        · exact sorted.1 other h
      · intro family
        rw [List.mem_cons, hmem, List.mem_cons, or_left_comm]
      · rw [hcount, List.map_cons, tallyOf_concat_other hne]

theorem byFamily_concat (verdicts : List Verdict) (v : Verdict) :
    Summary.byFamily ⟨verdicts ++ [v]⟩ = count v (Summary.byFamily ⟨verdicts⟩) :=
  List.foldl_append

/-- However many verdicts are counted, the tallies are theirs. -/
theorem exists_counted (verdicts : List Verdict) :
    ∃ families, Counted verdicts families (Summary.byFamily ⟨verdicts⟩) := by
  induction verdicts using List.reverseRecOn with
  | nil => exact ⟨[], .nil, by simp, rfl⟩
  | append_singleton verdicts v ih =>
    obtain ⟨families, sorted, mem_iff, tallies_eq⟩ := ih
    have known : v.family ∈ families ∨ ∀ w ∈ verdicts, w.family ≠ v.family := by
      rw [mem_iff]
      by_cases h : ∃ w ∈ verdicts, w.family = v.family
      · exact .inl h
      · exact .inr fun w hw hfamily => h ⟨w, hw, hfamily⟩
    obtain ⟨grown, hsorted, hmem, hcount⟩ := exists_count sorted known
    refine ⟨grown, hsorted, fun family => ?_, ?_⟩
    · rw [hmem, mem_iff]
      simp [or_comm, eq_comm]
    · rw [byFamily_concat, tallies_eq, hcount]

end

namespace Counted

variable {verdicts others : List Verdict} {families families' : List String}
  {tallies tallies' : List Tally}

theorem map_family (h : Counted verdicts families tallies) :
    tallies.map (·.family) = families := by
  rw [h.tallies_eq, List.map_map]
  exact List.map_id _

/-- The same verdicts in another order have the same tallies. -/
theorem eq_of_perm (h : Counted verdicts families tallies)
    (h' : Counted others families' tallies') (hperm : others.Perm verdicts) :
    tallies' = tallies := by
  have hfamilies : families' = families := by
    refine h'.sorted.eq_of_mem_iff h.sorted fun family => ?_
    rw [h.mem_iff, h'.mem_iff]
    exact exists_congr fun v => and_congr_left fun _ => hperm.mem_iff
  rw [h.tallies_eq, h'.tallies_eq, hfamilies]
  exact List.map_congr_left fun family _ => tallyOf_perm hperm

end Counted

/-! ## Totals -/

/-- A sum over tallies grows by what a verdict adds to the tally of its family. -/
theorem sum_count {value : Tally → Nat} {added : Nat} {v : Verdict}
    (new : value ⟨v.family, v.passed.toNat, (!v.passed).toNat⟩ = added)
    (more : ∀ t : Tally, value { t with
      passed := t.passed + v.passed.toNat, failed := t.failed + (!v.passed).toNat } =
        value t + added) (tallies : List Tally) :
    ((count v tallies).map value).sum = (tallies.map value).sum + added := by
  fun_induction count v tallies with
  | case1 => simp [new]
  | case2 t rest hless => simp [new, Nat.add_comm]
  | case3 t rest hless hequal => simp [more, Nat.add_right_comm]
  | case4 t rest hless hequal ih => simp [ih, Nat.add_assoc]

theorem sum_byFamily (value : Tally → Nat) (p : Verdict → Bool)
    (new : ∀ v : Verdict, value ⟨v.family, v.passed.toNat, (!v.passed).toNat⟩ = (p v).toNat)
    (more : ∀ (v : Verdict) (t : Tally), value { t with
      passed := t.passed + v.passed.toNat, failed := t.failed + (!v.passed).toNat } =
        value t + (p v).toNat) (verdicts : List Verdict) :
    ((Summary.byFamily ⟨verdicts⟩).map value).sum = verdicts.countP p := by
  induction verdicts using List.reverseRecOn with
  | nil => rfl
  | append_singleton verdicts v ih =>
    rw [byFamily_concat, sum_count (new v) (more v), ih, List.countP_append]
    cases hp : p v <;> simp [hp]

namespace Summary

theorem failed_eq_countP (s : Summary) : s.failed = s.verdicts.countP (!·.passed) := by
  have hparts := List.length_eq_countP_add_countP (fun v : Verdict => v.passed) (l := s.verdicts)
  simp only [Bool.not_eq_true, Bool.decide_eq_false] at hparts
  rw [failed, total, passed, hparts, Nat.add_sub_cancel_left]

theorem passed_add_failed (s : Summary) : s.passed + s.failed = s.total :=
  Nat.add_sub_cancel' List.countP_le_length

theorem allPassed_iff_failures (s : Summary) : s.allPassed = true ↔ s.failures = [] := by
  rw [allPassed, beq_iff_eq, failed_eq_countP, List.countP_eq_zero, failures,
    List.filter_eq_nil_iff]

end Summary

/-- The tallies of a summary have strictly increasing families, which are those of its verdicts, and
each has the numbers of the verdicts on its family that passed and failed. They add up to the
totals, and these to the number of verdicts. All cases passed just if there are no failures. The
same verdicts in another order have the same tallies and totals. -/
theorem tallies_partition (verdicts : List Verdict) :
    let s : Summary := ⟨verdicts⟩
    (s.byFamily.map (·.family)).Pairwise (· < ·) ∧
    (∀ family, family ∈ s.byFamily.map (·.family) ↔ ∃ v ∈ verdicts, v.family = family) ∧
    (∀ t ∈ s.byFamily, t = tallyOf verdicts t.family) ∧
    (s.byFamily.map (·.passed)).sum = s.passed ∧ (s.byFamily.map (·.failed)).sum = s.failed ∧
    s.passed + s.failed = s.total ∧
    (s.allPassed = true ↔ s.failures = []) ∧
    ∀ others : List Verdict, others.Perm verdicts →
      let o : Summary := ⟨others⟩
      o.byFamily = s.byFamily ∧ o.total = s.total ∧ o.passed = s.passed ∧ o.failed = s.failed := by
  intro s
  obtain ⟨families, counted⟩ := exists_counted verdicts
  refine ⟨?_, ?_, ?_, ?_, ?_, s.passed_add_failed, s.allPassed_iff_failures, ?_⟩
  · rw [counted.map_family]
    exact counted.sorted
  · rw [counted.map_family]
    exact counted.mem_iff
  · intro t ht
    rw [counted.tallies_eq] at ht
    obtain ⟨family, -, rfl⟩ := List.mem_map.1 ht
    rfl
  · exact sum_byFamily (·.passed) (·.passed) (fun _ => rfl) (fun _ _ => rfl) verdicts
  · rw [s.failed_eq_countP]
    exact sum_byFamily (·.failed) (!·.passed) (fun _ => rfl) (fun _ _ => rfl) verdicts
  · intro others hperm o
    obtain ⟨families', counted'⟩ := exists_counted others
    have hpassed : o.passed = s.passed := hperm.countP_eq _
    have hfailed : o.failed = s.failed := by
      rw [o.failed_eq_countP, s.failed_eq_countP]
      exact hperm.countP_eq _
    exact ⟨counted.eq_of_perm counted' hperm, hperm.length_eq, hpassed, hfailed⟩

/-- The verdict on a case that expects the output `1`. -/
def verdictOn (family output : String) : Verdict :=
  .ofOutcome family ⟨"length", "strlen", "", .object [], "1", 0⟩ (.ok output)

/-- Verdicts on cases of two families in turn, and the same from the last to the first. -/
theorem tallies_partition_interleaved :
    let verdicts := [verdictOn "size" "1", verdictOn "mode" "2", verdictOn "size" "2",
      verdictOn "mode" "1"]
    verdicts.reverse.Perm verdicts ∧
      Summary.byFamily ⟨verdicts.reverse⟩ = Summary.byFamily ⟨verdicts⟩ ∧
      Summary.byFamily ⟨verdicts⟩ = [⟨"mode", 1, 1⟩, ⟨"size", 1, 1⟩] := by
  intro verdicts
  have hperm : verdicts.reverse.Perm verdicts := List.reverse_perm verdicts
  obtain ⟨-, -, -, -, -, -, -, hsame⟩ := tallies_partition verdicts
  exact ⟨hperm, (hsame verdicts.reverse hperm).1, by decide⟩

end CText.Conformance
