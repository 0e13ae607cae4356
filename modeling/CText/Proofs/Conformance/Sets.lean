import CText.Proofs.Conformance.Tallies
import CText.Proofs.Conformance.WholeLog
import CText.Proofs.Files.Machine
import Mathlib.Data.List.Forall2

/-!
# Several sets in a row

The verdicts on several sets are those on their cases, each taken with the family of its set. The
entries that are written for sets in a row are proper, and their numbers follow on one another.
-/

namespace CText

namespace Log

/-- Proper entries with the numbers from `n` on. -/
structure Numbered (log : Emitter) (n : Nat) (entries : List Entry) : Prop where
  proper : ∀ e ∈ entries, e.Proper
  traceId : ∀ (i : Nat) (e : Entry), entries[i]? = some e → e.traceId = log.traceId (n + i)

namespace Numbered

variable {log : Emitter} {n : Nat}

theorem nil : Numbered log n [] :=
  ⟨fun _ h => (List.not_mem_nil h).elim, fun _ _ h => by simp at h⟩

theorem singleton {e : Entry} (proper : e.Proper) (h : e.traceId = log.traceId n) :
    Numbered log n [e] := by
  constructor
  · intro found hfound
    rw [List.mem_singleton.1 hfound]
    exact proper
  · intro i found hfound
    obtain ⟨hi, rfl⟩ := List.getElem?_eq_some_iff.1 hfound
    have hi : i = 0 := by
      rw [List.length_singleton] at hi
      omega
    subst hi
    exact h

theorem append {first second : List Entry} (hfirst : Numbered log n first)
    (hsecond : Numbered log (n + first.length) second) : Numbered log n (first ++ second) := by
  constructor
  · intro e he
    rcases List.mem_append.1 he with he | he
    · exact hfirst.proper e he
    · exact hsecond.proper e he
  · intro i e he
    rcases Nat.lt_or_ge i first.length with hi | hi
    · rw [List.getElem?_append_left hi] at he
      exact hfirst.traceId i e he
    · rw [List.getElem?_append_right hi] at he
      have hn : n + first.length + (i - first.length) = n + i := by omega
      rw [hsecond.traceId _ e he, hn]

theorem of_after {before entries : List Entry} (h : Numbered (log.after before) n entries) :
    Numbered log n entries :=
  ⟨h.proper, h.traceId⟩

end Numbered

end Log

namespace Conformance

open Log Machine

def casesOf (sets : List FixtureSet) : List (String × FixtureCase) :=
  sets.flatMap fun set => set.cases.map (set.family, ·)

/-- The verdicts on cases, each of which comes with its family. -/
def verdictsOn (cases : List (String × FixtureCase)) : Except Violation (List Verdict) :=
  cases.mapM fun c => Verdict.ofCase c.1 c.2

theorem verdictsOn_family (s : FixtureSet) : verdictsOn (s.cases.map (s.family, ·)) = run s := by
  rw [verdictsOn, List.mapM_map]
  rfl

theorem verdictsOn_casesOf_cons (s : FixtureSet) (sets : List FixtureSet) :
    verdictsOn (casesOf (s :: sets)) = do
      let verdicts ← run s
      let others ← verdictsOn (casesOf sets)
      return verdicts ++ others := by
  rw [casesOf, List.flatMap_cons, ← verdictsOn_family, verdictsOn, List.mapM_append]
  rfl

section

variable {s : FixtureSet}

theorem verdictsOn_casesOf_cons_of_ok {verdicts : List Verdict} (h : run s = .ok verdicts)
    (sets : List FixtureSet) :
    verdictsOn (casesOf (s :: sets)) = (verdictsOn (casesOf sets)).map (verdicts ++ ·) := by
  rw [verdictsOn_casesOf_cons, h]
  cases verdictsOn (casesOf sets) <;> rfl

theorem verdictsOn_casesOf_cons_of_error {v : Violation} (h : run s = .error v)
    (sets : List FixtureSet) : verdictsOn (casesOf (s :: sets)) = .error v := by
  rw [verdictsOn_casesOf_cons, h]
  rfl

end

theorem length_casesOf (sets : List FixtureSet) :
    (casesOf sets).length = (sets.flatMap (·.cases)).length := by
  simp [casesOf, List.length_flatMap]

theorem forall_mem_casesOf {sets : List FixtureSet} {P : String → FixtureCase → Prop} :
    (∀ c ∈ casesOf sets, P c.1 c.2) ↔ ∀ set ∈ sets, ∀ c ∈ set.cases, P set.family c := by
  simp only [casesOf, List.mem_flatMap, List.mem_map]
  constructor
  · intro h set hset c hc
    exact h (set.family, c) ⟨set, hset, c, hc, rfl⟩
  · rintro h _ ⟨set, hset, c, hc, rfl⟩
    exact h set hset c hc

/-- There are verdicts on cases if there is one on each of them. -/
theorem verdictsOn_eq_ok_iff {cases : List (String × FixtureCase)} {verdicts : List Verdict} :
    verdictsOn cases = .ok verdicts ↔
      List.Forall₂ (fun c v => Verdict.ofCase c.1 c.2 = .ok v) cases verdicts := by
  induction cases generalizing verdicts with
  | nil => cases verdicts <;> simp [verdictsOn, pure, Except.pure]
  | cons c cases ih =>
    have hcons : verdictsOn (c :: cases) = (do
        let v ← Verdict.ofCase c.1 c.2
        let others ← verdictsOn cases
        return v :: others) :=
      List.mapM_cons
    rw [hcons]
    cases hc : Verdict.ofCase c.1 c.2 with
    | error b => cases verdicts <;> simp [bind, Except.bind, hc]
    | ok v =>
      cases hothers : verdictsOn cases with
      | error b =>
        cases verdicts <;> simp [bind, Except.bind, hc, ← ih, hothers]
      | ok others =>
        cases verdicts <;> simp [bind, Except.bind, pure, Except.pure, hc, ← ih, hothers]

/-- If no case breaks a promise, there are verdicts on all of them. -/
theorem exists_verdictsOn {cases : List (String × FixtureCase)}
    (h : ∀ c ∈ cases, ∃ v, Verdict.ofCase c.1 c.2 = .ok v) :
    ∃ verdicts, verdictsOn cases = .ok verdicts :=
  exists_mapM h

/-- If there are verdicts on cases, none of them breaks a promise. -/
theorem exists_of_verdictsOn {cases : List (String × FixtureCase)} {verdicts : List Verdict}
    (h : verdictsOn cases = .ok verdicts) : ∀ c ∈ cases, ∃ v, Verdict.ofCase c.1 c.2 = .ok v := by
  replace h := verdictsOn_eq_ok_iff.1 h
  induction h with
  | nil => exact List.forall_mem_nil _
  | cons hv _ ih => exact List.forall_mem_cons.2 ⟨⟨_, hv⟩, ih⟩

def Passes (family : String) (c : FixtureCase) : Prop :=
  ∃ v, Verdict.ofCase family c = .ok v ∧ v.passed = true

/-- All verdicts say that their cases passed just if all cases pass. -/
theorem forall_passed_iff {cases : List (String × FixtureCase)} {verdicts : List Verdict}
    (h : verdictsOn cases = .ok verdicts) :
    (∀ v ∈ verdicts, v.passed = true) ↔ ∀ c ∈ cases, Passes c.1 c.2 := by
  replace h := verdictsOn_eq_ok_iff.1 h
  induction h with
  | nil => simp
  | @cons c v cases verdicts hv _ ih =>
    have hpasses : Passes c.1 c.2 ↔ v.passed = true := by
      constructor
      · rintro ⟨v', hv', hpassed⟩
        rw [hv] at hv'
        cases hv'
        exact hpassed
      · intro hpassed
        exact ⟨v, hv, hpassed⟩
    rw [List.forall_mem_cons, List.forall_mem_cons]
    exact and_congr hpasses.symm ih

/-- A summary says that all cases passed just if every verdict does, whatever the order. -/
theorem allPassed_iff {verdicts inOrder : List Verdict} (h : inOrder.Perm verdicts) :
    Summary.allPassed ⟨inOrder⟩ = true ↔ ∀ v ∈ verdicts, v.passed = true := by
  have hnone : Summary.failures ⟨inOrder⟩ = [] ↔ ∀ v ∈ inOrder, v.passed = true := by
    simp [Summary.failures, List.filter_eq_nil_iff]
  rw [Summary.allPassed_iff_failures, hnone]
  exact forall_congr' fun v => by rw [h.mem_iff]

/-! ## Logged runs -/

/-- Entries that tell verdicts are proper and numbered. -/
theorem Tells.numbered {log : Emitter} {n : Nat} {cases : List FixtureCase}
    {verdicts : List Verdict} {entries : List Entry} (h : Tells log n cases verdicts entries)
    (hcampaign : ':' ∉ log.campaign.toList) (hrun : ':' ∉ log.runId.toList)
    (herrno : ∀ v ∈ verdicts, Routine.InErrno v.actualErrno) : Numbered log n entries :=
  ⟨h.proper hcampaign hrun herrno, fun _ _ he => h.traceId he⟩

variable {t : FileTree}

/-- A logged run looks at the clock only. -/
theorem runs_runCasesLogged {family : String} (log : Emitter) (cases : List FixtureCase) :
    Runs (runCasesLogged family log cases) t fun _ t' => t' = t := by
  induction cases generalizing log with
  | nil => exact runs_pure rfl
  | cons c cases ih =>
    refine Runs.bind (runs_now fun started => ?_)
    cases Verdict.ofCase family c with
    | error v => exact runs_pure rfl
    | ok v =>
      refine Runs.bind (runs_now fun ended => ?_)
      refine Runs.bind ((ih _).mono ?_)
      rintro ended t' rfl
      exact runs_pure rfl

/-- What a logged run on a machine comes to: the result of a plain run and, unless a promise was
broken, an entry for each case and one for the set. -/
def RunsLogged (s : FixtureSet) (log after : Emitter) (result : Except Violation (List Verdict)) :
    Prop :=
  result = run s ∧ ∀ verdicts, result = .ok verdicts →
    ∃ entries, after = log.after entries ∧ entries.length = s.cases.length + 1 ∧
      Numbered log (log.drawn + 1) entries

theorem runs_runLogged {s : FixtureSet} {log : Emitter} (hcampaign : ':' ∉ log.campaign.toList)
    (hrun : ':' ∉ log.runId.toList) (hsize : s.cases.length ≤ maxReservation) :
    Runs (runLogged s log) t fun ended t' => t' = t ∧ RunsLogged s log ended.1 ended.2 := by
  intro machine hmachine
  constructor
  · have htree : Runs (runLogged s log) t fun _ t' => t' = t := by
      refine Runs.bind (runs_now fun started => ?_)
      refine Runs.bind ((runs_runCasesLogged log s.cases).mono ?_)
      rintro ⟨log', _ | verdicts⟩ t' rfl
      · exact runs_pure rfl
      · exact Runs.bind (runs_now fun ended => runs_pure rfl)
    exact htree machine hmachine
  · have ran : MonadAttach.CanReturn (runLogged (m := StateM Machine) s log)
        ((runLogged (m := StateM Machine) s log).run machine).1 :=
      ⟨machine, _, rfl⟩
    obtain ⟨hresult, hwritten⟩ := of_runLogged ran
    refine ⟨hresult, fun verdicts hverdicts => ?_⟩
    obtain ⟨entries, timestamp, durationMs, htells, hafter⟩ := hwritten verdicts hverdicts
    obtain ⟨hentries, hlength⟩ := htells.length_eq
    have herrno := inErrno_of_mem (hresult.symm.trans hverdicts) hlength
    refine ⟨_, hafter, by simp [hentries], ?_⟩
    refine (htells.numbered hcampaign hrun herrno).append (.singleton ?_ ?_)
    · have hword : verdicts.length < 2 ^ 64 :=
        hlength ▸ Nat.lt_of_le_of_lt hsize (by decide)
      exact setEntry_proper hcampaign hrun _ _ _ _ _ _ hword _
    · rw [hentries, Nat.add_right_comm]
      rfl

end Conformance

end CText
