import CText.Files.Tree
import CText.Proofs.Conformance.Logging

/-!
# When a verdict can be trusted

A case deserves to pass if it is executed to the expected output and error number, to be called an
error if it cannot be executed, and to fail otherwise. What cannot be executed is told by a text in
the place of its output, and is known again by how that text begins. So a verdict and the entry
written for it are right for every case but those in which such a text is also what is expected, or
is the unexpected output of a routine.
-/

namespace CText.Conformance

open Log MonadAttach

def FixtureCase.expectation (c : FixtureCase) : Routine.Outcome :=
  ⟨c.expectedOutput, c.expectedErrno⟩

def deserved (c : FixtureCase) : Log.Outcome :=
  match execute c.function c.inputs with
  | .error _ => .error
  | .ok outcome => if outcome = c.expectation then .pass else .fail

/-- A text that begins like one in the place of an output. -/
def ReadsUnsupported (s : String) : Prop := unsupportedMark.toList <+: s.toList

/-- A case that is refused with the very text that is expected of it. -/
def RefusedAsExpected (c : FixtureCase) : Prop :=
  ∃ fault, execute c.function c.inputs = .error fault ∧
    c.expectation = .ok (unsupportedMark ++ fault.message)

/-- A case that is executed, but to an unexpected output that reads like a refusal. -/
def FailsLikeRefused (c : FixtureCase) : Prop :=
  ∃ outcome, execute c.function c.inputs = .ok outcome ∧ outcome ≠ c.expectation ∧
    ReadsUnsupported outcome.output

/-- A case for which an execution and a refusal cannot be told apart. -/
def Confusable (c : FixtureCase) : Prop := RefusedAsExpected c ∨ FailsLikeRefused c

theorem readsUnsupported_mark (s : String) : ReadsUnsupported (unsupportedMark ++ s) := by
  rw [ReadsUnsupported, String.toList_append]
  exact List.prefix_append _ _

theorem unsupported_iff (v : Verdict) : v.unsupported = true ↔ ReadsUnsupported v.actual :=
  List.isPrefixOf_iff_prefix

section

variable (family : String) (c : FixtureCase) (outcome : Routine.Outcome)

theorem passed_iff : (Verdict.ofOutcome family c outcome).passed = true ↔
    outcome = c.expectation := by
  cases outcome
  simp [Verdict.ofOutcome, FixtureCase.expectation]

theorem diff_isSome_iff : (Verdict.ofOutcome family c outcome).diff.isSome = true ↔
    ¬(Verdict.ofOutcome family c outcome).passed = true := by
  by_cases houtput : outcome.output = c.expectedOutput
  · by_cases herrno : outcome.errno = c.expectedErrno
    · simp [Verdict.ofOutcome, differenceOf, houtput, herrno]
    · simp [Verdict.ofOutcome, differenceOf, houtput, herrno]
  · simp [Verdict.ofOutcome, differenceOf, houtput]

/-- A verdict on an outcome is logged as an error just if the outcome reads like a refusal. -/
theorem logOutcome_of_ne (h : outcome ≠ c.expectation) :
    (ReadsUnsupported outcome.output →
      logOutcome (.ofOutcome family c outcome) = .error) ∧
    (¬ReadsUnsupported outcome.output →
      logOutcome (.ofOutcome family c outcome) = .fail) := by
  have hpassed : (Verdict.ofOutcome family c outcome).passed = false := by
    rw [← Bool.not_eq_true, passed_iff]
    exact h
  have hread := unsupported_iff (Verdict.ofOutcome family c outcome)
  constructor
  · intro hmark
    simp [logOutcome, hpassed, hread.2 hmark]
  · intro hmark
    have : (Verdict.ofOutcome family c outcome).unsupported = false := by
      rw [← Bool.not_eq_true, hread]
      exact hmark
    simp [logOutcome, hpassed, this]

end

theorem logOutcome_eq_pass_iff (v : Verdict) : logOutcome v = .pass ↔ v.passed = true := by
  unfold logOutcome
  cases v.passed with
  | true => simp
  | false => cases v.unsupported <;> simp

/-- The verdict on a case that is executed is right, and its entry too unless the output reads like
a refusal. -/
theorem judged_of_executed (family : String) {c : FixtureCase} {outcome : Routine.Outcome}
    (h : execute c.function c.inputs = .ok outcome) :
    ((Verdict.ofOutcome family c outcome).passed = true ↔
        execute c.function c.inputs = .ok c.expectation) ∧
      (logOutcome (.ofOutcome family c outcome) = deserved c ↔ ¬Confusable c) := by
  have hdeserved : deserved c = if outcome = c.expectation then .pass else .fail := by
    simp [deserved, h]
  have hconfusable : Confusable c ↔ outcome ≠ c.expectation ∧ ReadsUnsupported outcome.output := by
    simp [Confusable, RefusedAsExpected, FailsLikeRefused, h]
  rw [passed_iff, h, Except.ok.injEq, hdeserved, hconfusable]
  refine ⟨Iff.rfl, ?_⟩
  by_cases hexpected : outcome = c.expectation
  · have hpass : logOutcome (.ofOutcome family c outcome) = .pass := by
      rw [logOutcome_eq_pass_iff, passed_iff]
      exact hexpected
    rw [hpass, if_pos hexpected]
    exact iff_of_true rfl fun hwrong => hwrong.1 hexpected
  · obtain ⟨hmarked, hunmarked⟩ := logOutcome_of_ne family c outcome hexpected
    by_cases hread : ReadsUnsupported outcome.output
    · simp [hexpected, hread, hmarked hread]
    · simp [hexpected, hread, hunmarked hread]

/-- The verdict on a case that cannot be executed, and its entry, are right unless the case expects
the very refusal. -/
theorem judged_of_refused (family : String) {c : FixtureCase} {fault : CaseFault}
    (h : execute c.function c.inputs = .error fault) :
    let v := Verdict.ofOutcome family c (.ok (unsupportedMark ++ fault.message))
    (v.passed = true ↔ Confusable c) ∧ (logOutcome v = deserved c ↔ ¬Confusable c) := by
  intro v
  have hdeserved : deserved c = .error := by
    simp [deserved, h]
  have hconfusable : Confusable c ↔ v.passed = true := by
    rw [passed_iff, eq_comm]
    simp [Confusable, RefusedAsExpected, FailsLikeRefused, h]
  refine ⟨hconfusable.symm, ?_⟩
  rw [hdeserved, hconfusable]
  constructor
  · intro herror hpassed
    rw [(logOutcome_eq_pass_iff v).2 hpassed] at herror
    cases herror
  · intro hpassed
    have hne := mt (passed_iff family c _).2 hpassed
    exact (logOutcome_of_ne family c _ hne).1 (readsUnsupported_mark fault.message)

/-- The verdict on a case and the outcome in its entry are both right unless it is confusable. Then
one of them is wrong. -/
theorem judged_iff {family : String} {c : FixtureCase} {v : Verdict}
    (h : Verdict.ofCase family c = .ok v) :
    ((v.passed = true ↔ execute c.function c.inputs = .ok c.expectation) ∧
      logOutcome v = deserved c) ↔ ¬Confusable c := by
  obtain ⟨outcome, rfl, hexec | ⟨fault, hexec, rfl⟩⟩ := outcome_of_ofCase h
  · obtain ⟨hpassed, hlogged⟩ := judged_of_executed family hexec
    rw [hlogged]
    exact and_iff_right hpassed
  · obtain ⟨hpassed, hlogged⟩ := judged_of_refused family hexec
    rw [hlogged, hpassed]
    simp [hexec]

/-- Whatever the clock of a logged run shows, the verdict on each case has a difference just if the
case did not pass, and the entry on its line has the outcome `pass` just if it did. Passing is what
it should be, and so is the outcome, just if the case is not confusable. -/
theorem logged_verdict_right_iff {m : Type → Type} [Monad m] [LawfulMonad m] [MonadAttach m]
    [LawfulMonadAttach m] [Clock m] {s : FixtureSet} {log after : Emitter} {campaign : String}
    {verdicts : List Verdict}
    (ran : CanReturn (runLogged (m := m) s log campaign) (after, .ok verdicts))
    {i : Nat} {c : FixtureCase} (hc : s.cases[i]? = some c) :
    ∃ v e, verdicts[i]? = some v ∧ Verdict.ofCase s.family c = .ok v ∧
      after.lines[log.lines.size + i]? = some (Entry.line e) ∧
      (v.diff.isSome = true ↔ ¬v.passed = true) ∧
      (e.outcome = some .pass ↔ v.passed = true) ∧
      (((v.passed = true ↔ execute c.function c.inputs = .ok c.expectation) ∧
        e.outcome = some (deserved c)) ↔ ¬Confusable c) := by
  obtain ⟨hrun, hwritten⟩ := of_runLogged ran
  obtain ⟨v, hv, hcase⟩ := verdict_at hrun.symm hc
  obtain ⟨entries, timestamp, durationMs, htells, rfl⟩ := hwritten verdicts rfl
  obtain ⟨timestamp, latencyNs, hentry⟩ := htells.entry_eq hc hv
  refine ⟨v, caseEntry (log.entryAt (log.drawn + 1 + i) timestamp (levelOf v) "case_result")
    c.function v latencyNs, hv, hcase, ?_, ?_, ?_, ?_⟩
  · refine log.after_line ?_
    rw [List.getElem?_append_left (List.getElem?_eq_some_iff.1 hentry).1]
    exact hentry
  · obtain ⟨outcome, rfl, -⟩ := outcome_of_ofCase hcase
    exact diff_isSome_iff s.family c outcome
  · rw [caseEntry, Option.some.injEq]
    exact logOutcome_eq_pass_iff v
  · rw [caseEntry, Option.some.injEq]
    exact judged_iff hcase

/-- A set with a case that fails and one that cannot be executed. -/
def unpassedSample : FixtureSet where
  version := "v1"
  family := "string"
  capturedAt := ""
  cases := [⟨"length", "strlen", "", .object [("s", .text "abc")], "4", 0⟩,
    ⟨"nope", "gets", "", .object [], "", 0⟩]

def unpassedVerdicts : List Verdict :=
  List.zipWith (.ofOutcome "string") unpassedSample.cases
    [.ok "3", .ok "unsupported:unknown function `gets`"]

theorem logged_verdict_right_sample :
    ∃ after c, CanReturn (runLogged (m := StateM FileTree) unpassedSample (.start "c" "r"))
        (after, .ok unpassedVerdicts) ∧
      unpassedSample.cases[1]? = some c ∧
      ∃ v e, unpassedVerdicts[1]? = some v ∧ Verdict.ofCase "string" c = .ok v ∧
        after.lines[1]? = some (Entry.line e) ∧
        (v.diff.isSome = true ↔ ¬v.passed = true) ∧
        (e.outcome = some .pass ↔ v.passed = true) ∧
        (((v.passed = true ↔ execute c.function c.inputs = .ok c.expectation) ∧
          e.outcome = some (deserved c)) ↔ ¬Confusable c) := by
  let run : StateM FileTree (Emitter × Except Violation (List Verdict)) :=
    runLogged unpassedSample (.start "c" "r")
  let start : FileTree := .empty []
  have ran : CanReturn run ((run.run start).1.1, .ok unpassedVerdicts) := ⟨start, start, rfl⟩
  exact ⟨_, _, ran, rfl, logged_verdict_right_iff ran rfl⟩

/-- A routine that does not exist passes if the refusal is expected, and a copy of a text that
begins like a refusal is called an error where it should fail. -/
theorem verdicts_confused :
    let refused : FixtureCase :=
      ⟨"refused", "gets", "", .object [], "unsupported:unknown function `gets`", 0⟩
    let failing : FixtureCase :=
      ⟨"failing", "strcpy", "", .object [("src", .text "unsupported:x")], "y", 0⟩
    (∃ v fault, Verdict.ofCase "string" refused = .ok v ∧
      execute refused.function refused.inputs = .error fault ∧ v.passed = true ∧
      logOutcome v = .pass) ∧
    ∃ v outcome, Verdict.ofCase "string" failing = .ok v ∧
      execute failing.function failing.inputs = .ok outcome ∧ v.passed = false ∧
      logOutcome v = .error := by
  intro refused failing
  constructor
  · exact ⟨_, _, rfl, rfl, rfl, rfl⟩
  · exact ⟨_, .ok "unsupported:x", rfl, rfl, rfl, by decide⟩

end CText.Conformance
