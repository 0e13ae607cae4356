import CText.Conformance.LoggedRun

/-!
# What a logged run writes

An emitter that began and wrote some entries one after the other is told by those entries alone.
A logged run has the result of a plain run, whatever its clock shows. If no promise was broken, it
wrote one entry for each case, in the order of the cases, and one for the set. The entries carry
the numbers that follow on those drawn before, each once.
-/

namespace CText

namespace Log.Emitter

/-- An entry begun by an emitter under a number. -/
def entryAt (log : Emitter) (n : Nat) (timestamp : String) (level : Level) (event : String) :
    Entry where
  timestamp := timestamp
  traceId := log.traceId n
  level := level
  event := event
  campaign := some log.campaign

/-- The emitter after it has begun some entries and has written each. -/
def after (log : Emitter) (entries : List Entry) : Emitter :=
  { log with
    drawn := log.drawn + entries.length
    lines := log.lines ++ (entries.map Entry.line).toArray }

@[simp] theorem after_nil (log : Emitter) : log.after [] = log := by
  simp [after]

@[simp] theorem after_after (log : Emitter) (first second : List Entry) :
    (log.after first).after second = log.after (first ++ second) := by
  simp [after, Nat.add_assoc]

@[simp] theorem after_drawn (log : Emitter) (entries : List Entry) :
    (log.after entries).drawn = log.drawn + entries.length := rfl

@[simp] theorem after_campaign (log : Emitter) (entries : List Entry) :
    (log.after entries).campaign = log.campaign := rfl

@[simp] theorem entryAt_after (log : Emitter) (entries : List Entry) (n : Nat)
    (timestamp : String) (level : Level) (event : String) :
    (log.after entries).entryAt n timestamp level event = log.entryAt n timestamp level event :=
  rfl

/-- The lines of entries stand behind those written before. -/
theorem after_line (log : Emitter) {entries : List Entry} {i : Nat} {e : Entry}
    (h : entries[i]? = some e) :
    (log.after entries).lines[log.lines.size + i]? = some e.line := by
  rw [after, Array.getElem?_append_right (Nat.le_add_right _ _)]
  simp [h]

theorem toList_traceId (log : Emitter) (n : Nat) :
    (log.traceId n).toList =
      log.campaign.toList ++ ':' :: ':' :: (log.runId.toList ++ ':' :: ':' :: Text.padded 3 n) := by
  simp [traceId]

theorem traceId_ne_empty (log : Emitter) (n : Nat) : log.traceId n ≠ "" := by
  intro h
  have := congrArg String.toList h
  simp [toList_traceId] at this

/-- Writing an entry that was just begun draws no number of its own. -/
theorem emitEntry_entry (log : Emitter) (timestamp : String) (level : Level) (event : String)
    (complete : Entry → Entry) (htrace : ∀ e, (complete e).traceId = e.traceId)
    (hcampaign : ∀ e, (complete e).campaign = e.campaign) :
    (log.entry timestamp level event).2.emitEntry (complete (log.entry timestamp level event).1) =
      log.after [complete (log.entryAt (log.drawn + 1) timestamp level event)] := by
  have hid : (complete (log.entry timestamp level event).1).traceId ≠ "" := by
    rw [htrace]
    exact log.traceId_ne_empty _
  have hkept : (complete (log.entry timestamp level event).1).campaign = some log.campaign := by
    rw [hcampaign]
    rfl
  simp only [emitEntry, if_neg hid, write, hkept, Option.getD_some]
  rw [← hkept]
  simp only [after, List.map_cons, List.map_nil, List.length_cons, List.length_nil]
  simp [entry, draw, entryAt]

end Log.Emitter

namespace Conformance

open Log MonadAttach

theorem logVerdict_eq (log : Emitter) (timestamp function : String) (v : Verdict)
    (latencyNs : Nat) :
    logVerdict log timestamp function v latencyNs =
      log.after [caseEntry (log.entryAt (log.drawn + 1) timestamp (levelOf v) "case_result")
        function v latencyNs] :=
  log.emitEntry_entry timestamp (levelOf v) "case_result" (caseEntry · function v latencyNs)
    (fun _ => rfl) (fun _ => rfl)

theorem logSet_eq (log : Emitter) (timestamp campaign family : String) (verdicts : List Verdict)
    (durationMs : Nat) :
    logSet log timestamp campaign family verdicts durationMs =
      log.after [setEntry (log.entryAt (log.drawn + 1) timestamp .info "set_complete")
        campaign family verdicts durationMs] :=
  log.emitEntry_entry timestamp .info "set_complete"
    (setEntry · campaign family verdicts durationMs) (fun _ => rfl) (fun _ => rfl)

/-- A verdict is about what was executed, or about the text in its place. -/
theorem outcome_of_ofCase {family : String} {c : FixtureCase} {v : Verdict}
    (h : Verdict.ofCase family c = .ok v) :
    ∃ outcome, v = .ofOutcome family c outcome ∧
      (execute c.function c.inputs = .ok outcome ∨
        ∃ fault, execute c.function c.inputs = .error fault ∧
          outcome = .ok (unsupportedMark ++ fault.message)) := by
  unfold Verdict.ofCase outcomeOf at h
  split at h
  next outcome hexec =>
    cases h
    exact ⟨outcome, rfl, .inl hexec⟩
  next => cases h
  next fault _ hexec =>
    cases h
    exact ⟨_, rfl, .inr ⟨fault, hexec, rfl⟩⟩

/-- The verdict on a case stands where the case does. -/
theorem verdict_at {family : String} {cases : List FixtureCase} {verdicts : List Verdict}
    (h : cases.mapM (Verdict.ofCase family) = .ok verdicts) {i : Nat} {c : FixtureCase}
    (hc : cases[i]? = some c) :
    ∃ v, verdicts[i]? = some v ∧ Verdict.ofCase family c = .ok v := by
  induction cases generalizing verdicts i with
  | nil => simp at hc
  | cons first cases ih =>
    rw [List.mapM_cons] at h
    cases hfirst : Verdict.ofCase family first with
    | error broken =>
      rw [hfirst] at h
      cases h
    | ok v =>
      cases hothers : cases.mapM (Verdict.ofCase family) with
      | error broken =>
        rw [hfirst, hothers] at h
        cases h
      | ok others =>
        rw [hfirst, hothers] at h
        cases h
        cases i with
        | zero =>
          cases hc
          exact ⟨v, rfl, hfirst⟩
        | succ i =>
          rw [List.getElem?_cons_succ] at hc ⊢
          exact ih hothers hc

/-- Entries that tell the verdicts on cases, under the numbers from `n` on. -/
inductive Tells (log : Emitter) : (n : Nat) → List FixtureCase → List Verdict → List Entry → Prop
  | nil (n : Nat) : Tells log n [] [] []
  | cons {n : Nat} {cases : List FixtureCase} {verdicts : List Verdict} {entries : List Entry}
      (c : FixtureCase) (v : Verdict) (timestamp : String) (latencyNs : Nat)
      (rest : Tells log (n + 1) cases verdicts entries) :
      Tells log n (c :: cases) (v :: verdicts)
        (caseEntry (log.entryAt n timestamp (levelOf v) "case_result") c.function v latencyNs ::
          entries)

theorem Tells.of_after {log : Emitter} {before : List Entry} {n : Nat} {cases : List FixtureCase}
    {verdicts : List Verdict} {entries : List Entry}
    (h : Tells (log.after before) n cases verdicts entries) :
    Tells log n cases verdicts entries := by
  induction h with
  | nil n => exact .nil n
  | cons c v timestamp latencyNs _ ih => exact .cons c v timestamp latencyNs ih

theorem Tells.length_eq {log : Emitter} {n : Nat} {cases : List FixtureCase}
    {verdicts : List Verdict} {entries : List Entry} (h : Tells log n cases verdicts entries) :
    entries.length = cases.length ∧ verdicts.length = cases.length := by
  induction h with
  | nil n => exact ⟨rfl, rfl⟩
  | cons c v timestamp latencyNs _ ih => simp [ih]

/-- The entry for a case stands where the case does. -/
theorem Tells.entry_eq {log : Emitter} {n : Nat} {cases : List FixtureCase}
    {verdicts : List Verdict} {entries : List Entry} (h : Tells log n cases verdicts entries)
    {i : Nat} {c : FixtureCase} {v : Verdict} (hc : cases[i]? = some c)
    (hv : verdicts[i]? = some v) :
    ∃ timestamp latencyNs, entries[i]? =
      some (caseEntry (log.entryAt (n + i) timestamp (levelOf v) "case_result") c.function v
        latencyNs) := by
  induction h generalizing i with
  | nil n => simp at hc
  | @cons n _ _ _ c' v' timestamp latencyNs _ ih =>
    cases i with
    | zero =>
      simp only [List.getElem?_cons_zero, Option.some.injEq] at hc hv
      subst hc hv
      exact ⟨timestamp, latencyNs, rfl⟩
    | succ i =>
      simp only [List.getElem?_cons_succ] at hc hv ⊢
      obtain ⟨timestamp, latencyNs, h⟩ := ih hc hv
      exact ⟨timestamp, latencyNs, by rw [h, Nat.add_right_comm, Nat.add_assoc]⟩

section

variable {m : Type → Type} [Monad m] [LawfulMonad m] [MonadAttach m] [LawfulMonadAttach m]
  [Clock m]

/-- What a run over some cases returns and writes. -/
theorem of_runCasesLogged {family : String} {log after : Emitter} {cases : List FixtureCase}
    {result : Except Violation (List Verdict)}
    (h : CanReturn (runCasesLogged (m := m) family log cases) (after, result)) :
    result = cases.mapM (Verdict.ofCase family) ∧
      ∀ verdicts, result = .ok verdicts →
        ∃ entries, after = log.after entries ∧
          Tells log (log.drawn + 1) cases verdicts entries := by
  induction cases generalizing log after result with
  | nil =>
    cases LawfulMonadAttach.eq_of_canReturn_pure h
    refine ⟨rfl, fun verdicts hverdicts => ⟨[], by simp, ?_⟩⟩
    cases hverdicts
    exact .nil _
  | cons c cases ih =>
    simp only [runCasesLogged] at h
    obtain ⟨started, -, h⟩ := LawfulMonadAttach.canReturn_bind_imp' h
    rw [List.mapM_cons]
    cases hcase : Verdict.ofCase family c with
    | error v =>
      rw [hcase] at h
      cases LawfulMonadAttach.eq_of_canReturn_pure h
      exact ⟨rfl, fun verdicts hverdicts => nomatch hverdicts⟩
    | ok v =>
      simp only [hcase] at h
      obtain ⟨ended, -, h⟩ := LawfulMonadAttach.canReturn_bind_imp' h
      obtain ⟨⟨after', others⟩, hrest, h⟩ := LawfulMonadAttach.canReturn_bind_imp' h
      obtain ⟨hothers, htells⟩ := ih hrest
      cases LawfulMonadAttach.eq_of_canReturn_pure h
      subst hothers
      cases hmap : cases.mapM (Verdict.ofCase family) with
      | error broken => exact ⟨rfl, fun verdicts hverdicts => nomatch hverdicts⟩
      | ok others =>
        refine ⟨rfl, fun verdicts hverdicts => ?_⟩
        cases hverdicts
        obtain ⟨entries, rfl, hentries⟩ := htells others hmap
        rw [logVerdict_eq] at hentries ⊢
        exact ⟨_, Emitter.after_after .., .cons c v _ _ hentries.of_after⟩

/-- A logged run has the result of a plain run. It writes an entry for each case and one for the
set. -/
theorem of_runLogged {s : FixtureSet} {log after : Emitter} {campaign : String}
    {result : Except Violation (List Verdict)}
    (h : CanReturn (runLogged (m := m) s log campaign) (after, result)) :
    result = run s ∧
      ∀ verdicts, result = .ok verdicts →
        ∃ entries timestamp durationMs, Tells log (log.drawn + 1) s.cases verdicts entries ∧
          after = log.after (entries ++
            [setEntry (log.entryAt (log.drawn + s.cases.length + 1) timestamp .info "set_complete")
              campaign s.family verdicts durationMs]) := by
  simp only [runLogged] at h
  obtain ⟨started, -, h⟩ := LawfulMonadAttach.canReturn_bind_imp' h
  obtain ⟨⟨log', result'⟩, hcases, h⟩ := LawfulMonadAttach.canReturn_bind_imp' h
  obtain ⟨hresult, htells⟩ := of_runCasesLogged hcases
  cases hrun : result' with
  | error v =>
    rw [hrun] at h hresult
    cases LawfulMonadAttach.eq_of_canReturn_pure h
    exact ⟨hresult, fun verdicts hverdicts => nomatch hverdicts⟩
  | ok verdicts =>
    rw [hrun] at h hresult
    obtain ⟨ended, -, h⟩ := LawfulMonadAttach.canReturn_bind_imp' h
    cases LawfulMonadAttach.eq_of_canReturn_pure h
    refine ⟨hresult, fun verdicts' hverdicts => ?_⟩
    cases hverdicts
    obtain ⟨entries, rfl, hentries⟩ := htells verdicts hrun
    refine ⟨entries, Calendar.utc ended, (ended - started) / 1000000, hentries, ?_⟩
    rw [logSet_eq, Emitter.after_after, Emitter.after_drawn, hentries.length_eq.1,
      Emitter.entryAt_after]

end

end Conformance

end CText
