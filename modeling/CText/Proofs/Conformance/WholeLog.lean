import CText.Files.Tree
import CText.Proofs.Conformance.Logging
import CText.Proofs.Conformance.Promises
import CText.Proofs.Log.Calls
import CText.Proofs.Log.Lines
import CText.Proofs.Yields

/-!
# A logged run is told whole

If neither the campaign nor the run of an emitter is named with a colon, and the buffers that its
cases ask for can be made, a logged run leaves a log that keeps its contract. There is one line for
each case and one for the set, in this order, and under numbers that follow on one another. Every
line is read as the entry that was written on it, whatever texts the cases put into the details.
-/

namespace CText

namespace Log

/-! ## Trace ids -/

theorem partCount_cons {c : Char} (h : c ≠ ':') (rest : List Char) :
    partCount (c :: rest) = partCount rest := by
  rw [partCount]
  intro rest' hc
  exact absurd hc h

/-- Between double colons there are parts. -/
theorem partCount_append {s : List Char} (h : ':' ∉ s) (rest : List Char) :
    partCount (s ++ ':' :: ':' :: rest) = partCount rest + 1 := by
  induction s with
  | nil => rfl
  | cons c s ih =>
    rw [List.mem_cons, not_or] at h
    rw [List.cons_append, partCount_cons (Ne.symm h.1), ih h.2]

theorem partCount_of_free {s : List Char} (h : ':' ∉ s) : partCount s = 1 := by
  induction s with
  | nil => rfl
  | cons c s ih =>
    rw [List.mem_cons, not_or] at h
    rw [partCount_cons (Ne.symm h.1), ih h.2]

theorem colon_notMem_padded (width n : Nat) : ':' ∉ Text.padded width n := by
  rw [Text.padded, List.mem_append, not_or]
  constructor
  · intro h
    cases List.eq_of_mem_replicate h
  · intro h
    exact absurd (Json.isDigit_of_mem_toDigits h) (by decide)

theorem Emitter.partCount_traceId {log : Emitter} (hcampaign : ':' ∉ log.campaign.toList)
    (hrun : ':' ∉ log.runId.toList) (n : Nat) : partCount (log.traceId n).toList = 3 := by
  rw [log.toList_traceId, partCount_append hcampaign, partCount_append hrun,
    partCount_of_free (colon_notMem_padded 3 n)]

/-! ## Entries that are begun and then written -/

namespace Emitter

/-- The calls by which an entry is begun and, when it is filled in, written. -/
def Call.telling (e : Entry) : List Call := [.entry e.timestamp e.level e.event, .emitEntry e]

variable {log : Emitter} {entries : List Entry}

theorem calls_telling (h : ∀ e ∈ entries, e.traceId ≠ "" ∧ e.campaign = some log.campaign) :
    log.calls (entries.flatMap Call.telling) = log.after entries := by
  induction entries generalizing log with
  | nil => exact log.after_nil.symm
  | cons e entries ih =>
    obtain ⟨⟨hid, hcampaign⟩, hrest⟩ := List.forall_mem_cons.1 h
    have hkept : some (e.campaign.getD log.campaign) = e.campaign := by
      rw [hcampaign]
      rfl
    have hbegun : (log.call (.entry e.timestamp e.level e.event)).call (.emitEntry e) =
        log.after [e] := by
      simp [call, entry, draw, emitEntry, write, after, hid, hkept]
    have hothers := @ih (log.after [e]) hrest
    change ((log.call _).call _).calls (entries.flatMap Call.telling) = _
    rw [hbegun, hothers, after_after, List.singleton_append]

theorem countP_telling (h : ∀ e ∈ entries, e.traceId ≠ "") :
    (entries.flatMap Call.telling).countP (·.draws) = entries.length := by
  induction entries with
  | nil => rfl
  | cons e entries ih =>
    rw [List.forall_mem_cons] at h
    have hone : (Call.telling e).countP (·.draws) = 1 := by simp [Call.telling, Call.draws, h.1]
    rw [List.flatMap_cons, List.countP_append, hone, ih h.2, List.length_cons, Nat.add_comm]

end Emitter

end Log

namespace Conformance

open Log MonadAttach Routine

/-! ## Entries -/

theorem plain_failureDetails (v : Verdict) :
    (failureDetails v).Plain (Json.Document.depthLimit - 1) := by
  change Json.Plain (Json.Document.depthLimit - 2 + 1) (.object _)
  refine .object ?_ ?_
  · simp only [List.forall_mem_cons]
    exact ⟨.text _, .text _, .text _, fun _ h => nomatch h⟩
  · exact List.pairwise_map.1 (by decide : ["actual", "case", "expected"].Pairwise (· < ·))

theorem plain_setDetails (campaign family : String) {verdicts : List Verdict}
    (h : verdicts.length < 2 ^ 64) :
    (setDetails campaign family verdicts).Plain (Json.Document.depthLimit - 1) := by
  have hpassed := List.countP_le_length (p := (·.passed)) (l := verdicts)
  change Json.Plain (Json.Document.depthLimit - 2 + 1) (.object _)
  refine .object ?_ ?_
  · simp only [List.forall_mem_cons]
    refine ⟨.text _, .text _, .whole ⟨?_, ?_⟩, .whole ⟨?_, ?_⟩, fun _ h => nomatch h⟩
    all_goals omega
  · exact List.pairwise_map.1
      (by decide : ["campaign", "family", "passed", "total"].Pairwise (· < ·))

section

variable {log : Emitter} (hcampaign : ':' ∉ log.campaign.toList) (hrun : ':' ∉ log.runId.toList)

include hcampaign hrun

theorem caseEntry_proper (n : Nat) (timestamp : String) (level : Level) (event function : String)
    {v : Verdict} (herrno : Routine.InErrno v.actualErrno) (latencyNs : Nat) :
    (caseEntry (log.entryAt n timestamp level event) function v latencyNs).Proper where
  traced := Emitter.partCount_traceId hcampaign hrun n
  named _ := Option.some_ne_none _
  errno number h := by
    cases h
    exact herrno
  latency count h := by
    cases h
    exact Nat.min_le_right _ _
  duration count h := nomatch h
  details j h := by
    simp only [caseEntry] at h
    split at h
    · cases h
    · cases h
      exact ⟨Json.noConfusion, plain_failureDetails v⟩

theorem setEntry_proper (n : Nat) (timestamp : String) (level : Level) (event campaign : String)
    (family : String) {verdicts : List Verdict} (hsize : verdicts.length < 2 ^ 64)
    (durationMs : Nat) :
    (setEntry (log.entryAt n timestamp level event) campaign family verdicts durationMs).Proper
    where
  traced := Emitter.partCount_traceId hcampaign hrun n
  named h := nomatch h
  errno number h := nomatch h
  latency count h := nomatch h
  duration count h := by
    cases h
    exact Nat.min_le_right _ _
  details j h := by
    cases h
    exact ⟨Json.noConfusion, plain_setDetails campaign family hsize⟩

end

/-- The error number that a verdict tells is one of 32 bits. -/
theorem inErrno_of_ofCase {family : String} {c : FixtureCase} {v : Verdict}
    (h : Verdict.ofCase family c = .ok v) : Routine.InErrno v.actualErrno := by
  obtain ⟨outcome, rfl, hexec | ⟨fault, -, rfl⟩⟩ := outcome_of_ofCase h
  · exact tellable_of_execute hexec
  · exact Routine.tellable_ok (unsupportedMark ++ fault.message)

/-- Entries that tell verdicts keep the contract, and stand under the numbers from `n` on. -/
theorem Tells.proper {log : Emitter} {n : Nat} {cases : List FixtureCase}
    {verdicts : List Verdict} {entries : List Entry} (h : Tells log n cases verdicts entries)
    (hcampaign : ':' ∉ log.campaign.toList) (hrun : ':' ∉ log.runId.toList)
    (herrno : ∀ v ∈ verdicts, Routine.InErrno v.actualErrno) :
    ∀ e ∈ entries, e.Proper := by
  induction h with
  | nil n => exact fun e he => nomatch he
  | cons c v timestamp latencyNs _ ih =>
    rw [List.forall_mem_cons] at herrno ⊢
    exact ⟨caseEntry_proper hcampaign hrun _ _ _ _ _ herrno.1 _, ih herrno.2⟩

theorem Tells.traceId {log : Emitter} {n : Nat} {cases : List FixtureCase}
    {verdicts : List Verdict} {entries : List Entry} (h : Tells log n cases verdicts entries)
    {i : Nat} {e : Entry} (he : entries[i]? = some e) : e.traceId = log.traceId (n + i) := by
  induction h generalizing i with
  | nil n => cases he
  | cons c v timestamp latencyNs _ ih =>
    cases i with
    | zero =>
      cases he
      rfl
    | succ i =>
      rw [List.getElem?_cons_succ] at he
      rw [ih he, Nat.add_right_comm, Nat.add_assoc]

/-- The entries have a trace id and the campaign from their beginning. -/
theorem Tells.begun {log : Emitter} {n : Nat} {cases : List FixtureCase}
    {verdicts : List Verdict} {entries : List Entry} (h : Tells log n cases verdicts entries) :
    ∀ e ∈ entries, e.traceId ≠ "" ∧ e.campaign = some log.campaign := by
  induction h with
  | nil n => exact List.forall_mem_nil _
  | cons c v timestamp latencyNs _ ih =>
    exact List.forall_mem_cons.2 ⟨⟨log.traceId_ne_empty _, rfl⟩, ih⟩

/-- Every verdict of a run is one on a case. -/
theorem inErrno_of_mem {s : FixtureSet} {verdicts : List Verdict} (h : run s = .ok verdicts)
    (hsize : verdicts.length = s.cases.length) :
    ∀ v ∈ verdicts, Routine.InErrno v.actualErrno := by
  intro v hv
  obtain ⟨i, hi, hvi⟩ := List.getElem_of_mem hv
  have hic : i < s.cases.length := by omega
  obtain ⟨v', hv', hcase⟩ := verdict_at h (List.getElem?_eq_getElem hic)
  rw [List.getElem?_eq_getElem hi, hvi] at hv'
  cases hv'
  exact inErrno_of_ofCase hcase

/-- A logged run has the result of a plain run, whatever its clock shows, and that is a verdict on
each case if the buffers that the cases ask for can be made. Then the lines that it adds are those of
one entry for each case, in the order of the cases, and one for the set. The entry for a case names
its routine and tells its verdict, and that for the set tells how many cases there are and how many
of them passed. The entries are numbered from the first number not yet drawn on, each line holds no
line feed, and reading it gives the entry back. The counter of the emitter has 64 bits, and the calls
that the run makes of it get by with them if there are numbers enough for the cases and the set. -/
theorem logged_run_complete {m : Type → Type} [Monad m] [LawfulMonad m] [MonadAttach m]
    [LawfulMonadAttach m] [Clock m] {s : FixtureSet} {log after : Emitter} {campaign : String}
    {result : Except Violation (List Verdict)}
    (ran : CanReturn (runLogged (m := m) s log campaign) (after, result))
    (hcampaign : ':' ∉ log.campaign.toList) (hrun : ':' ∉ log.runId.toList)
    (hnumbers : log.drawn + (s.cases.length + 1) < 2 ^ 64) :
    result = run s ∧
      ((∀ c ∈ s.cases, Held c.inputs ∧ Allocatable c.inputs c.function) →
        ∃ verdicts, result = .ok verdicts) ∧
      ∀ verdicts, result = .ok verdicts →
        verdicts.length = s.cases.length ∧
        ∃ (entries : List Entry) (summary : Entry), entries.length = s.cases.length ∧
          after.lines.toList = log.lines.toList ++ (entries ++ [summary]).map Entry.line ∧
          Checked.calls log ((entries ++ [summary]).flatMap Emitter.Call.telling) = .ok after ∧
          (∀ (i : Nat) (c : FixtureCase), s.cases[i]? = some c → ∃ (v : Verdict) (e : Entry),
            Verdict.ofCase s.family c = .ok v ∧
            verdicts[i]? = some v ∧ entries[i]? = some e ∧
            e.family = some s.family ∧ e.symbol = some c.function ∧
            e.outcome = some (logOutcome v) ∧ e.errno = some v.actualErrno ∧
            e.details = if v.passed then none else some (failureDetails v)) ∧
          summary.details = some (.object [("campaign", .text campaign),
            ("family", .text s.family), ("passed", .ofNat (verdicts.countP (·.passed))),
            ("total", .ofNat s.cases.length)]) ∧
          ∀ (i : Nat) (e : Entry), (entries ++ [summary])[i]? = some e →
            e.traceId = log.campaign ++ "::" ++ log.runId ++ "::" ++
              String.ofList (Text.padded 3 (log.drawn + (i + 1))) ∧
            '\n' ∉ e.line.toList ∧ readLine e.line = .ok e := by
  obtain ⟨hresult, hwritten⟩ := of_runLogged ran
  refine ⟨hresult, ?_, fun verdicts hverdicts => ?_⟩
  · intro hcases
    rw [hresult]
    exact exists_mapM fun c hc => exists_verdict (hcases c hc).1 (hcases c hc).2 s.family
  obtain ⟨entries, timestamp, durationMs, htells, rfl⟩ := hwritten verdicts hverdicts
  have hrunok : run s = .ok verdicts := hresult.symm.trans hverdicts
  obtain ⟨hentries, hlength⟩ := htells.length_eq
  have herrno := inErrno_of_mem hrunok hlength
  let summary := setEntry
    (log.entryAt (log.drawn + s.cases.length + 1) timestamp .info "set_complete") campaign s.family
    verdicts durationMs
  have hbegun : ∀ e ∈ entries ++ [summary], e.traceId ≠ "" ∧ e.campaign = some log.campaign := by
    refine List.forall_mem_append.2 ⟨htells.begun, List.forall_mem_singleton.2 ?_⟩
    exact ⟨log.traceId_ne_empty _, rfl⟩
  refine ⟨hlength, entries, summary, hentries, ?_, ?_, ?_, ?_, ?_⟩
  · simp [Emitter.after, summary]
  · rw [Checked.calls_eq, Emitter.calls_telling hbegun]
    rw [Emitter.countP_telling fun e he => (hbegun e he).1, List.length_append, hentries]
    exact hnumbers
  · intro i c hc
    obtain ⟨v, hv, hcase⟩ := verdict_at hrunok hc
    obtain ⟨timestamp, latencyNs, hentry⟩ := htells.entry_eq hc hv
    obtain ⟨outcome, rfl, -⟩ := outcome_of_ofCase hcase
    exact ⟨_, _, hcase, hv, hentry, rfl, rfl, rfl, rfl, rfl⟩
  · rw [← hlength]
    rfl
  · intro i e he
    have hproper : e.Proper := by
      rcases List.mem_append.1 (List.mem_of_getElem? he) with hmem | hmem
      · exact htells.proper hcampaign hrun herrno e hmem
      · rw [List.mem_singleton.1 hmem]
        exact setEntry_proper hcampaign hrun _ _ _ _ _ _ (by omega) _
    have hnumber : e.traceId = log.traceId (log.drawn + (i + 1)) := by
      rcases Nat.lt_or_ge i entries.length with hi | hi
      · rw [List.getElem?_append_left hi] at he
        rw [htells.traceId he, Nat.add_comm i 1, Nat.add_assoc]
      · rw [List.getElem?_append_right hi] at he
        obtain ⟨hlast, rfl⟩ := List.getElem?_eq_some_iff.1 he
        rw [List.length_singleton] at hlast
        have hi : i = s.cases.length := by omega
        simp [summary, setEntry, Emitter.entryAt, hi, Nat.add_assoc]
    exact ⟨hnumber, hproper.lineFeed_notMem, hproper.readLine_line⟩

/-- A set with a case that passes and one whose output is unexpected. -/
def loggedSample : FixtureSet where
  version := "v1"
  family := "string"
  capturedAt := ""
  cases := [⟨"length", "strlen", "", .object [("s", .text "abc")], "3", 0⟩,
    ⟨"copy", "strcpy", "", .object [("src", .text "a\nb")], "ab", 0⟩]

def loggedStart : Emitter := ⟨"nightly", "r1", 7, #["{}"]⟩

theorem logged_run_sample :
    ∃ after verdicts,
      CanReturn (runLogged (m := StateM FileTree) loggedSample loggedStart)
        (after, .ok verdicts) ∧
      ':' ∉ loggedStart.campaign.toList ∧ ':' ∉ loggedStart.runId.toList ∧
      loggedStart.drawn + (loggedSample.cases.length + 1) < 2 ^ 64 ∧
      (∀ c ∈ loggedSample.cases, Held c.inputs ∧ Allocatable c.inputs c.function) ∧
      run loggedSample = .ok verdicts ∧
      ∃ (entries : List Entry) (summary : Entry), entries.length = 2 ∧
        after.lines.toList = "{}" :: (entries ++ [summary]).map Entry.line ∧
        Checked.calls loggedStart ((entries ++ [summary]).flatMap Emitter.Call.telling) =
          .ok after ∧
        ∀ (i : Nat) (e : Entry), (entries ++ [summary])[i]? = some e →
          e.traceId = "nightly::r1::" ++ String.ofList (Text.padded 3 (7 + (i + 1))) ∧
          '\n' ∉ e.line.toList ∧ readLine e.line = .ok e := by
  let start : FileTree := .empty []
  let ended := ((runLogged (m := StateM FileTree) loggedSample loggedStart).run start).1
  have ran : CanReturn (runLogged (m := StateM FileTree) loggedSample loggedStart) ended :=
    ⟨start, start, rfl⟩
  have hcampaign : ':' ∉ loggedStart.campaign.toList := by decide
  have hrun : ':' ∉ loggedStart.runId.toList := by decide
  have hnumbers : loggedStart.drawn + (loggedSample.cases.length + 1) < 2 ^ 64 := by decide
  have hcases : ∀ c ∈ loggedSample.cases, Held c.inputs ∧ Allocatable c.inputs c.function := by
    refine List.forall_mem_cons.2 ⟨⟨held_object (by decide), ?_⟩,
      List.forall_mem_singleton.2 ⟨held_object (by decide), ?_⟩⟩ <;> exact fun n hn => nomatch hn
  obtain ⟨hresult, hexists, htold⟩ := logged_run_complete ran hcampaign hrun hnumbers
  obtain ⟨verdicts, hverdicts⟩ := hexists hcases
  obtain ⟨-, entries, summary, hlength, hlines, hcalls, -, -, htraces⟩ := htold verdicts hverdicts
  exact ⟨_, verdicts, hverdicts ▸ ran, hcampaign, hrun, hnumbers, hcases,
    hresult.symm.trans hverdicts, entries, summary, hlength, hlines, hcalls, htraces⟩

/-- A set whose case asks for a buffer that cannot be made. -/
def vastSet : FixtureSet where
  version := "v1"
  family := "fill"
  capturedAt := ""
  cases := [⟨"vast", "memset", "", .object [("c", .ofNat 0),
    ("dst_len", .ofNat (maxReservation + 1)), ("n", .ofNat 0)], "", 0⟩]

/-- A case that asks for a buffer that cannot be made ends the run before a line is written. -/
theorem vast_case_ends_run :
    ':' ∉ loggedStart.campaign.toList ∧ ':' ∉ loggedStart.runId.toList ∧
      vastSet.cases.length = 1 ∧
      ∀ start : FileTree, ((runLogged (m := StateM FileTree) vastSet loggedStart).run start).1 =
        (loggedStart, .error .unaddressable) :=
  ⟨by decide, by decide, rfl, fun _ => rfl⟩

end Conformance

end CText
