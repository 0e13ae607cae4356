import CText.CommandLine.Run
import CText.Proofs.CommandLine.Jobs
import CText.Proofs.Conformance.Loading
import CText.Proofs.Conformance.Sets
import CText.Proofs.Log.Artifacts
import CText.Proofs.Log.Examining
import CText.Proofs.Text.Utf8

/-!
# What a verification leaves behind

All sets are run under one log. If no promise is broken on the way, the reports that are wanted, the
log and the index of these files stand under their paths in the end, each complete when the next is
written. A broken promise ends the verification before there is a report.
-/

namespace CText.CommandLine

open Conformance Log Machine

/-- The paths under which something is to be written. -/
def Verification.outputs (v : Verification) : List String :=
  v.report.toList ++ v.json.toList ++ v.log.toList ++ v.artifactIndex.toList

/-- The reports that are wanted, with their kinds. -/
def Verification.reports (v : Verification) : List (String × String) :=
  (v.report.map (·, "report_markdown")).toList ++ (v.json.map (·, "report_json")).toList

/-- The files that an index lists, with their kinds. -/
def Verification.listed (v : Verification) : List (String × String) :=
  v.reports ++ (v.log.map (·, "log_jsonl")).toList

/-- What is printed: the page, if no report is wanted. -/
def Verification.printed (v : Verification) (report : Report) : List UInt8 :=
  if v.report.isNone && v.json.isNone then Utf8.bytes report.markdown else []

namespace Verification

variable {v : Verification} {path : String}

theorem report_mem : ∀ path ∈ v.report, path ∈ v.outputs := by
  simp +contextual [outputs]

theorem json_mem : ∀ path ∈ v.json, path ∈ v.outputs := by
  simp +contextual [outputs]

theorem log_mem : ∀ path ∈ v.log, path ∈ v.outputs := by
  simp +contextual [outputs]

theorem artifactIndex_mem : ∀ path ∈ v.artifactIndex, path ∈ v.outputs := by
  simp +contextual [outputs]

/-- No path is used twice. -/
theorem apart (h : v.outputs.Nodup) :
    (∀ path, v.report = some path →
      v.json ≠ some path ∧ v.log ≠ some path ∧ v.artifactIndex ≠ some path) ∧
    (∀ path, v.json = some path →
      v.report ≠ some path ∧ v.log ≠ some path ∧ v.artifactIndex ≠ some path) ∧
    ∀ path, v.log = some path →
      v.report ≠ some path ∧ v.json ≠ some path ∧ v.artifactIndex ≠ some path := by
  simp only [outputs, List.nodup_append, Option.mem_toList, List.mem_append] at h
  obtain ⟨⟨⟨-, -, hjson⟩, -, hlog⟩, -, hindex⟩ := h
  refine ⟨fun path hpath => ⟨?_, ?_, ?_⟩, fun path hpath => ⟨?_, ?_, ?_⟩,
    fun path hpath => ⟨?_, ?_, ?_⟩⟩
  · exact fun h => hjson path hpath path h rfl
  · exact fun h => hlog path (.inl hpath) path h rfl
  · exact fun h => hindex path (.inl (.inl hpath)) path h rfl
  · exact fun h => hjson path h path hpath rfl
  · exact fun h => hlog path (.inr hpath) path h rfl
  · exact fun h => hindex path (.inl (.inr hpath)) path h rfl
  · exact fun h => hlog path (.inl h) path hpath rfl
  · exact fun h => hlog path (.inr h) path hpath rfl
  · exact fun h => hindex path (.inr hpath) path h rfl

end Verification

/-! ## Sets -/

theorem leads_loadSets {s : Scene} {fixture : String} {sets : List FixtureSet}
    (h : s.tree.HoldsSets fixture sets) (hsets : sets ≠ []) :
    Leads (loadSets fixture) s fun result s' =>
      s' = s ∧ ∃ loaded, result = .ok loaded ∧ (loaded.map (·.set)).Perm sets := by
  refine Leads.bind (leads_act ((runs_loadAll h).mono ?_))
  rintro _ tree ⟨_, hperm, rfl, loaded, rfl, rfl⟩
  cases loaded with
  | nil => exact absurd hperm.symm.eq_nil hsets
  | cons first others =>
    dsimp only [Continues]
    exact leads_pure ⟨rfl, first :: others, rfl, hperm⟩

/-- A log that cannot be finished is written as far as it goes. -/
theorem leads_abandon {α : Type} {path : Option String} {paths : List String} {log : Emitter}
    {failure : Failure} {s : Scene} {post : Except Failure α → Scene → Prop}
    (outputs : s.tree.Outputs paths) (hpath : ∀ p ∈ path, p ∈ paths)
    (hempty : ∀ p ∈ path, s.tree.read p = .ok [])
    (h : post (.error failure) ⟨s.output, s.tree.storeSome path (Utf8.bytes log.text)⟩) :
    Leads (abandon path log failure) s post := by
  cases path with
  | none => exact leads_throw h
  | some path =>
    refine Leads.bind (leads_act ?_)
    exact runs_overwrite (outputs.writable path (hpath path rfl)) (hempty path rfl) (leads_throw h)

/-- What becomes of sets that are run under one log. -/
inductive SetsRun (path : Option String) (log : Emitter) (sets : List FixtureSet) (s : Scene) :
    Except Failure (Emitter × List Verdict) → Scene → Prop
  | finished {verdicts : List Verdict} {entries : List Entry}
      (judged : verdictsOn (casesOf sets) = .ok verdicts)
      (count : entries.length = (casesOf sets).length + sets.length)
      (numbered : Numbered log (log.drawn + 1) entries) :
      SetsRun path log sets s (.ok (log.after entries, verdicts)) s
  | broken {v : Violation} (logged : List UInt8) (judged : verdictsOn (casesOf sets) = .error v) :
      SetsRun path log sets s (.error (.violation v)) ⟨s.output, s.tree.storeSome path logged⟩

theorem leads_runSets {path : Option String} {paths : List String} {log : Emitter}
    {loaded : List LoadedSet} {s : Scene} (hcampaign : ':' ∉ log.campaign.toList)
    (hrun : ':' ∉ log.runId.toList) (outputs : s.tree.Outputs paths)
    (hpath : ∀ p ∈ path, p ∈ paths) (hempty : ∀ p ∈ path, s.tree.read p = .ok [])
    (hsize : ∀ l ∈ loaded, l.set.cases.length ≤ maxReservation) :
    Leads (runSets path log loaded) s (SetsRun path log (loaded.map (·.set)) s) := by
  induction loaded generalizing log with
  | nil =>
    have hnone : SetsRun path log [] s (.ok (log.after [], [])) s := .finished rfl rfl .nil
    rw [log.after_nil] at hnone
    exact leads_pure hnone
  | cons l loaded ih =>
    rw [List.forall_mem_cons] at hsize
    -- The sets that follow go on with the log of this one, so the log varies in the induction.
    refine Leads.bind (leads_note ?_)
    refine Leads.bind (leads_act ((runs_runLogged hcampaign hrun hsize.1).mono ?_))
    rintro ⟨log', result⟩ tree ⟨rfl, hresult, hwritten⟩
    cases result with
    | error v =>
      exact leads_abandon outputs hpath hempty
        (.broken _ (verdictsOn_casesOf_cons_of_error hresult.symm _))
    | ok verdicts =>
      obtain ⟨entries, rfl, hentries, hnumbered⟩ := hwritten verdicts rfl
      have hjudged := verdictsOn_casesOf_cons_of_ok hresult.symm (loaded.map (·.set))
      refine Leads.bind ((@ih (log.after entries) hcampaign hrun hsize.2).mono ?_)
      intro result s' hrest
      cases hrest with
      | @finished others rest hothers hcount hrest =>
        rw [hothers] at hjudged
        refine leads_pure ?_
        rw [log.after_after]
        refine .finished hjudged ?_ (hnumbered.append ?_)
        · simp only [List.length_append, hentries, hcount, List.map_cons, casesOf,
            List.flatMap_cons, List.length_map, List.length_cons]
          omega
        · rw [Nat.add_right_comm]
          exact hrest.of_after
      | @broken v logged hothers =>
        rw [hothers] at hjudged
        exact .broken logged hjudged

/-! ## Times and files -/

theorem leads_nowUtc {s : Scene} {post : Except Failure String → Scene → Prop}
    (h : ∀ timestamp, post (.ok timestamp) s) : Leads nowUtc s post :=
  Leads.bind (leads_act (runs_now fun _ => leads_pure (h _)))

theorem leads_reportTime {s : Scene} {given : Option String}
    {post : Except Failure String → Scene → Prop}
    (h : ∀ timestamp, (∀ fixed, given = some fixed → timestamp = fixed) → post (.ok timestamp) s) :
    Leads (reportTime given) s post := by
  cases given with
  | none => exact leads_nowUtc fun timestamp => h timestamp fun _ h => nomatch h
  | some fixed => exact leads_pure (h fixed fun _ h => Option.some.inj h)

section

variable {s : Scene} {paths : List String} {path : Option String}
  (outputs : s.tree.Outputs paths) (hpath : ∀ p ∈ path, p ∈ paths)

include outputs hpath

theorem leads_openLog {post : Except Failure Unit → Scene → Prop}
    (h : post (.ok ()) ⟨s.output, s.tree.storeSome path []⟩) : Leads (openLog path) s post := by
  cases path with
  | none => exact leads_pure h
  | some path =>
    exact leads_withFiles (runs_create (outputs.writable path (hpath path rfl)) ⟨(), rfl, h⟩)

theorem leads_flush {log : Emitter} {post : Except Failure Unit → Scene → Prop}
    (hempty : ∀ p ∈ path, s.tree.read p = .ok [])
    (h : post (.ok ()) ⟨s.output, s.tree.storeSome path (Utf8.bytes log.text)⟩) :
    Leads (flush path log) s post := by
  cases path with
  | none => exact leads_pure h
  | some path =>
    exact leads_withFiles
      (runs_overwrite (outputs.writable path (hpath path rfl)) (hempty path rfl) ⟨(), rfl, h⟩)

theorem leads_writeReport {kind text : String}
    {post : Except Failure (List (String × String)) → Scene → Prop}
    (h : post (.ok (path.map (·, kind)).toList)
      ⟨s.output, s.tree.storeSome path (Utf8.bytes text)⟩) :
    Leads (writeReport path kind text) s post := by
  cases path with
  | none => exact leads_pure h
  | some path =>
    refine Leads.bind (leads_withFiles ?_)
    refine runs_write (outputs.writable path (hpath path rfl)) ⟨(), rfl, ?_⟩
    exact leads_pure h

/-- The index tells what the listed files hold at the time. -/
theorem leads_writeIndex {runId : String} {listed : List (String × String)}
    {post : Except Failure Unit → Scene → Prop}
    (readable : ∀ file ∈ listed, ∃ content, s.tree.read file.1 = .ok content)
    (h : ∀ content, (∀ p ∈ path, ∃ generated artifacts,
        List.Forall₂ (Describes s.tree) listed artifacts ∧
        content = Utf8.bytes (ArtifactIndex.render ⟨runId, campaign, generated, artifacts⟩)) →
      post (.ok ()) ⟨s.output, s.tree.storeSome path content⟩) :
    Leads (writeIndex path runId listed) s post := by
  cases path with
  | none => exact leads_pure (h [] fun p hp => nomatch hp)
  | some path =>
    refine Leads.bind (leads_nowUtc fun generated => ?_)
    refine Leads.bind (leads_withFiles ((runs_addFiles readable _).mono ?_))
    rintro _ tree ⟨rfl, artifacts, hartifacts, rfl⟩
    refine ⟨_, rfl, ?_⟩
    refine leads_withFiles (runs_write (outputs.writable path (hpath path rfl)) ⟨(), rfl, ?_⟩)
    refine h _ fun p _ => ⟨generated, artifacts, hartifacts, ?_⟩
    rfl

end

theorem leads_writeReports {v : Verification} {report : Report} {s : Scene}
    {post : Except Failure (List (String × String)) → Scene → Prop}
    (outputs : s.tree.Outputs v.outputs)
    (h : post (.ok v.reports) ⟨s.output ++ v.printed report,
      (s.tree.storeSome v.report (Utf8.bytes report.markdown)).storeSome v.json
        (Utf8.bytes report.json)⟩) :
    Leads (writeReports v report) s post := by
  refine Leads.bind (leads_writeReport outputs Verification.report_mem ?_)
  have outputs' : (s.tree.storeSome v.report (Utf8.bytes report.markdown)).Outputs v.outputs :=
    outputs.storeSome Verification.report_mem
  refine Leads.bind (leads_writeReport outputs' Verification.json_mem ?_)
  unfold Verification.printed at h
  dsimp only [Continues]
  split
  next hprinted =>
    rw [if_pos hprinted] at h
    exact Leads.bind (leads_print (leads_pure h))
  next hprinted =>
    rw [if_neg hprinted, List.append_nil] at h
    exact leads_pure h

/-- The last entry of a log is proper and has the next number. -/
theorem exists_logReports (log : Emitter) (hcampaign : ':' ∉ log.campaign.toList)
    (hrun : ':' ∉ log.runId.toList) (timestamp : String) (allPassed : Bool) (paths : List String)
    (durationMs : Nat) :
    ∃ e, logReports log timestamp allPassed paths durationMs = log.after [e] ∧
      Numbered log (log.drawn + 1) [e] := by
  let complete (e : Entry) : Entry :=
    { e with durationMs := some (min durationMs countMax), artifactRefs := some paths }
  refine ⟨_, log.emitEntry_entry timestamp (if allPassed then .info else .error) "verify_complete"
    complete (fun _ => rfl) (fun _ => rfl), .singleton ?_ rfl⟩
  exact {
    traced := Emitter.partCount_traceId hcampaign hrun _
    named := fun h => nomatch h
    errno := fun _ h => nomatch h
    latency := fun _ h => nomatch h
    duration := fun n h => by
      cases h
      exact Nat.min_le_right _ _
    details := fun _ h => nomatch h }

/-! ## What stands under the paths -/

/-- Both reports and what is logged stand under the paths wanted for them. -/
structure Stands (v : Verification) (report : Report) (logged : List UInt8) (t : FileTree) :
    Prop where
  outputs : t.Outputs v.outputs
  page : ∀ path, v.report = some path → t.read path = .ok (Utf8.bytes report.markdown)
  value : ∀ path, v.json = some path → t.read path = .ok (Utf8.bytes report.json)
  log : ∀ path, v.log = some path → t.read path = .ok logged

section

variable {v : Verification} {report : Report} {logged : List UInt8} {t : FileTree}

/-- A file that was just written holds what was written. -/
theorem read_storeSome {paths : List String} {wanted : Option String} {path : String}
    (outputs : t.Outputs paths) (hpath : path ∈ paths) (h : wanted = some path)
    (content : List UInt8) : (t.storeSome wanted content).read path = .ok content := by
  subst h
  exact (outputs.writable path hpath).read_store

theorem stands_reports (outputs : t.Outputs v.outputs) :
    Stands v report [] (((t.storeSome v.log []).storeSome v.report
      (Utf8.bytes report.markdown)).storeSome v.json (Utf8.bytes report.json)) := by
  obtain ⟨hreport, hjson, hlog⟩ := Verification.apart outputs.nodup
  have outputs₁ : (t.storeSome v.log []).Outputs v.outputs :=
    outputs.storeSome Verification.log_mem
  have outputs₂ : ((t.storeSome v.log []).storeSome v.report
      (Utf8.bytes report.markdown)).Outputs v.outputs :=
    outputs₁.storeSome Verification.report_mem
  refine ⟨outputs₂.storeSome Verification.json_mem, fun path h => ?_, fun path h => ?_,
    fun path h => ?_⟩
  · have hmem := Verification.report_mem _ h
    rw [outputs₂.read_storeSome_ne Verification.json_mem hmem (hreport path h).1]
    exact read_storeSome outputs₁ hmem h _
  · exact read_storeSome outputs₂ (Verification.json_mem _ h) h _
  · have hmem := Verification.log_mem _ h
    rw [outputs₂.read_storeSome_ne Verification.json_mem hmem (hlog path h).2.1,
      outputs₁.read_storeSome_ne Verification.report_mem hmem (hlog path h).1]
    exact read_storeSome outputs hmem h _

theorem Stands.flush (h : Stands v report logged t) (content : List UInt8) :
    Stands v report content (t.storeSome v.log content) := by
  obtain ⟨hreport, hjson, -⟩ := Verification.apart h.outputs.nodup
  refine ⟨h.outputs.storeSome Verification.log_mem, fun path hpath => ?_,
    fun path hpath => ?_, fun path hpath => ?_⟩
  · rw [h.outputs.read_storeSome_ne Verification.log_mem
      (Verification.report_mem _ hpath) (hreport path hpath).2.1]
    exact h.page path hpath
  · rw [h.outputs.read_storeSome_ne Verification.log_mem
      (Verification.json_mem _ hpath) (hjson path hpath).2.1]
    exact h.value path hpath
  · exact read_storeSome h.outputs (Verification.log_mem _ hpath) hpath _

theorem Stands.of_mem_listed (h : Stands v report logged t) {file : String × String}
    (hfile : file ∈ v.listed) :
    (∃ content, t.read file.1 = .ok content) ∧ file.1 ∈ v.outputs ∧
      v.artifactIndex ≠ some file.1 := by
  obtain ⟨hreport, hjson, hlog⟩ := Verification.apart h.outputs.nodup
  simp only [Verification.listed, Verification.reports, List.mem_append, Option.mem_toList,
    Option.map_eq_some_iff] at hfile
  obtain (⟨path, hpath, rfl⟩ | ⟨path, hpath, rfl⟩) | ⟨path, hpath, rfl⟩ := hfile
  · exact ⟨⟨_, h.page path hpath⟩, Verification.report_mem _ hpath, (hreport path hpath).2.2⟩
  · exact ⟨⟨_, h.value path hpath⟩, Verification.json_mem _ hpath, (hjson path hpath).2.2⟩
  · exact ⟨⟨_, h.log path hpath⟩, Verification.log_mem _ hpath, (hlog path hpath).2.2⟩

/-- The index is written beside the files that it lists. -/
theorem Stands.read_storeIndex (h : Stands v report logged t) {file : String × String}
    (hfile : file ∈ v.listed) (content : List UInt8) :
    (t.storeSome v.artifactIndex content).read file.1 = t.read file.1 := by
  obtain ⟨-, hmem, hne⟩ := h.of_mem_listed hfile
  exact h.outputs.read_storeSome_ne Verification.artifactIndex_mem hmem hne

theorem Stands.index (h : Stands v report logged t) (content : List UInt8) :
    Stands v report logged (t.storeSome v.artifactIndex content) := by
  have listed {path : String} (kind : String) (hfile : (path, kind) ∈ v.listed) {bytes : List UInt8}
      (hread : t.read path = .ok bytes) :
      (t.storeSome v.artifactIndex content).read path = .ok bytes :=
    (h.read_storeIndex hfile content).trans hread
  refine ⟨h.outputs.storeSome Verification.artifactIndex_mem, fun path hpath => ?_,
    fun path hpath => ?_, fun path hpath => ?_⟩
  · exact listed "report_markdown"
      (by simp [Verification.listed, Verification.reports, hpath]) (h.page path hpath)
  · exact listed "report_json"
      (by simp [Verification.listed, Verification.reports, hpath]) (h.value path hpath)
  · exact listed "log_jsonl"
      (by simp [Verification.listed, hpath]) (h.log path hpath)

end

/-! ## The whole -/

/-- What a verification leaves behind that came to some verdicts and logged some entries. -/
structure Leaves (runId : String) (v : Verification) (verdicts : List Verdict) (count : Nat)
    (before after : Scene) : Prop where
  told : ∃ (timestamp : String) (entries : List Entry),
    (∀ fixed, v.timestamp = some fixed → timestamp = fixed) ∧ entries.length = count ∧
    Numbered (.start campaign runId) 1 entries ∧
    after.output = before.output ++
      v.printed ⟨reportTitle, timestamp, ⟨inOrder verdicts⟩⟩ ∧
    Stands v ⟨reportTitle, timestamp, ⟨inOrder verdicts⟩⟩
      (Utf8.bytes (Emitter.text ((Emitter.start campaign runId).after entries))) after.tree
  index : ∀ path, v.artifactIndex = some path → ∃ generated artifacts,
    after.tree.read path =
      .ok (Utf8.bytes (ArtifactIndex.render ⟨runId, campaign, generated, artifacts⟩)) ∧
    List.Forall₂ (Describes after.tree) v.listed artifacts

/-- Whoever wrote `entries` when the files are still as before, but for an empty log, leaves these
files and one more entry. -/
theorem leads_conclude {su : Surroundings} {v : Verification} {s : Scene} {started : Nat}
    {entries : List Entry} {verdicts : List Verdict} (hrun : ':' ∉ su.runId.toList)
    (outputs : s.tree.Outputs v.outputs)
    (numbered : Numbered (.start campaign su.runId) 1 entries) :
    Leads (conclude su v started ((Emitter.start campaign su.runId).after entries)
        ⟨inOrder verdicts⟩) ⟨s.output, s.tree.storeSome v.log []⟩ fun result s' =>
      result = .ok () ∧ Leaves su.runId v verdicts (entries.length + 1) s s' := by
  have hcampaign : ':' ∉ campaign.toList := by decide
  have outputs₁ : (s.tree.storeSome v.log []).Outputs v.outputs :=
    outputs.storeSome Verification.log_mem
  refine Leads.bind (leads_reportTime fun timestamp htimestamp => ?_)
  refine Leads.bind (Leads.tryCatch (leads_writeReports outputs₁ ?_))
  -- From here on the reports stand, beside a log that is empty until it is flushed.
  have stands : Stands v ⟨reportTitle, timestamp, ⟨inOrder verdicts⟩⟩ [] _ := stands_reports outputs
  refine Leads.bind (leads_act (runs_now fun ended => ?_))
  obtain ⟨last, hlast, hnumbered⟩ := exists_logReports
    ((Emitter.start campaign su.runId).after entries) hcampaign hrun (Calendar.utc ended)
    (Summary.allPassed ⟨inOrder verdicts⟩) (v.reports.map (·.1)) ((ended - started) / 1000000)
  refine Leads.bind (leads_flush stands.outputs Verification.log_mem stands.log ?_)
  dsimp only
  rw [hlast, Emitter.after_after]
  replace stands := stands.flush
    (Utf8.bytes (Emitter.text ((Emitter.start campaign su.runId).after (entries ++ [last]))))
  refine leads_writeIndex stands.outputs Verification.artifactIndex_mem
    (fun _ hfile => (stands.of_mem_listed hfile).1) fun content hindex => ⟨rfl, ?_, ?_⟩
  · refine ⟨timestamp, entries ++ [last], htimestamp, ?_, ?_, rfl, stands.index content⟩
    · rw [List.length_append, List.length_singleton]
    · have hnext : 1 + entries.length =
          ((Emitter.start campaign su.runId).after entries).drawn + 1 := by
        simp [Emitter.start, Nat.add_comm]
      refine numbered.append ?_
      rw [hnext]
      exact hnumbered.of_after
  · intro path hpath
    obtain ⟨generated, artifacts, hdescribes, hcontent⟩ := hindex path hpath
    refine ⟨generated, artifacts, ?_, ?_⟩
    · rw [← hcontent]
      exact read_storeSome stands.outputs (Verification.artifactIndex_mem _ hpath) hpath _
    · exact describes_of_read_eq (fun _ hfile => stands.read_storeIndex hfile _) hdescribes

/-- What becomes of a verification of some sets. One that breaks off leaves nothing but a log. -/
inductive Verified (runId : String) (v : Verification) (sets : List FixtureSet) (before : Scene) :
    Except Failure Bool → Scene → Prop
  | finished {verdicts : List Verdict} {after : Scene}
      (judged : verdictsOn (casesOf sets) = .ok verdicts)
      (leaves : Leaves runId v verdicts ((casesOf sets).length + sets.length + 1) before after) :
      Verified runId v sets before (.ok (Summary.allPassed ⟨inOrder verdicts⟩)) after
  | broken {b : Violation} (logged : List UInt8) (judged : verdictsOn (casesOf sets) = .error b) :
      Verified runId v sets before (.error (.violation b))
        ⟨before.output, before.tree.storeSome v.log logged⟩

/-- A tree with sets to verify and with places for all that is to be written. -/
structure Ready (su : Surroundings) (v : Verification) (t : FileTree) (sets : List FixtureSet) :
    Prop where
  runId : ':' ∉ su.runId.toList
  fixtures : t.HoldsSets v.fixture sets
  nonempty : sets ≠ []
  sizes : ∀ set ∈ sets, set.cases.length ≤ maxReservation
  outputs : t.Outputs v.outputs

theorem leads_verify {su : Surroundings} {v : Verification} {sets : List FixtureSet} {s : Scene}
    (ready : Ready su v s.tree sets) :
    Leads (verify su v) s fun result s' =>
      ∃ loaded, loaded.Perm sets ∧ Verified su.runId v loaded s result s' := by
  have hcampaign : ':' ∉ campaign.toList := by decide
  obtain ⟨hrun, fixtures, hsets, hsize, outputs⟩ := ready
  refine Leads.bind (leads_note ?_)
  refine Leads.bind ((leads_loadSets fixtures hsets).mono ?_)
  rintro _ s ⟨rfl, loaded, rfl, hperm⟩
  refine Leads.bind (leads_act (runs_now fun started => ?_))
  refine Leads.bind (leads_openLog outputs Verification.log_mem ?_)
  have hsizes : ∀ l ∈ loaded, l.set.cases.length ≤ maxReservation := by
    intro l hl
    exact hsize _ (hperm.mem_iff.1 (List.mem_map_of_mem hl))
  have outputs₁ : (s.tree.storeSome v.log []).Outputs v.outputs :=
    outputs.storeSome Verification.log_mem
  have hempty : ∀ p ∈ v.log, (s.tree.storeSome v.log []).read p = .ok [] := fun p hp =>
    read_storeSome outputs (Verification.log_mem _ hp) hp []
  refine Leads.bind ((leads_runSets hcampaign hrun outputs₁ Verification.log_mem hempty
    hsizes).mono ?_)
  intro result s' hran
  cases hran with
  | broken logged judged =>
    rw [outputs.storeSome_storeSome Verification.log_mem]
    exact ⟨_, hperm, .broken logged judged⟩
  | @finished verdicts entries judged count numbered =>
    refine Leads.bind ((leads_conclude hrun outputs numbered).mono ?_)
    rintro _ after ⟨rfl, leaves⟩
    rw [count] at leaves
    exact Leads.bind (leads_note (leads_pure ⟨_, hperm, .finished judged leaves⟩))

/-- The command that verifies ends with the status of what the verification leads to. -/
theorem runs_verify {su : Surroundings} {v : Verification} {t : FileTree}
    {post : Except Failure Bool → Scene → Prop} (h : Leads (verify su v) ⟨[], t⟩ post) :
    Runs (runCommand su (.verify v)) t fun answer t' =>
      ∃ result, post result ⟨answer.output, t'⟩ ∧
        answer.status = exitStatus (result.map statusOf) := by
  have hstatus : Leads (statusOf <$> verify su v) ⟨[], t⟩ fun status s' =>
      ∃ result, post result s' ∧ status = result.map statusOf :=
    Leads.map (h.mono fun result s' hpost => ⟨result, hpost, rfl⟩)
  refine (runs_answer hstatus).mono ?_
  rintro answer t' ⟨_, ⟨result, hpost, rfl⟩, hanswer⟩
  exact ⟨result, hpost, hanswer⟩

end CText.CommandLine
