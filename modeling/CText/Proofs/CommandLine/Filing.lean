import CText.Proofs.CommandLine.Consistency
import CText.Proofs.Conformance.Order

/-!
# Reports do not depend on how fixtures are filed

Which files hold the sets, how these are split, how they are ordered and how a directory lists its
files has no effect on the reports: they are about the cases alone, each of which is known by its
family and its name.
-/

namespace CText.CommandLine

open Conformance Log Machine Routine

/-- The reports that are wanted are this one, and it is printed if none is wanted. -/
structure Reported (v : Verification) (report : Report) (after : Scene) : Prop where
  page : ∀ path, v.report = some path → after.tree.read path = .ok (Utf8.bytes report.markdown)
  value : ∀ path, v.json = some path → after.tree.read path = .ok (Utf8.bytes report.json)
  printed : after.output = v.printed report

structure Unreported (v : Verification) (before : FileTree) (after : Scene) : Prop where
  page : ∀ path, v.report = some path → after.tree.read path = before.read path
  value : ∀ path, v.json = some path → after.tree.read path = before.read path
  printed : after.output = []

section

variable {runId timestamp : String} {v : Verification} {loaded : List FixtureSet} {t : FileTree}
  {after : Scene} {result : Except Failure Bool}

/-- A verification of cases with verdicts reports these in order. -/
theorem Verified.reported (h : Verified runId v loaded ⟨[], t⟩ result after)
    (htimestamp : v.timestamp = some timestamp) {verdicts : List Verdict}
    (judged : verdictsOn (casesOf loaded) = .ok verdicts) :
    result = .ok (Summary.allPassed ⟨inOrder verdicts⟩) ∧
      Reported v ⟨reportTitle, timestamp, ⟨inOrder verdicts⟩⟩ after := by
  cases h with
  | broken _ judged' =>
    rw [judged] at judged'
    cases judged'
  | finished judged' leaves =>
    rw [judged] at judged'
    cases judged'
    obtain ⟨time, entries, hfixed, -, -, hprinted, stands⟩ := leaves.told
    obtain rfl := hfixed timestamp htimestamp
    exact ⟨rfl, stands.page, stands.value, hprinted⟩

/-- A verification that breaks off reports nothing. -/
theorem Verified.unreported (h : Verified runId v loaded ⟨[], t⟩ result after)
    (outputs : t.Outputs v.outputs)
    (unjudged : ∀ verdicts, verdictsOn (casesOf loaded) ≠ .ok verdicts) :
    exitStatus (result.map statusOf) = 101 ∧ Unreported v t after := by
  cases h with
  | finished judged _ => exact absurd judged (unjudged _)
  | broken logged _ =>
    obtain ⟨hreport, hjson, -⟩ := Verification.apart outputs.nodup
    refine ⟨rfl, fun path hpath => ?_, fun path hpath => ?_, rfl⟩
    · exact outputs.read_storeSome_ne Verification.log_mem
        (Verification.report_mem _ hpath) (hreport path hpath).2.1
    · exact outputs.read_storeSome_ne Verification.log_mem
        (Verification.json_mem _ hpath) (hjson path hpath).2.1

end

/-- What a run of the command leaves to look at. -/
def sceneAfter (su : Surroundings) (v : Verification) (machine : Machine) : Scene :=
  ⟨(machine.run (runCommand su (.verify v))).1.output,
    (machine.run (runCommand su (.verify v))).2.tree⟩

section

variable {su : Surroundings} {v : Verification} {machine : Machine} {sets : List FixtureSet}
  {cases : List (String × FixtureCase)}

/-- The status and the reports of a verification are told by the cases, in whatever order. -/
theorem reported_of_judged {timestamp : String} {verdicts : List Verdict}
    (ready : Ready su v machine.tree sets) (htimestamp : v.timestamp = some timestamp)
    (same : (casesOf sets).Perm cases) (distinct : (cases.map caseKey).Nodup)
    (judged : verdictsOn cases = .ok verdicts) :
    (machine.run (runCommand su (.verify v))).1.status =
        statusOf (Summary.allPassed ⟨inOrder verdicts⟩) ∧
      Reported v ⟨reportTitle, timestamp, ⟨inOrder verdicts⟩⟩ (sceneAfter su v machine) := by
  have hled : Leads (verify su v) ⟨[], machine.tree⟩ _ := leads_verify ready
  obtain ⟨result, ⟨loaded, hperm, verified⟩, hstatus⟩ := runs_verify hled machine rfl
  -- What is loaded first depends on the names of the files; the verdicts in order do not.
  have hcases : (casesOf loaded).Perm cases := (hperm.flatMap_right _).trans same
  obtain ⟨verdicts', judged', hordered⟩ := inOrder_verdictsOn hcases distinct judged
  obtain ⟨rfl, reported⟩ := verified.reported htimestamp judged'
  rw [hordered] at reported hstatus
  exact ⟨hstatus, reported⟩

theorem unreported_of_broken {c : String × FixtureCase} {b : Violation}
    (ready : Ready su v machine.tree sets) (same : (casesOf sets).Perm cases) (hc : c ∈ cases)
    (hbroken : Verdict.ofCase c.1 c.2 = .error b) :
    (machine.run (runCommand su (.verify v))).1.status = 101 ∧
      Unreported v machine.tree (sceneAfter su v machine) := by
  have hled : Leads (verify su v) ⟨[], machine.tree⟩ _ := leads_verify ready
  obtain ⟨result, ⟨loaded, hperm, verified⟩, hstatus⟩ := runs_verify hled machine rfl
  have hcases : (casesOf loaded).Perm cases := (hperm.flatMap_right _).trans same
  have unjudged : ∀ verdicts, verdictsOn (casesOf loaded) ≠ .ok verdicts := by
    intro verdicts judged
    obtain ⟨verdict, hverdict⟩ := exists_of_verdictsOn judged c (hcases.mem_iff.2 hc)
    rw [hbroken] at hverdict
    cases hverdict
  rw [hstatus]
  exact verified.unreported ready.outputs unjudged

end

/-- Two verifications of the same cases, each with a family and a name of its own, that are told the
same time end with the same status. If there is a verdict on every case, both write the same
reports, byte for byte. If a case breaks a promise, neither writes any. How the cases are split into
sets and files, in which order they come, and under which paths the reports are written makes no
difference. -/
theorem reports_independent_of_filing {su su' : Surroundings} {v v' : Verification}
    {machine machine' : Machine} {sets sets' : List FixtureSet} {timestamp : String}
    (ready : Ready su v machine.tree sets) (ready' : Ready su' v' machine'.tree sets')
    (htimestamp : v.timestamp = some timestamp) (htimestamp' : v'.timestamp = some timestamp)
    (same : (casesOf sets').Perm (casesOf sets)) (distinct : ((casesOf sets).map caseKey).Nodup) :
    (machine.run (runCommand su (.verify v))).1.status =
      (machine'.run (runCommand su' (.verify v'))).1.status ∧
    ((∀ c ∈ casesOf sets, ∃ verdict, Verdict.ofCase c.1 c.2 = .ok verdict) →
      ∃ report, Reported v report (sceneAfter su v machine) ∧
        Reported v' report (sceneAfter su' v' machine')) ∧
    ((∃ c ∈ casesOf sets, ∃ b, Verdict.ofCase c.1 c.2 = .error b) →
      Unreported v machine.tree (sceneAfter su v machine) ∧
        Unreported v' machine'.tree (sceneAfter su' v' machine')) := by
  by_cases hbroken : ∃ c ∈ casesOf sets, ∃ b, Verdict.ofCase c.1 c.2 = .error b
  · obtain ⟨c, hc, b, hb⟩ := hbroken
    obtain ⟨hstatus, unreported⟩ := unreported_of_broken ready (.refl _) hc hb
    obtain ⟨hstatus', unreported'⟩ := unreported_of_broken ready' same hc hb
    refine ⟨hstatus.trans hstatus'.symm, fun hall => ?_, fun _ => ⟨unreported, unreported'⟩⟩
    obtain ⟨verdict, hverdict⟩ := hall c hc
    rw [hb] at hverdict
    cases hverdict
  · have hall : ∀ c ∈ casesOf sets, ∃ verdict, Verdict.ofCase c.1 c.2 = .ok verdict := by
      intro c hc
      cases hverdict : Verdict.ofCase c.1 c.2 with
      | ok verdict => exact ⟨verdict, rfl⟩
      | error b => exact absurd ⟨c, hc, b, hverdict⟩ hbroken
    obtain ⟨verdicts, judged⟩ := exists_verdictsOn hall
    obtain ⟨hstatus, reported⟩ := reported_of_judged ready htimestamp (.refl _) distinct judged
    obtain ⟨hstatus', reported'⟩ := reported_of_judged ready' htimestamp' same distinct judged
    exact ⟨hstatus.trans hstatus'.symm, fun _ => ⟨_, reported, reported'⟩,
      fun h => absurd h hbroken⟩

/-- Two cases of one family. -/
def shortCase : FixtureCase := stringCase "short" "strlen" "s" "ab" "2"

/-- The case that comes first in a report. -/
def emptyCase : FixtureCase := stringCase "empty" "strlen" "s" "" "0"

def filedTogether : List (String × FixtureSet) :=
  [("all.json", ⟨"v1", "lengths", "", [shortCase, emptyCase]⟩)]

def filedApart : List (String × FixtureSet) :=
  [("e.json", ⟨"v1", "lengths", "", [emptyCase]⟩), ("b.json", ⟨"v2", "lengths", "", [shortCase]⟩)]

def timed : Verification := { writesAll with timestamp := some "2026-10-19T00:00:00Z" }

theorem ready_filedTogether :
    Ready foundAtWork timed (machineWith filedTogether).tree (filedTogether.map (·.2)) where
  runId := by decide
  fixtures := by
    have hcases : ∀ c ∈ [shortCase, emptyCase], c.Plain :=
      List.forall_mem_cons.2 ⟨plain_stringCase, List.forall_mem_singleton.2 plain_stringCase⟩
    exact .directory rfl rfl (.cons (holdsSet_of_render rfl hcases) .nil)
  nonempty := List.cons_ne_nil _ _
  sizes := by decide
  outputs := outputs_machineWith filedTogether

theorem ready_filedApart :
    Ready foundAtWork timed (machineWith filedApart).tree (filedApart.map (·.2)) where
  runId := by decide
  fixtures := by
    refine .directory rfl rfl (.cons ?_ (.cons ?_ .nil))
    · exact holdsSet_of_render rfl (List.forall_mem_singleton.2 plain_stringCase)
    · exact holdsSet_of_render rfl (List.forall_mem_singleton.2 plain_stringCase)
  nonempty := List.cons_ne_nil _ _
  sizes := by decide
  outputs := outputs_machineWith filedApart

theorem reports_independent_of_filing_sample :
    Ready foundAtWork timed (machineWith filedTogether).tree (filedTogether.map (·.2)) ∧
    Ready foundAtWork timed (machineWith filedApart).tree (filedApart.map (·.2)) ∧
    (casesOf (filedApart.map (·.2))).Perm (casesOf (filedTogether.map (·.2))) ∧
    ((casesOf (filedTogether.map (·.2))).map caseKey).Nodup ∧
    (∀ c ∈ casesOf (filedTogether.map (·.2)), ∃ verdict, Verdict.ofCase c.1 c.2 = .ok verdict) ∧
    ((machineWith filedTogether).run (runCommand foundAtWork (.verify timed))).1.status =
      ((machineWith filedApart).run (runCommand foundAtWork (.verify timed))).1.status ∧
    ∃ report, Reported timed report (sceneAfter foundAtWork timed (machineWith filedTogether)) ∧
      Reported timed report (sceneAfter foundAtWork timed (machineWith filedApart)) := by
  have same : (casesOf (filedApart.map (·.2))).Perm (casesOf (filedTogether.map (·.2))) :=
    .swap _ _ _
  have distinct : ((casesOf (filedTogether.map (·.2))).map caseKey).Nodup := by decide
  have hall : ∀ c ∈ casesOf (filedTogether.map (·.2)),
      ∃ verdict, Verdict.ofCase c.1 c.2 = .ok verdict :=
    List.forall_mem_cons.2 ⟨⟨_, rfl⟩, List.forall_mem_singleton.2 ⟨_, rfl⟩⟩
  have told := reports_independent_of_filing ready_filedTogether ready_filedApart rfl rfl same
    distinct
  exact ⟨ready_filedTogether, ready_filedApart, same, distinct, hall, told.1, told.2.1 hall⟩

end CText.CommandLine
