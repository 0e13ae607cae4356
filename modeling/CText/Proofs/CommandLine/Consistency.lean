import CText.Proofs.CommandLine.Verifying
import CText.Proofs.Conformance.Fixtures
import CText.Proofs.Conformance.Promises

/-!
# Verifications are consistent

The exit status of a verification, its log and its index tell the same story. Success is told just
if every case passed. The log has an entry for each case, for each set and for the whole, and the
index lists the reports and the log as they are in the end.
-/

namespace CText.CommandLine

open Conformance Log Machine Routine

variable {runId : String} {v : Verification} {sets loaded : List FixtureSet} {before after : Scene}
  {result : Except Failure Bool}

/-- The status of a verification tells success just if all cases pass. -/
theorem Verified.exitStatus_eq_zero_iff (h : Verified runId v loaded before result after)
    (hperm : loaded.Perm sets) :
    exitStatus (result.map statusOf) = 0 ↔ ∀ set ∈ sets, ∀ c ∈ set.cases, Passes set.family c := by
  have hcases : (casesOf loaded).Perm (casesOf sets) := hperm.flatMap_right _
  have hpasses : (∀ c ∈ casesOf loaded, Passes c.1 c.2) ↔
      ∀ set ∈ sets, ∀ c ∈ set.cases, Passes set.family c := by
    rw [← forall_mem_casesOf]
    exact forall_congr' fun c => by rw [hcases.mem_iff]
  rw [← hpasses]
  cases h with
  | @finished verdicts _ judged _ =>
    have hstatus (b : Bool) : statusOf b = 0 ↔ b = true := by
      cases b <;> decide
    exact (hstatus _).trans
      ((allPassed_iff (List.mergeSort_perm _ _)).trans (forall_passed_iff judged))
  | broken _ judged =>
    refine iff_of_false (Nat.succ_ne_zero 100) fun hall => ?_
    have hverdicts : ∀ c ∈ casesOf loaded, ∃ v, Verdict.ofCase c.1 c.2 = .ok v := fun c hc =>
      (hall c hc).imp fun _ => And.left
    obtain ⟨verdicts, hok⟩ := exists_verdictsOn hverdicts
    rw [judged] at hok
    cases hok

/-- If no case breaks a promise, a verification leaves what it should. -/
theorem Verified.leaves (h : Verified runId v loaded before result after)
    (hperm : loaded.Perm sets)
    (hverdicts : ∀ set ∈ sets, ∀ c ∈ set.cases, ∃ verdict,
      Verdict.ofCase set.family c = .ok verdict) :
    ∃ verdicts, verdictsOn (casesOf loaded) = .ok verdicts ∧
      Leaves runId v verdicts ((sets.flatMap (·.cases)).length + sets.length + 1) before after := by
  have hcases : (casesOf loaded).Perm (casesOf sets) := hperm.flatMap_right _
  cases h with
  | @finished verdicts _ judged leaves =>
    rw [hcases.length_eq, hperm.length_eq, length_casesOf] at leaves
    exact ⟨verdicts, judged, leaves⟩
  | broken _ judged =>
    have hall : ∀ c ∈ casesOf sets, ∃ verdict, Verdict.ofCase c.1 c.2 = .ok verdict :=
      (forall_mem_casesOf (P := fun family c => ∃ v, Verdict.ofCase family c = .ok v)).2 hverdicts
    obtain ⟨verdicts, hok⟩ := exists_verdictsOn fun c hc => hall c (hcases.mem_iff.1 hc)
    rw [judged] at hok
    cases hok

theorem lines_start_after (campaign runId : String) (entries : List Entry) :
    ((Emitter.start campaign runId).after entries).lines.toList = entries.map Entry.line := by
  simp [Emitter.after, Emitter.start]

/-- A log of proper entries is examined without a finding. -/
theorem examineFile_eq {machine : Machine} {path : String} {log : Emitter} {entries : List Entry}
    (hread : machine.tree.read path = .ok (Utf8.bytes log.text))
    (hlines : log.lines.toList = entries.map Entry.line) (proper : ∀ e ∈ entries, e.Proper) :
    (machine.run (examineFile path)).1 = .ok ⟨entries.length, []⟩ := by
  have hexamined : Runs (examineFile path) machine.tree fun result _ =>
      result = .ok ⟨entries.length, []⟩ := by
    refine Runs.bind (runs_readText hread (Utf8.text?_bytes _) (runs_pure ?_))
    rw [Except.map, examine_text hlines proper]
  exact hexamined machine rfl

/-- A verification of the sets in a file or a directory, with outputs to different places, ends with
success just if every case of every set passes. If all buffers that cases ask for can be made, the
log that is wanted holds one line more than there are cases and sets. Their numbers are those from
one on, each is read as the entry that was written, and the whole is examined without a finding. The
index that is wanted lists the reports and the log that are wanted, in this order, with the digests
and sizes of what they hold in the end, so that none of them is stale. -/
theorem verification_consistent {su : Surroundings} {v : Verification} {machine : Machine}
    {sets : List FixtureSet} (ready : Ready su v machine.tree sets) :
    let ended := machine.run (runCommand su (.verify v))
    (ended.1.status = 0 ↔ ∀ set ∈ sets, ∀ c ∈ set.cases, Passes set.family c) ∧
    ((∀ set ∈ sets, ∀ c ∈ set.cases, Held c.inputs ∧ Allocatable c.inputs c.function) →
      (∀ path, v.log = some path → ∃ entries : List Entry,
        entries.length = (sets.flatMap (·.cases)).length + sets.length + 1 ∧
        ended.2.tree.read path =
          .ok (Utf8.bytes (String.join (entries.map fun e => e.line ++ "\n"))) ∧
        (∀ (i : Nat) (e : Entry), entries[i]? = some e →
          e.traceId = campaign ++ "::" ++ su.runId ++ "::" ++
            String.ofList (Text.padded 3 (i + 1)) ∧
          '\n' ∉ e.line.toList ∧ readLine e.line = .ok e) ∧
        (ended.2.run (examineFile path)).1 = .ok ⟨entries.length, []⟩) ∧
      ∀ path, v.artifactIndex = some path → ∃ generated artifacts,
        let index : ArtifactIndex := ⟨su.runId, campaign, generated, artifacts⟩
        ended.2.tree.read path = .ok (Utf8.bytes index.render) ∧
        List.Forall₂ (Describes ended.2.tree) v.listed index.artifacts ∧
        (ended.2.run index.stalePaths).1 = []) := by
  intro ended
  have hled : Leads (verify su v) ⟨[], machine.tree⟩ _ := leads_verify ready
  obtain ⟨result, ⟨loaded, hperm, verified⟩, hstatus⟩ := runs_verify hled machine rfl
  refine ⟨?_, fun hbuffers => ?_⟩
  · rw [← verified.exitStatus_eq_zero_iff hperm, ← hstatus]
  obtain ⟨verdicts, -, leaves⟩ := verified.leaves hperm fun set hset c hc =>
    exists_verdict (hbuffers set hset c hc).1 (hbuffers set hset c hc).2 set.family
  constructor
  · intro path hpath
    obtain ⟨timestamp, entries, -, hcount, numbered, -, stands⟩ := leaves.told
    have hread := stands.log path hpath
    refine ⟨entries, hcount, ?_, fun i e he => ?_, ?_⟩
    · rw [hread, Emitter.text, lines_start_after, List.map_map]
      rfl
    · have proper := numbered.proper e (List.mem_of_getElem? he)
      refine ⟨?_, proper.lineFeed_notMem, proper.readLine_line⟩
      rw [numbered.traceId i e he, Nat.add_comm]
      rfl
    · exact examineFile_eq hread (lines_start_after campaign su.runId entries) numbered.proper
  · intro path hpath
    obtain ⟨generated, artifacts, hread, hdescribes⟩ := leaves.index path hpath
    exact ⟨generated, artifacts, hread, hdescribes, (runs_stalePaths hdescribes ended.2 rfl).2⟩

/-! ## Runs -/

/-- A machine with fixture files in a directory and with no other files. -/
def machineWith (files : List (String × FixtureSet)) : Machine where
  tree := {
    directories := [["work"], ["work", "fixtures"]]
    files := files.map fun file => (["work", "fixtures", file.1], Utf8.bytes file.2.render)
    sinks := []
    workingDirectory := ["work"]
    time := 0 }
  shown _ := 0
  looks := 0

def writesAll : Verification where
  fixture := "fixtures"
  report := some "report.md"
  json := some "report.json"
  log := some "log.jsonl"
  artifactIndex := some "index.json"
  timestamp := none

/-- What the program finds about itself in these runs. -/
def foundAtWork : Surroundings where
  environment := []
  directory := .ok (Utf8.bytes "/work")
  runId := "run-7"

/-- Nothing of what is to be written stands among the fixtures. -/
theorem outputs_machineWith (files : List (String × FixtureSet)) :
    (machineWith files).tree.Outputs writesAll.outputs := by
  have hlookup (name : String) : (machineWith files).tree.files.lookup ["work", name] = none := by
    rw [List.lookup_eq_none_iff]
    intro file hfile
    obtain ⟨found, -, rfl⟩ := List.mem_map.1 hfile
    refine bne_iff_ne.2 fun hplace => ?_
    cases hplace
  have places : writesAll.outputs.Forall fun path =>
      (machineWith files).tree.locate path = .ok ["work", path] ∧
        (machineWith files).tree.node ["work", path] = .absent := by
    refine ⟨⟨rfl, ?_⟩, ⟨rfl, ?_⟩, ⟨rfl, ?_⟩, ⟨rfl, ?_⟩⟩
    all_goals
      rw [FileTree.node, hlookup]
      rfl
  rw [List.forall_iff_forall_mem] at places
  constructor
  · intro path hpath
    obtain ⟨hlocate, hnode⟩ := places path hpath
    refine ⟨_, hlocate, rfl, ?_, fun _ => rfl⟩
    rw [hnode]
    exact FileTree.Node.noConfusion
  · have apart : writesAll.outputs.Nodup := by decide
    refine apart.imp_of_mem fun {path other} hpath hother hne heq => hne ?_
    rw [(places path hpath).1, (places other hother).1] at heq
    cases heq
    rfl

def stringCase (name function field text output : String) : FixtureCase :=
  ⟨name, function, "", .object [(field, .text text)], output, 0⟩

theorem plain_stringCase {name function field text output : String} :
    (stringCase name function field text output).Plain where
  inputs := .object (List.forall_mem_singleton.2 (.text text)) (List.pairwise_singleton _ _)
  errno := (by decide : InErrno 0)

/-- A file in which a set was written holds the set. -/
theorem holdsSet_of_render {t : FileTree} {path : String} {set : FixtureSet}
    (hread : t.read path = .ok (Utf8.bytes set.render)) (plain : ∀ c ∈ set.cases, c.Plain) :
    t.HoldsSet path set :=
  ⟨_, _, hread, Utf8.text?_bytes _, FixtureSet.read_render plain⟩

/-- Two sets of a case each, in a file each. -/
def twoFiles : List (String × FixtureSet) :=
  [("copies.json", ⟨"v1", "copies", "", [stringCase "kept" "strcpy" "src" "ab" "ab"]⟩),
    ("lengths.json", ⟨"v1", "lengths", "", [stringCase "short" "strlen" "s" "ab" "2"]⟩)]

theorem ready_twoFiles :
    Ready foundAtWork writesAll (machineWith twoFiles).tree (twoFiles.map (·.2)) where
  runId := by decide
  fixtures := by
    refine .directory rfl rfl (.cons ?_ (.cons ?_ .nil))
    · exact holdsSet_of_render rfl (List.forall_mem_singleton.2 plain_stringCase)
    · exact holdsSet_of_render rfl (List.forall_mem_singleton.2 plain_stringCase)
  nonempty := List.cons_ne_nil _ _
  sizes := by decide
  outputs := outputs_machineWith twoFiles

theorem verification_consistent_sample :
    let ended := (machineWith twoFiles).run (runCommand foundAtWork (.verify writesAll))
    Ready foundAtWork writesAll (machineWith twoFiles).tree (twoFiles.map (·.2)) ∧
    (∀ set ∈ twoFiles.map (·.2), ∀ c ∈ set.cases,
      Passes set.family c ∧ Held c.inputs ∧ Allocatable c.inputs c.function) ∧
    ended.1.status = 0 ∧
    (∃ entries : List Entry, entries.length = 5 ∧
      ended.2.tree.read "log.jsonl" =
        .ok (Utf8.bytes (String.join (entries.map fun e => e.line ++ "\n"))) ∧
      (ended.2.run (examineFile "log.jsonl")).1 = .ok ⟨5, []⟩) ∧
    ∃ index : ArtifactIndex, ended.2.tree.read "index.json" = .ok (Utf8.bytes index.render) ∧
      List.Forall₂ (Describes ended.2.tree) [("report.md", "report_markdown"),
        ("report.json", "report_json"), ("log.jsonl", "log_jsonl")] index.artifacts ∧
      (ended.2.run index.stalePaths).1 = [] := by
  intro ended
  have hcases : ∀ set ∈ twoFiles.map (·.2), ∀ c ∈ set.cases,
      Passes set.family c ∧ Held c.inputs ∧ Allocatable c.inputs c.function := by
    have hnone {function : String} {inputs : Json} (h : namedSize? inputs function = none) :
        Allocatable inputs function := by
      intro n hn
      rw [h] at hn
      cases hn
    refine List.forall_mem_cons.2 ⟨?_, List.forall_mem_singleton.2 ?_⟩
    · exact List.forall_mem_singleton.2 ⟨⟨_, rfl, rfl⟩, held_object (by decide), hnone rfl⟩
    · exact List.forall_mem_singleton.2 ⟨⟨_, rfl, rfl⟩, held_object (by decide), hnone rfl⟩
  obtain ⟨hstatus, hwritten⟩ := verification_consistent ready_twoFiles
  obtain ⟨hlog, hindex⟩ := hwritten fun set hset c hc => (hcases set hset c hc).2
  obtain ⟨entries, hcount, hread, -, hexamined⟩ := hlog "log.jsonl" rfl
  obtain ⟨generated, artifacts, hindex⟩ := hindex "index.json" rfl
  rw [hcount] at hexamined
  exact ⟨ready_twoFiles, hcases, hstatus.2 fun set hset c hc => (hcases set hset c hc).1,
    ⟨entries, hcount, hread, hexamined⟩, _, hindex⟩

theorem plain_vastSet : ∀ c ∈ vastSet.cases, c.Plain := by
  have hcount (n : Nat) (h : n < 2 ^ 64) : Json.Plain 123 (.ofNat n) := .whole ⟨by omega, by omega⟩
  refine List.forall_mem_singleton.2 ⟨.object ?_ (by decide), (by decide : InErrno 0)⟩
  rw [List.forall_mem_cons, List.forall_mem_cons, List.forall_mem_singleton]
  exact ⟨hcount _ (by decide), hcount _ (by decide), hcount _ (by decide)⟩

theorem runs_runLogged_vastSet {t : FileTree} (log : Emitter) :
    Runs (runLogged vastSet log) t fun ended t' =>
      t' = t ∧ ended = (log, .error .unaddressable) := by
  intro machine hmachine
  exact ⟨hmachine, rfl⟩

/-- Nothing but an empty log is left of a verification of the set. -/
theorem leads_verify_vastSet {s : Scene} (ready : Ready foundAtWork writesAll s.tree [vastSet]) :
    Leads (verify foundAtWork writesAll) s fun result s' =>
      result = .error (.violation .unaddressable) ∧ s'.tree = s.tree.store "log.jsonl" [] := by
  have outputs := ready.outputs
  refine Leads.bind (leads_note ?_)
  refine Leads.bind ((leads_loadSets ready.fixtures ready.nonempty).mono ?_)
  rintro _ s ⟨rfl, loaded, rfl, hperm⟩
  obtain ⟨⟨path, _⟩, rfl, rfl⟩ := List.map_eq_singleton_iff.1 (List.perm_singleton.1 hperm)
  refine Leads.bind (leads_act (runs_now fun started => ?_))
  refine Leads.bind (leads_openLog outputs Verification.log_mem ?_)
  refine Leads.bind (Leads.bind (leads_note (Leads.bind (leads_act ?_))))
  refine (runs_runLogged_vastSet _).mono ?_
  rintro _ tree ⟨rfl, rfl⟩
  refine leads_abandon (outputs.storeSome Verification.log_mem)
    Verification.log_mem (fun _ hp => ?_) ⟨rfl, ?_⟩
  · exact read_storeSome outputs (Verification.log_mem _ hp) hp []
  · exact outputs.storeSome_storeSome Verification.log_mem []

/-- Whatever else there is on a machine, the verification ends before its log is complete and before
there is an index. -/
theorem verify_vastSet {machine : Machine}
    (ready : Ready foundAtWork writesAll machine.tree [vastSet])
    (absent : machine.tree.read "index.json" = .error .notFound) :
    let ended := machine.run (runCommand foundAtWork (.verify writesAll))
    ended.1.status = 101 ∧ (ended.2.run (examineFile "log.jsonl")).1 = .ok ⟨0, []⟩ ∧
      ended.2.tree.read "index.json" = .error .notFound := by
  intro ended
  have outputs := ready.outputs
  obtain ⟨_, ⟨rfl, htree⟩, hstatus⟩ :=
    runs_verify (leads_verify_vastSet (s := ⟨[], machine.tree⟩) ready) machine rfl
  change ended.2.tree = _ at htree
  have hread : ended.2.tree.read "log.jsonl" =
      .ok (Utf8.bytes (Emitter.start campaign "").text) := by
    rw [htree]
    exact (outputs.writable _ (by decide)).read_store
  refine ⟨hstatus, examineFile_eq hread (lines_start_after campaign "" []) (List.forall_mem_nil _),
    ?_⟩
  rw [htree, ← absent]
  exact outputs.read_storeSome_ne Verification.log_mem (by decide) (by decide)

/-- A case that asks for a buffer that cannot be made ends a verification before its log is complete
and before there is an index. -/
theorem vast_case_ends_verification :
    let machine := machineWith [("fill.json", vastSet)]
    let ended := machine.run (runCommand foundAtWork (.verify writesAll))
    Ready foundAtWork writesAll machine.tree [vastSet] ∧ vastSet.cases.length = 1 ∧
      ended.1.status = 101 ∧ (ended.2.run (examineFile "log.jsonl")).1 = .ok ⟨0, []⟩ ∧
      ended.2.tree.read "index.json" = .error .notFound := by
  have holds : (machineWith [("fill.json", vastSet)]).tree.HoldsSets "fixtures" [vastSet] :=
    .directory rfl rfl (.cons (holdsSet_of_render rfl plain_vastSet) .nil)
  have ready : Ready foundAtWork writesAll (machineWith [("fill.json", vastSet)]).tree [vastSet] :=
    ⟨by decide, holds, List.cons_ne_nil _ _, by decide, outputs_machineWith _⟩
  exact ⟨ready, rfl, verify_vastSet ready rfl⟩

end CText.CommandLine
