import CText.Conformance.Report
import CText.Proofs.Conformance.Differences
import CText.Proofs.Conformance.Logging
import CText.Proofs.Conformance.Tallies
import CText.Proofs.Json.Plain

/-!
# Pages line by line

The page of a report is written line by line, as long as every failure has a difference, and it is
cut into these lines again if no line break stands in its title, its time and its names.
-/

namespace CText.Conformance

open Text

/-! ## The lines of a page -/

def openingFence : List Char := "```diff".toList

def closingFence : List Char := "```".toList

def headingLine (v : Verdict) : List Char :=
  "### ".toList ++ v.family.toList ++ '/' :: v.caseName.toList

def noteOf (v : Verdict) : List Char := (errnoNote v.expectedErrno v.actualErrno).toList

/-- The lines that tell the error numbers of a failure, if they differ. -/
def errnoLines (v : Verdict) : List (List Char) :=
  if v.expectedErrno = v.actualErrno then [] else [noteOf v, []]

/-- The lines of the block of code for a failure. -/
def blockLines (v : Verdict) : List (List Char) :=
  if v.actual = v.expected then [openingFence, noteOf v ++ closingFence]
  else openingFence :: (diffLines v.expected v.actual ++ [closingFence])

/-- The lines under the heading of a failure. -/
def underLines (v : Verdict) : List (List Char) := [] :: (errnoLines v ++ blockLines v)

def rowLine (cells : List String) : List Char :=
  "| ".toList ++ (String.intercalate " | " cells).toList ++ " |".toList

def countLines (r : Report) : List (List Char) :=
  ["# ".toList ++ r.title.toList, [], "- Timestamp: ".toList ++ r.timestamp.toList,
    "- Total: ".toList ++ (toString r.summary.total).toList,
    "- Passed: ".toList ++ (toString r.summary.passed).toList,
    "- Failed: ".toList ++ (toString r.summary.failed).toList, []]

/-- The lines of a table: its head, the rule under it, and a row for each item. -/
def tableLines {α : Type} (head : List String) (rule : String) (items : List α)
    (cells : α → List String) : List (List Char) :=
  rowLine head :: rule.toList :: items.map fun a => rowLine (cells a)

/-- The lines of a page in front of its failures. -/
def topLines (r : Report) : List (List Char) :=
  countLines r ++
  tableLines ["Family", "Passed", "Failed"] "|--------|--------|--------|" r.summary.byFamily
    (fun t => [t.family, toString t.passed, toString t.failed]) ++
  [[]] ++
  tableLines ["Family", "Case", "Reference", "Status"] "|--------|------|-----------|--------|"
    r.summary.verdicts
    (fun v => [v.family, v.caseName, v.reference, if v.passed then "PASS" else "FAIL"])

theorem writtenAs_row (cells : List String) : WrittenAs (Report.row cells) [rowLine cells] := by
  unfold WrittenAs Report.row rowLine
  simp

theorem writtenAs_rule (rule : String) : WrittenAs (rule ++ "\n") [rule.toList] := by
  simp [WrittenAs]

theorem writtenAs_table {α : Type} (head : List String) (rule : String) (items : List α)
    (cells : α → List String) : WrittenAs (Report.row head ++ (rule ++ "\n") ++
      String.join (items.map fun a => Report.row (cells a)))
    (tableLines head rule items cells) := by
  have hrows : WrittenAs (String.join (items.map fun a => Report.row (cells a)))
      (items.map fun a => rowLine (cells a)) := by
    rw [List.map_eq_flatMap (f := fun a => rowLine (cells a))]
    exact .join fun a _ => writtenAs_row (cells a)
  exact ((writtenAs_row head).append (writtenAs_rule rule)).append hrows

theorem writtenAs_heading (r : Report) : WrittenAs r.heading (countLines r) := by
  have h : r.heading = "# " ++ r.title ++ "\n\n- Timestamp: " ++ r.timestamp ++ "\n- Total: " ++
      toString r.summary.total ++ "\n" ++ ("- Passed: " ++ toString r.summary.passed ++
      "\n- Failed: " ++ toString r.summary.failed ++ "\n\n") := rfl
  rw [WrittenAs, h, countLines]
  simp

theorem writtenAs_top (r : Report) :
    WrittenAs (r.heading ++ r.familyTable ++ "\n" ++ r.caseTable) (topLines r) :=
  (((writtenAs_heading r).append (writtenAs_table _ "|--------|--------|--------|" _ _)).append
    (writtenAs_rule "")).append (writtenAs_table _ "|--------|------|-----------|--------|" _ _)

/-- A verdict that a case failed, with the difference of the outputs or else the note on the error
numbers. -/
structure Failing (v : Verdict) : Prop where
  failed : v.passed = false
  diff_eq : v.diff = some (if v.actual = v.expected then
    errnoNote v.expectedErrno v.actualErrno else diff v.expected v.actual)

theorem failing_of_ofCase {family : String} {c : FixtureCase} {v : Verdict}
    (h : Verdict.ofCase family c = .ok v) (failed : v.passed = false) : Failing v := by
  refine ⟨failed, ?_⟩
  obtain ⟨outcome, rfl, -⟩ := outcome_of_ofCase h
  by_cases houtput : outcome.output = c.expectedOutput
  · have herrno : outcome.errno ≠ c.expectedErrno := by
      simpa [Verdict.ofOutcome, houtput] using failed
    simp [Verdict.ofOutcome, differenceOf, houtput, herrno]
  · simp [Verdict.ofOutcome, differenceOf, houtput]

/-- A text that ends its last line leaves the closing fence a line of its own. -/
theorem writtenAs_closed {text : String} {lines : List (List Char)} (h : WrittenAs text lines) :
    WrittenAs ("```diff\n" ++ text ++ "```\n") (openingFence :: (lines ++ [closingFence])) := by
  have hopening : WrittenAs "```diff\n" [openingFence] := rfl
  have hclosing : WrittenAs "```\n" [closingFence] := rfl
  exact (hopening.append h).append hclosing

/-- A text without line ends does not. -/
theorem writtenAs_unclosed (note : String) :
    WrittenAs ("```diff\n" ++ note ++ "```\n") [openingFence, note.toList ++ closingFence] := by
  simp only [WrittenAs, String.toList_append, written_cons, written_nil, List.append_assoc]
  rfl

section

variable (v : Verdict)

theorem writtenAs_failureHeading :
    WrittenAs s!"\n### {v.family}/{v.caseName}\n\n" [[], headingLine v, []] := by
  have h : s!"\n### {v.family}/{v.caseName}\n\n" =
      "\n### " ++ v.family ++ "/" ++ v.caseName ++ "\n\n" := rfl
  unfold WrittenAs headingLine
  simp [h]

theorem writtenAs_errno : WrittenAs (if v.expectedErrno = v.actualErrno then ""
    else errnoNote v.expectedErrno v.actualErrno ++ "\n\n") (errnoLines v) := by
  rw [WrittenAs, errnoLines, noteOf]
  split <;> simp

theorem writtenAs_block : WrittenAs ("```diff\n" ++
    (if v.actual = v.expected then errnoNote v.expectedErrno v.actualErrno
      else diff v.expected v.actual) ++ "```\n") (blockLines v) := by
  rw [blockLines]
  split
  next => exact writtenAs_unclosed _
  next houtput => exact writtenAs_closed (writtenAs_diff (Ne.symm houtput))

theorem writtenAs_failure {v : Verdict} (h : Failing v) :
    WrittenAs (Report.failure v) ([] :: headingLine v :: underLines v) := by
  have hparts :=
    ((writtenAs_failureHeading v).append (writtenAs_errno v)).append (writtenAs_block v)
  unfold Report.failure
  rw [h.diff_eq]
  exact hparts

end

/-- The lines of a page from its first failure on. -/
def failureLines (r : Report) : List (List Char) :=
  if r.summary.failures = [] then []
  else [[], "## Failures".toList] ++
    r.summary.failures.flatMap fun v => [] :: headingLine v :: underLines v

theorem writtenAs_failureList {r : Report} (h : ∀ v ∈ r.summary.failures, Failing v) :
    WrittenAs r.failureList (failureLines r) := by
  rw [Report.failureList, failureLines]
  simp only [r.summary.allPassed_iff_failures]
  split
  · rfl
  · have htitle : WrittenAs "\n## Failures\n" [[], "## Failures".toList] := by
      simp [WrittenAs]
    exact htitle.append (.join fun v hv => writtenAs_failure (h v hv))

theorem writtenAs_markdown {r : Report} (h : ∀ v ∈ r.summary.failures, Failing v) :
    WrittenAs r.markdown (topLines r ++ failureLines r) :=
  (writtenAs_top r).append (writtenAs_failureList h)

/-! ## Single lines -/

/-- A report whose title, time and names have no line breaks. -/
structure SingleLined (r : Report) : Prop where
  title : '\n' ∉ r.title.toList
  timestamp : '\n' ∉ r.timestamp.toList
  family : ∀ v ∈ r.summary.verdicts, '\n' ∉ v.family.toList
  caseName : ∀ v ∈ r.summary.verdicts, '\n' ∉ v.caseName.toList
  reference : ∀ v ∈ r.summary.verdicts, '\n' ∉ v.reference.toList

theorem lineFeed_notMem_toString (n : Nat) : '\n' ∉ (toString n).toList :=
  Json.lineFeed_notMem_chars n

theorem noteOf_eq (v : Verdict) : noteOf v =
    "errno: expected ".toList ++ ((toString v.expectedErrno).toList ++
      (", got ".toList ++ (toString v.actualErrno).toList)) := by
  have h : errnoNote v.expectedErrno v.actualErrno =
      "errno: expected " ++ toString v.expectedErrno ++ ", got " ++ toString v.actualErrno := rfl
  rw [noteOf, h]
  simp only [String.toList_append, List.append_assoc]

theorem lineFeed_notMem_noteOf (v : Verdict) : '\n' ∉ noteOf v := by
  have hexpected : '\n' ∉ (toString v.expectedErrno).toList := Json.lineFeed_notMem_chars _
  have hactual : '\n' ∉ (toString v.actualErrno).toList := Json.lineFeed_notMem_chars _
  rw [noteOf_eq]
  simp only [List.mem_append, not_or]
  exact ⟨by decide, hexpected, by decide, hactual⟩

theorem notMem_intercalate {c : Char} {separator : List Char} {parts : List (List Char)}
    (hseparator : c ∉ separator) (h : ∀ part ∈ parts, c ∉ part) :
    c ∉ separator.intercalate parts := by
  induction parts with
  | nil => simp
  | cons part parts ih =>
    rw [List.forall_mem_cons] at h
    cases parts with
    | nil => simpa using h.1
    | cons next parts => simp [hseparator, h.1, ih h.2]

theorem lineFeed_notMem_rowLine {cells : List String} (h : ∀ cell ∈ cells, '\n' ∉ cell.toList) :
    '\n' ∉ rowLine cells := by
  have hcells : '\n' ∉ (String.intercalate " | " cells).toList := by
    rw [String.toList_intercalate]
    exact notMem_intercalate (by decide) (List.forall_mem_map.2 h)
  rw [rowLine]
  simp only [List.mem_append, not_or]
  exact ⟨⟨by decide, hcells⟩, by decide⟩

theorem lineFeed_notMem_tableLines {α : Type} {head : List String} {rule : String} {items : List α}
    {cells : α → List String} (hhead : ∀ cell ∈ head, '\n' ∉ cell.toList)
    (hrule : '\n' ∉ rule.toList) (h : ∀ a ∈ items, ∀ cell ∈ cells a, '\n' ∉ cell.toList) :
    ∀ line ∈ tableLines head rule items cells, '\n' ∉ line := by
  simp only [tableLines, List.forall_mem_cons, List.forall_mem_map]
  exact ⟨lineFeed_notMem_rowLine hhead, hrule, fun a ha => lineFeed_notMem_rowLine (h a ha)⟩

theorem lineFeed_notMem_blockLines (v : Verdict) : ∀ line ∈ blockLines v, '\n' ∉ line := by
  rw [blockLines]
  split
  · have hnote : '\n' ∉ noteOf v ++ closingFence := by
      rw [List.mem_append, not_or]
      exact ⟨lineFeed_notMem_noteOf v, by decide⟩
    exact List.forall_mem_cons.2 ⟨by decide, List.forall_mem_singleton.2 hnote⟩
  · simp only [List.forall_mem_cons, List.forall_mem_append]
    exact ⟨by decide, fun line => lineFeed_notMem_diffLines, by decide⟩

theorem lineFeed_notMem_underLines (v : Verdict) : ∀ line ∈ underLines v, '\n' ∉ line := by
  have herrno : ∀ line ∈ errnoLines v, '\n' ∉ line := by
    rw [errnoLines]
    split
    · simp
    · simp [lineFeed_notMem_noteOf]
  simp only [underLines, List.forall_mem_cons, List.forall_mem_append]
  exact ⟨List.not_mem_nil, herrno, lineFeed_notMem_blockLines v⟩

namespace SingleLined

variable {r : Report} (single : SingleLined r)

include single

theorem countLines : ∀ line ∈ countLines r, '\n' ∉ line := by
  simp only [Conformance.countLines, List.forall_mem_cons, List.mem_append, not_or]
  refine ⟨⟨by decide, single.title⟩, List.not_mem_nil, ⟨by decide, single.timestamp⟩,
    ⟨by decide, lineFeed_notMem_toString _⟩, ⟨by decide, lineFeed_notMem_toString _⟩,
    ⟨by decide, lineFeed_notMem_toString _⟩, by simp⟩

theorem topLines : ∀ line ∈ topLines r, '\n' ∉ line := by
  obtain ⟨families, counted⟩ := exists_counted r.summary.verdicts
  have hfamilies : ∀ t ∈ r.summary.byFamily, ∀ cell ∈ [t.family, toString t.passed,
      toString t.failed], '\n' ∉ cell.toList := by
    intro t ht
    have hfamily : t.family ∈ families := counted.map_family ▸ List.mem_map_of_mem ht
    obtain ⟨v, hv, hvfamily⟩ := (counted.mem_iff t.family).1 hfamily
    simp only [List.forall_mem_cons]
    exact ⟨hvfamily ▸ single.family v hv, lineFeed_notMem_toString _, lineFeed_notMem_toString _,
      nofun⟩
  have hcases : ∀ v ∈ r.summary.verdicts, ∀ cell ∈ [v.family, v.caseName, v.reference,
      if v.passed then "PASS" else "FAIL"], '\n' ∉ cell.toList := by
    intro v hv
    have hstatus : '\n' ∉ (if v.passed then "PASS" else "FAIL").toList := by
      cases v.passed <;> decide
    simp only [List.forall_mem_cons]
    exact ⟨single.family v hv, single.caseName v hv, single.reference v hv, hstatus, nofun⟩
  simp only [Conformance.topLines, List.forall_mem_append]
  exact ⟨⟨⟨single.countLines, lineFeed_notMem_tableLines (by decide) (by decide) hfamilies⟩,
    by simp⟩, lineFeed_notMem_tableLines (by decide) (by decide) hcases⟩

theorem failureLines : ∀ line ∈ failureLines r, '\n' ∉ line := by
  have hheading : ∀ v ∈ r.summary.failures, '\n' ∉ headingLine v := by
    intro v hv
    have hverdict := List.mem_of_mem_filter hv
    simp only [headingLine, List.mem_append, List.mem_cons, not_or]
    exact ⟨⟨by decide, single.family v hverdict⟩, by decide, single.caseName v hverdict⟩
  rw [Conformance.failureLines]
  split
  · simp
  · simp only [List.forall_mem_append, List.forall_mem_cons, List.forall_mem_flatMap]
    exact ⟨⟨List.not_mem_nil, by decide, nofun⟩, fun v hv =>
      ⟨List.not_mem_nil, hheading v hv, lineFeed_notMem_underLines v⟩⟩

/-- The lines of the page are those that are written. -/
theorem cut_markdown (h : ∀ v ∈ r.summary.failures, Failing v) :
    cut r.markdown = Conformance.topLines r ++ Conformance.failureLines r ++ [[]] :=
  (writtenAs_markdown h).cut_eq <|
    List.forall_mem_append.2 ⟨single.topLines, single.failureLines⟩

end SingleLined

end CText.Conformance
