import CText.Conformance.Summary

/-!
# Reports

A report has a title, a time and a summary. It is written as a JSON text or as a page with two
tables, one of the families and one of the cases, after which the cases that failed are shown with
their differences.
-/

namespace CText.Conformance

structure Report where
  title : String
  timestamp : String
  summary : Summary

namespace Report

def toJson (r : Report) : Json :=
  .object [("title", .text r.title), ("timestamp", .text r.timestamp),
    ("summary", r.summary.toJson)]

def json (r : Report) : String := r.toJson.pretty

def row (cells : List String) : String := "| " ++ String.intercalate " | " cells ++ " |\n"

def heading (r : Report) : String :=
  s!"# {r.title}\n\n- Timestamp: {r.timestamp}\n- Total: {r.summary.total}\n" ++
    s!"- Passed: {r.summary.passed}\n- Failed: {r.summary.failed}\n\n"

def familyTable (r : Report) : String :=
  row ["Family", "Passed", "Failed"] ++ "|--------|--------|--------|\n" ++
    String.join (r.summary.byFamily.map fun t =>
      row [t.family, toString t.passed, toString t.failed])

def caseTable (r : Report) : String :=
  row ["Family", "Case", "Reference", "Status"] ++ "|--------|------|-----------|--------|\n" ++
    String.join (r.summary.verdicts.map fun v =>
      row [v.family, v.caseName, v.reference, if v.passed then "PASS" else "FAIL"])

def failure (v : Verdict) : String :=
  s!"\n### {v.family}/{v.caseName}\n\n" ++
    (if v.expectedErrno = v.actualErrno then ""
      else errnoNote v.expectedErrno v.actualErrno ++ "\n\n") ++
    match v.diff with
    | some d => "```diff\n" ++ d ++ "```\n"
    | none => ""

def failureList (r : Report) : String :=
  if r.summary.allPassed then ""
  else "\n## Failures\n" ++ String.join (r.summary.failures.map failure)

def markdown (r : Report) : String :=
  r.heading ++ r.familyTable ++ "\n" ++ r.caseTable ++ r.failureList

end Report

end CText.Conformance
