import CText.Conformance.Verdict

/-!
# Summaries

A summary counts the verdicts of a run, in total and for each family. Families are sorted by their
names.
-/

namespace CText.Conformance

structure Tally where
  family : String
  passed : Nat
  failed : Nat
  deriving DecidableEq

/-- Counts a verdict in a list of tallies sorted by family. -/
def count (v : Verdict) : List Tally → List Tally
  | [] => [⟨v.family, v.passed.toNat, (!v.passed).toNat⟩]
  | t :: rest =>
    if v.family < t.family then ⟨v.family, v.passed.toNat, (!v.passed).toNat⟩ :: t :: rest
    else if v.family = t.family then
      { t with passed := t.passed + v.passed.toNat, failed := t.failed + (!v.passed).toNat } :: rest
    else t :: count v rest

/-- Verdicts of a run in the order of a report. -/
structure Summary where
  verdicts : List Verdict

namespace Summary

def total (s : Summary) : Nat := s.verdicts.length

def passed (s : Summary) : Nat := s.verdicts.countP (·.passed)

def failed (s : Summary) : Nat := s.total - s.passed

def allPassed (s : Summary) : Bool := s.failed == 0

/-- The verdicts on the cases that failed. -/
def failures (s : Summary) : List Verdict := s.verdicts.filter (!·.passed)

def byFamily (s : Summary) : List Tally := s.verdicts.foldl (fun tallies v => count v tallies) []

def toJson (s : Summary) : Json :=
  .object [("total", .ofNat s.total), ("passed", .ofNat s.passed), ("failed", .ofNat s.failed),
    ("results", .list (s.verdicts.map Verdict.toJson))]

end Summary

/-- Whether a verdict comes before another, or may do so, by family and then by name. -/
def Verdict.before (v w : Verdict) : Bool :=
  v.family < w.family || v.family == w.family && v.caseName ≤ w.caseName

/-- Verdicts in the order of a report. Verdicts on cases of the same family and name stay in the
order of the run. -/
def inOrder (verdicts : List Verdict) : List Verdict := verdicts.mergeSort Verdict.before

end CText.Conformance
