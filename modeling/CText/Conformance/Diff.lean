import CText.Text.Basic

/-!
# Differences of two texts

The lines of two texts are compared by their position. A text that has no line at a position
counts as having an empty one there, so an inserted line changes every line after it.
-/

namespace CText.Conformance

/-- A position, counted from one, at which two texts have different lines. -/
structure Change where
  line : Nat
  expected : List Char
  actual : List Char
  deriving DecidableEq

def changeAt (line : Nat) (expected actual : List Char) : List Change :=
  if expected = actual then [] else [⟨line, expected, actual⟩]

/-- The changes between lists of lines of which the first stand at a given position. -/
def changesFrom (line : Nat) : (expected actual : List (List Char)) → List Change
  | [], [] => []
  | e :: es, [] => changeAt line e [] ++ changesFrom (line + 1) es []
  | [], a :: as => changeAt line [] a ++ changesFrom (line + 1) [] as
  | e :: es, a :: as => changeAt line e a ++ changesFrom (line + 1) es as

def changes (expected actual : List Char) : List Change :=
  changesFrom 1 (Text.lines expected) (Text.lines actual)

def Change.chars (c : Change) : List Char :=
  "@@ line ".toList ++ (toString c.line).toList ++ " @@\n-".toList ++ c.expected ++ "\n+".toList
    ++ c.actual ++ ['\n']

/-- The difference of two texts as it is shown. Texts that differ only in how their lines end have
a difference without changes. -/
def diff (expected actual : String) : String :=
  if expected = actual then "[identical]"
  else "--- expected\n+++ actual\n" ++
    String.ofList ((changes expected.toList actual.toList).flatMap Change.chars)

end CText.Conformance
