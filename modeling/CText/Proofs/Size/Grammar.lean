import CText.Size.Basic
import Mathlib.Algebra.Group.Nat.Defs

/-!
# The grammar of sizes

A size text is a sum of summands, with whitespace or separators between neighbours and whitespace
at either end. A summand is a number, perhaps with a unit behind it; where there are several, each
has one. The grammar says which texts can be put together so, and nothing about how a text is taken
apart: that no text can be taken apart in two ways needs marks that cannot be mistaken for anything
else.
-/

namespace CText.Size

def unitBytes : List UInt8 := Ascii.bytes "KMGTPEZYkiIBb"

/-- The bytes with a meaning of their own. -/
def Marks.all (marks : Marks) : List UInt8 :=
  marks.decimalPoints ++ marks.grouping ++ marks.separators

/-- No mark has two meanings, and none is a digit, whitespace or part of a unit. -/
structure Marks.Distinct (marks : Marks) : Prop where
  points_grouping : ∀ c ∈ marks.decimalPoints, c ∉ marks.grouping
  points_separators : ∀ c ∈ marks.decimalPoints, c ∉ marks.separators
  grouping_separators : ∀ c ∈ marks.grouping, c ∉ marks.separators
  not_digit : ∀ c ∈ marks.all, Ascii.isDigit c = false
  not_space : ∀ c ∈ marks.all, Ascii.isSpace c = false
  not_unit : ∀ c ∈ marks.all, c ∉ unitBytes

/-- Digits, with at most one grouping byte between two of them. -/
inductive Grouped (marks : Marks) : List UInt8 → Prop where
  | digit {d : UInt8} : Ascii.isDigit d = true → Grouped marks [d]
  | next {d : UInt8} {s : List UInt8} :
      Ascii.isDigit d = true → Grouped marks s → Grouped marks (d :: s)
  | group {d g : UInt8} {s : List UInt8} :
      Ascii.isDigit d = true → g ∈ marks.grouping → Grouped marks s → Grouped marks (d :: g :: s)

/-- A number as it is written. Digits may be missing in front of the decimal point or behind it,
but not in both places. -/
structure Number (marks : Marks) where
  whole : List UInt8
  point : Option UInt8
  fraction : List UInt8
  whole_grouped : whole = [] ∨ Grouped marks whole
  point_mark : ∀ c ∈ point, c ∈ marks.decimalPoints
  fraction_digits : ∀ c ∈ fraction, Ascii.isDigit c = true
  fraction_pointed : point = none → fraction = []
  some_digit : whole ≠ [] ∨ fraction ≠ []

def Number.text {marks : Marks} (n : Number marks) : List UInt8 :=
  n.whole ++ (n.point.toList ++ n.fraction)

/-- The digits of a number in front of the decimal point. -/
def Number.digits {marks : Marks} (n : Number marks) : List UInt8 := n.whole.filter Ascii.isDigit

/-- The letters for powers of the base, and which power each of them is. -/
def powers : List (UInt8 × Nat) :=
  [(Ascii.byte 'K', 1), (Ascii.byte 'k', 1), (Ascii.byte 'M', 2), (Ascii.byte 'G', 3),
    (Ascii.byte 'T', 4), (Ascii.byte 'P', 5), (Ascii.byte 'E', 6), (Ascii.byte 'Z', 7),
    (Ascii.byte 'Y', 8)]

inductive UnitName where
  /-- The byte. -/
  | bytes (letter : UInt8) (hletter : letter ∈ Ascii.bytes "Bb")
  /-- A letter for a power, perhaps the mark of base 1024, perhaps the letter for bytes. -/
  | scaled (letter : UInt8) (power : Nat) (mark byte : Option UInt8)
      (hletter : (letter, power) ∈ powers) (hmark : ∀ c ∈ mark, c ∈ Ascii.bytes "iI")
      (hbyte : ∀ c ∈ byte, c ∈ Ascii.bytes "Bb")

namespace UnitName

def text : UnitName → List UInt8
  | bytes letter _ => [letter]
  | scaled letter _ mark byte _ _ _ => letter :: (mark.toList ++ byte.toList)

/-- How many bytes a unit is. -/
def factor (base : Base) : UnitName → Nat
  | bytes _ _ => 1
  | scaled _ power mark _ _ _ _ =>
    if mark.isSome ∨ base = .binary then 1024 ^ power else 1000 ^ power

end UnitName

inductive Summand (marks : Marks) where
  | bare (number : Number marks)
  | measured (number : Number marks) (blank : List UInt8) (unit : UnitName)
      (hblank : ∀ c ∈ blank, Ascii.isSpace c = true)

namespace Summand

variable {marks : Marks}

def text : Summand marks → List UInt8
  | bare number => number.text
  | measured number blank unit _ => number.text ++ (blank ++ unit.text)

def hasUnit : Summand marks → Bool
  | bare _ => false
  | measured _ _ _ _ => true

end Summand

/-- One or more summands, with what stands between them and behind the last. -/
inductive Summands (marks : Marks) where
  | last (summand : Summand marks) (trail : List UInt8)
      (htrail : ∀ c ∈ trail, Ascii.isSpace c = true)
  | join (summand : Summand marks) (between : List UInt8) (others : Summands marks)
      (hne : between ≠ [])
      (hbetween : ∀ c ∈ between, c ∈ marks.separators ∨ Ascii.isSpace c = true)

namespace Summands

variable {marks : Marks}

/-- The bytes of summands and of what stands between and behind them. -/
def text : Summands marks → List UInt8
  | last summand trail _ => summand.text ++ trail
  | join summand between others _ _ => summand.text ++ (between ++ others.text)

def toList : Summands marks → List (Summand marks)
  | last summand _ _ => [summand]
  | join summand _ others _ _ => summand :: others.toList

end Summands

/-- A size as it is written. A summand without a unit stands alone. -/
structure SizeText (marks : Marks) where
  lead : List UInt8
  summands : Summands marks
  lead_space : ∀ c ∈ lead, Ascii.isSpace c = true
  unit_unless_alone : 1 < summands.toList.length → ∀ t ∈ summands.toList, t.hasUnit = true

def SizeText.text {marks : Marks} (t : SizeText marks) : List UInt8 := t.lead ++ t.summands.text

def IsSize (marks : Marks) (s : List UInt8) : Prop := ∃ t : SizeText marks, t.text = s

end CText.Size
