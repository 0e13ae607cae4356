import CText.Checked.Escape
import CText.Checked.Mode
import CText.Checked.Size
import CText.Mode.Printer
import CText.Routine.Basic

/-!
# Routines on modes, sizes and escapes
-/

namespace CText.Routine

open Inputs

def formName : Mode.Form → String
  | .numeric => "numeric"
  | .exact => "exact"
  | .clauses => "partial"

def styleOf (i : Json) : Except Trouble Mode.Style := do
  match ← text? i "style" with
  | none => return .symbolic
  | some "symbolic" => return .symbolic
  | some "with_type" => return .withType
  | some "clauses" => return .clauses
  | some other => throw (.input "style" (.unknownStyle other))

/-- The bytes of an input, or others if it is not given. -/
def marksOr (i : Json) (field : String) (default : List UInt8) :
    Except Trouble (List UInt8) := do
  match ← text? i field with
  | some s => return Utf8.bytes s
  | none => return default

def baseOf (i : Json) : Except Trouble (Option UInt32) :=
  match present? i "base" with
  | some _ => (octal i "base").map some
  | none => .ok none

def quoteOf (i : Json) : Except Trouble UInt8 :=
  match present? i "quote" with
  | some _ => byte i "quote"
  | none => .ok 0

/-- An update applied to a mode, or shown as it is if there is none. -/
def showUpdate (base : Option UInt32) (u : Mode.Update) : String :=
  match base with
  | some base => showBytes (Mode.octalText (u.apply base))
  | none => showBytes u.text

def codecs : List Routine :=
  [⟨"classifymode", ["s"], fun i => do
      let s ← text i "s"
      settled ((Checked.classify (Utf8.bytes s)).map formName)⟩,
    ⟨"machinemode", ["base", "s"], fun i => do
      let base ← baseOf i
      let s ← text i "s"
      settled ((Checked.parseMode (Utf8.bytes s)).map (showUpdate base))⟩,
    ⟨"humanmode", ["style", "mode"], fun i => do
      let style ← styleOf i
      let mode ← octal i "mode"
      return .ok (showBytes (Mode.render mode style))⟩,
    ⟨"machinesize", ["decimal_points", "grouping", "separators", "s", "units"], fun i => do
      let decimalPoints ← marksOr i "decimal_points" Size.Marks.standard.decimalPoints
      let grouping ← marksOr i "grouping" Size.Marks.standard.grouping
      let separators ← marksOr i "separators" Size.Marks.standard.separators
      let s ← text i "s"
      let base ← sizeBase i
      settled ((Checked.parseWith ⟨decimalPoints, grouping, separators⟩ base (Utf8.bytes s)).map
        fun n => toString n)⟩,
    ⟨"humansize", ["bytes", "units"], fun i => do
      let n ← count i "bytes"
      let base ← sizeBase i
      return .ok (showBytes (← kept (Checked.renderSize base n)))⟩,
    ⟨"escape", ["quote", "s"], fun i => do
      let quote ← quoteOf i
      let s ← cstring i "s"
      settled ((Checked.escape s quote).map showBytes)⟩,
    ⟨"unescape", ["s", "flags"], fun i => do
      let s ← cstring i "s"
      let flags ← escapeFlags i
      settled ((Checked.unescape s flags).map showBytes)⟩]

end CText.Routine
