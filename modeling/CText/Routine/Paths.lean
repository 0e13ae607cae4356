import CText.Checked.Path
import CText.Routine.Basic

/-!
# Routines on paths
-/

namespace CText.Routine

open Inputs

def ofPath (name : String) (f : List UInt8 → Except Violation (List UInt8)) : Routine :=
  ⟨name, ["path"], fun i => do
    let path ← bytes i "path"
    return .ok (showBytes (← kept (f path)))⟩

/-- A routine that resolves a file with a working directory and, perhaps, a reference. -/
def ofResolving (name : String)
    (f : List UInt8 → Option (List UInt8) → Except Escape.Failure (List UInt8) →
      Except Escape.Failure (List UInt8)) : Routine :=
  ⟨name, ["reference", "file", "cwd"], fun i => do
    let reference ← text? i "reference"
    let file ← bytes i "file"
    let cwd ← text i "cwd"
    settled ((f file (reference.map Utf8.bytes) (Checked.fixedDirectory (Utf8.bytes cwd))).map
      showBytes)⟩

def paths : List Routine :=
  [ofPath "cleanname" Checked.clean,
    ofPath "basename" Checked.basename,
    ofPath "dirname" Checked.dirname,
    ofResolving "abspath" Checked.absolute,
    ofResolving "relpath" Checked.relative]

end CText.Routine
