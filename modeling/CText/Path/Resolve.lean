import CText.Error
import CText.Path.Basic
import CText.Reserve

/-!
# Absolute and relative paths

A path becomes absolute by being placed under a directory, and relative by being compared with one.
The working directory is a value: the bytes of a directory, or the failure to tell it. It is asked
for only where the answer depends on it.
-/

namespace CText.Path

/-- What is known of the working directory. -/
abbrev WorkingDirectory := Except Error (List UInt8)

/-- A working directory that is always the same. -/
def fixedDirectory (dir : List UInt8) : WorkingDirectory := do
  let dir := CString.content dir
  reserve 1 dir.length
  return dir

def join (dir file : List UInt8) : Except Error (List UInt8) := do
  reserve 1 (dir.length + 1 + file.length)
  return dir ++ slash :: file

/-- `file` as a clean absolute path: under the reference unless it is absolute, a relative reference
itself being under the working directory, which also serves if there is no reference. -/
def absolute (file : List UInt8) (reference : Option (List UInt8)) (cwd : WorkingDirectory) :
    Except Error (List UInt8) := do
  let file := CString.content file
  if isAbsolute file then
    reserve 1 file.length
    return clean file
  else match reference.map CString.content with
    | some dir =>
      if isAbsolute dir then return clean (← join dir file)
      else return clean (← join (← join (← cwd) dir) file)
    | none => return clean (← join (← cwd) file)

def commonLength : List (List UInt8) → List (List UInt8) → Nat
  | a :: s, b :: t => if a = b then commonLength s t + 1 else 0
  | _, _ => 0

/-- `file` as seen from the directory `reference`: up to the last common directory and down again.
Components are common only as a whole. -/
def relative (file : List UInt8) (reference : Option (List UInt8)) (cwd : WorkingDirectory) :
    Except Error (List UInt8) := do
  let file ← absolute file none cwd
  let reference ← absolute (reference.getD dot) none cwd
  let fileParts := components file
  let referenceParts := components reference
  let common := commonLength fileParts referenceParts
  let ups := referenceParts.length - common
  reserve 1 (ups * 3 + file.length)
  return ofComponents false (List.replicate ups dotdot ++ fileParts.drop common)

end CText.Path
