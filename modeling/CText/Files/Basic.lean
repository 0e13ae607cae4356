import CText.Text.Utf8

/-!
# Files and clocks

What a program asks of the machine that it runs on, as operations of a monad: files under path
names, and the time. A monad that keeps a tree of files as a value serves to reason, and one that
acts on the machine serves to run.
-/

namespace CText

inductive FileFault where
  | notFound
  | notADirectory
  | isADirectory
  /-- The bytes of a text file are no text. -/
  | invalidData
  /-- A reason that depends on the machine. -/
  | other
  deriving DecidableEq

def FileFault.message : FileFault → String
  | notFound => "no such file or directory"
  | notADirectory => "not a directory"
  | isADirectory => "is a directory"
  | invalidData => "not a text in UTF-8"
  | other => "input or output failed"

class Clock (m : Type → Type) where
  /-- The nanoseconds since the start of 1970. -/
  now : m Nat

class Files (m : Type → Type) where
  /-- The bytes of a file. -/
  read : (path : String) → m (Except FileFault (List UInt8))
  /-- Makes a file empty, be it there or not. -/
  create : (path : String) → m (Except FileFault Unit)
  /-- Writes over the start of a file that is there. -/
  overwrite : (path : String) → List UInt8 → m (Except FileFault Unit)
  /-- The names in a directory, in any order. -/
  list : (path : String) → m (Except FileFault (List String))
  /-- Whether there is a file, and no directory, under a path. -/
  isFile : (path : String) → m Bool

namespace Files

variable {m : Type → Type} [Monad m] [Files m]

/-- Puts bytes into a file, in the place of what it had. -/
def write (path : String) (content : List UInt8) : m (Except FileFault Unit) := do
  match ← create path with
  | .error fault => return .error fault
  | .ok () => overwrite path content

def readText (path : String) : m (Except FileFault String) := do
  match ← read path with
  | .error fault => return .error fault
  | .ok bytes => match Utf8.text? bytes with
    | some text => return .ok text
    | none => return .error .invalidData

def join (directory name : String) : String :=
  if directory.toList.getLast? = some '/' then directory ++ name else directory ++ "/" ++ name

/-- The part of a name after its last point, if there is one and it does not begin the name. -/
def extension? (name : String) : Option String :=
  let reversed := name.toList.reverse
  match reversed.dropWhile (· ≠ '.') with
  | _ :: _ :: _ => some (String.ofList (reversed.takeWhile (· ≠ '.')).reverse)
  | _ => none

end Files

end CText
