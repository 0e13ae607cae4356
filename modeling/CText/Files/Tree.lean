import CText.Fields
import CText.Files.Basic

/-!
# Trees of files as values

A tree holds directories and files, each under its location, which is the list of names that lead
to it from the root. Some files are sinks: they stay empty whatever is written. Paths are followed
name by name, every name but the last having to be that of a directory. There are no links, and
the time stands still.
-/

namespace CText

/-- The names that lead from the root to a place. -/
abbrev Location := List String

/-- A tree of files, seen from a working directory. -/
structure FileTree where
  directories : List Location
  files : List (Location × List UInt8)
  sinks : List Location
  workingDirectory : Location
  time : Nat

namespace FileTree

inductive Node where
  | directory
  | file (content : List UInt8)
  | absent
  deriving DecidableEq

def node (t : FileTree) (l : Location) : Node :=
  if l = [] ∨ t.directories.contains l then .directory
  else if t.sinks.contains l then .file []
  else match t.files.lookup l with
    | some content => .file content
    | none => .absent

/-- The location that one more name leads to. An empty name and a point stay in a directory, and
two points leave it. -/
def step (t : FileTree) (l : Location) (name : String) : Except FileFault Location :=
  match t.node l with
  | .file _ => .error .notADirectory
  | .absent => .error .notFound
  | .directory =>
    if name = "" ∨ name = "." then .ok l
    else if name = ".." then .ok l.dropLast
    else .ok (l ++ [name])

/-- The names in a path, some of them empty. -/
def namesOf (path : String) : List String :=
  (fields (· == '/') path.toList).map String.ofList

/-- The location that a path leads to. There need not be anything. -/
def locate (t : FileTree) (path : String) : Except FileFault Location :=
  if path = "" then .error .notFound
  else
    let start := if path.toList.head? = some '/' then [] else t.workingDirectory
    (namesOf path).foldlM t.step start

def read (t : FileTree) (path : String) : Except FileFault (List UInt8) := do
  match t.node (← t.locate path) with
  | .file content => return content
  | .directory => throw .isADirectory
  | .absent => throw .notFound

def isFile (t : FileTree) (path : String) : Bool :=
  match t.locate path with
  | .ok l => match t.node l with
    | .file _ => !t.sinks.contains l
    | _ => false
  | .error _ => false

/-- A tree with a file at a location, in the place of what was there. A sink is left as it is. -/
def insert (t : FileTree) (l : Location) (content : List UInt8) : FileTree :=
  if t.sinks.contains l then t
  else { t with files := (l, content) :: t.files.filter fun (k, _) => k ≠ l }

/-- A tree with an empty file under a path. Its directory has to be there. -/
def create (t : FileTree) (path : String) : Except FileFault FileTree := do
  let l ← t.locate path
  match t.node l with
  | .directory => throw .isADirectory
  | .file _ => return t.insert l []
  | .absent => match t.node l.dropLast with
    | .directory => return t.insert l []
    | _ => throw .notFound

/-- A tree in which bytes are written over the start of a file. -/
def overwrite (t : FileTree) (path : String) (content : List UInt8) : Except FileFault FileTree := do
  let before ← t.read path
  return t.insert (← t.locate path) (content ++ before.drop content.length)

def list (t : FileTree) (path : String) : Except FileFault (List String) := do
  let l ← t.locate path
  match t.node l with
  | .directory =>
    let inside := (t.directories ++ t.sinks ++ t.files.map (·.1)).filter fun k =>
      k ≠ [] ∧ k.dropLast = l
    return inside.filterMap (·.getLast?)
  | .file _ => throw .notADirectory
  | .absent => throw .notFound

def erase (t : FileTree) (l : Location) : FileTree :=
  { t with files := t.files.filter fun (k, _) => k ≠ l }

/-- The directories on the way to a location, the nearest last. -/
def above (l : Location) : List Location :=
  (List.range l.length).map l.take

/-- A tree with a file at a location and with the directories on the way to it. -/
def plant (t : FileTree) (l : Location) (content : List UInt8) : FileTree :=
  let t := t.insert l content
  { t with directories := t.directories ++ (above l).filter fun k => !t.directories.contains k }

/-- The tree with nothing but a working directory and the sink for bytes that nobody wants. -/
def empty (workingDirectory : Location) : FileTree where
  directories := ["dev"] :: above workingDirectory ++ [workingDirectory]
  files := []
  sinks := [["dev", "null"]]
  workingDirectory := workingDirectory
  time := 0

/-- Reads off an answer from a tree. -/
def ask {α : Type} (f : FileTree → α) : StateM FileTree α := fun t => (f t, t)

/-- Changes a tree, or leaves it if that fails. -/
def change (f : FileTree → Except FileFault FileTree) : StateM FileTree (Except FileFault Unit) :=
  fun t => match f t with
    | .ok t => (.ok (), t)
    | .error fault => (.error fault, t)

instance : Files (StateM FileTree) where
  read path := ask fun t => t.read path
  create path := change fun t => t.create path
  overwrite path content := change fun t => t.overwrite path content
  list path := ask fun t => t.list path
  isFile path := ask fun t => t.isFile path

instance : Clock (StateM FileTree) where
  now := ask time

end FileTree

end CText
