import CText.Conformance.Fixture
import CText.Files.Basic

/-!
# Loading fixtures

A path names a file with one set, or a directory all of whose files with the extension `json` hold
sets. These are loaded in the order of their names, and the first that cannot be loaded ends the
loading.
-/

namespace CText.Conformance

inductive LoadFault where
  | file (fault : FileFault)
  | json (fault : Json.Fault)
  deriving DecidableEq

structure LoadedSet where
  path : String
  set : FixtureSet

/-- Whether a file of a directory holds a set, to judge by its name. -/
def holdsSet (name : String) : Bool := Files.extension? name == some "json"

section

variable {m : Type → Type} [Monad m] [Files m]

def loadFile (path : String) : m (Except LoadFault LoadedSet) := do
  match ← Files.readText path with
  | .error fault => return .error (.file fault)
  | .ok text => match FixtureSet.read text with
    | .error fault => return .error (.json fault)
    | .ok set => return .ok ⟨path, set⟩

def loadFiles : List String → m (Except LoadFault (List LoadedSet))
  | [] => return .ok []
  | path :: rest => do
    match ← loadFile path with
    | .error fault => return .error fault
    | .ok set => return (← loadFiles rest).map (set :: ·)

/-- Loads the set in a file or the sets in a directory. -/
def loadAll (path : String) : m (Except LoadFault (List LoadedSet)) := do
  if ← Files.isFile path then loadFiles [path]
  else match ← Files.list path with
    | .error fault => return .error (.file fault)
    | .ok names =>
      let chosen := (names.filter holdsSet).mergeSort fun a b => a ≤ b
      loadFiles (chosen.map (Files.join path))

end

end CText.Conformance
