import CText.CommandLine.Run
import Std.Time.DateTime.Timestamp

/-!
# The program

The command line on the machine: its files, its clock, its environment and its streams.
-/

namespace CText.Main

def faultOf : IO.Error → FileFault
  | .noFileOrDirectory _ _ _ => .notFound
  | .inappropriateType _ _ _ => .notADirectory
  | _ => .other

/-- Does something and catches its failure. -/
def attempt {α : Type} (x : IO α) : IO (Except FileFault α) := do
  match ← x.toBaseIO with
  | .ok a => return .ok a
  | .error e => return .error (faultOf e)

instance : Clock IO where
  now := do
    let t ← Std.Time.Timestamp.now
    return t.toNanosecondsSinceUnixEpoch.val.toNat

instance : Files IO where
  read path := attempt do return (← IO.FS.readBinFile path).toList
  create path := attempt (IO.FS.withFile path .write fun _ => return ())
  overwrite path content :=
    attempt (IO.FS.withFile path .readWrite fun h => h.write content.toByteArray)
  list path := attempt do
    let place ← IO.FS.realPath path
    return (← place.readDir).toList.map (·.fileName)
  isFile path := do
    let found ← attempt do
      let place ← IO.FS.realPath path
      return (← place.metadata).type == .file
    return found.toOption.getD false

/-- The working directory, or the reason why it cannot be told. -/
def workingDirectory : IO Path.WorkingDirectory := do
  match ← IO.currentDir.toBaseIO with
  | .ok directory => return Path.fixedDirectory (Utf8.bytes directory.toString)
  | .error (.permissionDenied _ _ _) => return .error (.currentDirectory 13)
  | .error _ => return .error (.currentDirectory 2)

/-- The variables of the environment that matter. -/
def environment : IO (List (String × String)) :=
  [Settings.sizeVariable, Settings.escapeVariable].filterMapM fun name => do
    return (← IO.getEnv name).map (name, ·)

/-- A name for the run: the number of the process. -/
def runId : IO String := do
  match ← attempt (IO.FS.readFile "/proc/self/stat") with
  | .ok status => return "run-" ++ String.ofList (status.toList.takeWhile Char.isDigit)
  | .error _ => return "run-0"

end CText.Main

def main (argv : List String) : IO UInt32 := do
  let surroundings : CText.CommandLine.Surroundings :=
    ⟨← CText.Main.environment, ← CText.Main.workingDirectory, ← CText.Main.runId⟩
  let answer ← CText.CommandLine.run surroundings argv
  (← IO.getStderr).putStr answer.sideText
  (← IO.getStdout).write answer.output.toByteArray
  return answer.status.toUInt32
