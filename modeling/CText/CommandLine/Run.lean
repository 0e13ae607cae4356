import CText.CommandLine.Help
import CText.CommandLine.Verify
import CText.Log.Contract

/-!
# Running the command line
-/

namespace CText.CommandLine

open Job

section

variable {m : Type → Type} [Monad m] [Files m] [Clock m]

/-- Validates a log: each finding is a line to the side, and the counts are the output. -/
def validateLog (path : String) : Job m Bool := do
  let examined ← withFiles (Log.examineFile path)
  examined.findings.forM fun f => note f.message
  print s!"{examined.lines} lines, {examined.findings.length} errors\n"
  return examined.findings.isEmpty

/-- The exit status of a command that finds everything in order, or not. -/
def statusOf (inOrder : Bool) : Nat := if inOrder then 0 else 1

def runCommand (s : Surroundings) (command : Command) : m Answer :=
  match command, line? s command with
  | .verify v, _ => answer (statusOf <$> verify s v)
  | .validateLog path, _ => answer (statusOf <$> validateLog path)
  | _, some line => return .ofLine line
  | _, none => return .misuse

def run (s : Surroundings) (argv : List String) : m Answer :=
  match Command.ofArguments argv with
  | .ok command => runCommand s command
  | .error .misuse => return .misuse
  | .error (.help command) => return ⟨Utf8.bytes (helpText command), [], 0, none⟩

end

end CText.CommandLine
