import CText.CommandLine.Arguments
import CText.Mode.Printer
import CText.Size.Basic

/-!
# Commands

The first argument names a command, and the others are read by the grammar of that command.
-/

namespace CText.CommandLine

/-- What is to be verified, and what is to be written about it. -/
structure Verification where
  fixture : String
  report : Option String
  json : Option String
  log : Option String
  artifactIndex : Option String
  timestamp : Option String
  deriving DecidableEq

inductive Command where
  | verify (v : Verification)
  | mode (input : String) (base : Option String)
  | renderMode (bits : String) (style : Mode.Style)
  | size (input : String) (base : Option Size.Base)
  | renderSize (count : String) (base : Option Size.Base)
  | clean (path : String)
  | absolute (file : String) (reference : Option String)
  | relative (file : String) (reference : Option String)
  | escape (input : String) (quote : Option Char)
  | unescape (input : String) (keep drop raw : Bool)
  | validateLog (path : String)
  deriving DecidableEq

/-- Why no command is run: the arguments are not as they should be, or help is wanted, on a command
or in general. -/
inductive Usage where
  | misuse
  | help (command : Option String)
  deriving DecidableEq

def styles : List (String × Mode.Style) :=
  [("symbolic", .symbolic), ("with-type", .withType), ("clauses", .clauses)]

def bases : List (String × Size.Base) := [("decimal", .decimal), ("binary", .binary)]

/-- Where fixtures are unless it is said. -/
def standardFixture : String := "tests/conformance/fixtures"

namespace Command

/-- The names of the commands, in the order of the help, with their grammars. -/
def grammars : List (String × Grammar) :=
  [("verify", none, [],
      [("fixture", someText), ("report", someText), ("json", someText), ("log", someText),
        ("artifact-index", someText), ("timestamp", anyText)]),
    ("mode", some anyText, ["render"],
      [("style", oneOf (styles.map (·.1))), ("base", anyText)]),
    ("size", some anyText, ["render"], [("units", oneOf (bases.map (·.1)))]),
    ("clean", some anyText, [], []),
    ("abspath", some anyText, [], [("reference", anyText)]),
    ("relpath", some anyText, [], [("reference", anyText)]),
    ("escape", some anyText, [], [("quote", oneChar)]),
    ("unescape", some anyText, ["keep", "drop", "raw"], []),
    ("validate-log", some someText, [], [])].map
    fun (name, positional, flags, options) => (name, ⟨positional, flags, options⟩)

def make? (name : String) (a : Arguments) : Option Command :=
  let input := a.positional.getD ""
  match name with
  | "verify" => some (.verify {
      fixture := (a.get? "fixture").getD standardFixture
      report := a.get? "report"
      json := a.get? "json"
      log := a.get? "log"
      artifactIndex := a.get? "artifact-index"
      timestamp := a.get? "timestamp" })
  | "mode" =>
    if a.has "render" then
      some (.renderMode input (((a.get? "style").bind fun name => styles.lookup name).getD .symbolic))
    else some (.mode input (a.get? "base"))
  | "size" =>
    let base := (a.get? "units").bind fun name => bases.lookup name
    some (if a.has "render" then .renderSize input base else .size input base)
  | "clean" => some (.clean input)
  | "abspath" => some (.absolute input (a.get? "reference"))
  | "relpath" => some (.relative input (a.get? "reference"))
  | "escape" => some (.escape input ((a.get? "quote").bind fun s => s.toList.head?))
  | "unescape" => some (.unescape input (a.has "keep") (a.has "drop") (a.has "raw"))
  | "validate-log" => some (.validateLog input)
  | _ => none

/-- The help that is asked for by a command of its own: in general, on one command, or on that
command itself. -/
def helpOn : List String → Usage
  | [] => .help none
  | [name] =>
    if name = "help" ∨ (grammars.lookup name).isSome then .help (some name) else .misuse
  | _ => .misuse

def ofArguments (argv : List String) : Except Usage Command :=
  match argv with
  | [] => .error .misuse
  | name :: rest =>
    if name = "help" then .error (helpOn rest)
    else match grammars.lookup name with
      | some grammar => match grammar.read rest with
        | .ok a => match make? name a with
          | some command => .ok command
          | none => .error .misuse
        | .error .misuse => .error .misuse
        | .error .help => .error (.help (some name))
      | none => match Grammar.shapeOf name with
        | .short 'h' => .error (.help none)
        | .long "help" none => .error (.help none)
        | _ => .error .misuse

end Command

end CText.CommandLine
