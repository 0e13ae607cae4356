/-!
# Help texts

A help text says what a command is for, how it is called, and what its arguments mean. Arguments and
their meanings stand in two columns, or on two lines each where the first column would be too wide.
-/

namespace CText.CommandLine

/-- What can be said about a command or an argument: how it is written, and what it means. -/
structure Remark where
  form : String
  meaning : String

structure Topic where
  purpose : String
  usage : String
  arguments : List Remark
  options : List Remark

def programName : String := "ferrolibc-harness"

def columns (remarks : List Remark) : String :=
  let width := (remarks.map (·.form.length)).foldl max 0
  String.join (remarks.map fun r =>
    "  " ++ r.form ++ "".pushn ' ' (width - r.form.length) ++ "  " ++ r.meaning ++ "\n")

def twoLines (remarks : List Remark) : String :=
  String.join (remarks.map fun r => "  " ++ r.form ++ "\n          " ++ r.meaning ++ "\n")

/-- How wide the first column may become. -/
def widestForm : Nat := 32

def layOut (remarks : List Remark) : String :=
  if remarks.all fun r => r.form.length ≤ widestForm then columns remarks else twoLines remarks

/-- A part of a help text, if there is anything in it. -/
def part (title : String) (remarks : List Remark) : String :=
  if remarks.isEmpty then "" else "\n" ++ title ++ ":\n" ++ layOut remarks

def helpOption : Remark := ⟨"-h, --help", "Print help"⟩

/-- An option of two hyphens, written so that its hyphens are below those of the option for help. -/
def option (form meaning : String) : Remark := ⟨"    --" ++ form, meaning⟩

def topics : List (String × Topic) :=
  [("verify",
      ⟨"Verify the implementation against fixture files", " [OPTIONS]", [],
        [option "fixture <FIXTURE>"
            "Fixture JSON file, or a directory of them [default: tests/conformance/fixtures]",
          option "report <REPORT>" "Output report path (markdown)",
          option "json <JSON>" "Output report path (JSON)",
          option "log <LOG>" "Structured JSONL log path",
          option "artifact-index <ARTIFACT_INDEX>"
            "Artifact index path; records digests of the reports and log",
          option "timestamp <TIMESTAMP>"
            "Optional fixed timestamp string for deterministic report generation",
          helpOption]⟩),
    ("mode",
      ⟨"Parse a file mode, or render one with --render", " [OPTIONS] <INPUT>",
        [⟨"<INPUT>",
          "Mode text (`755`, `u+x,go-w`, `-rwxr-xr-x`), or octal bits with --render"⟩],
        [option "render" "Treat the input as octal bits and print a human form",
          option "style <STYLE>" ("Output style for --render [default: symbolic] " ++
            "[possible values: symbolic, with-type, clauses]"),
          option "base <BASE>" "Apply the parsed update to this octal base mode",
          helpOption]⟩),
    ("size",
      ⟨"Parse a byte size, or render one with --render", " [OPTIONS] <INPUT>",
        [⟨"<INPUT>", "Size text (`1.5 GiB`, `2M + 512K`), or a byte count with --render"⟩],
        [option "render" "Treat the input as a byte count and print a human form",
          option "units <UNITS>" ("Unit interpretation; defaults to FERROLIBC_SIZE_UNITS " ++
            "[possible values: decimal, binary]"),
          helpOption]⟩),
    ("clean",
      ⟨"Lexically clean a path", " <PATH>", [⟨"<PATH>", ""⟩], [helpOption]⟩),
    ("abspath",
      ⟨"Make a path absolute against the working directory", " [OPTIONS] <FILE>",
        [⟨"<FILE>", ""⟩],
        [option "reference <REFERENCE>" "Directory a relative path is resolved under",
          helpOption]⟩),
    ("relpath",
      ⟨"Express a path relative to a directory", " [OPTIONS] <FILE>", [⟨"<FILE>", ""⟩],
        [option "reference <REFERENCE>"
            "Directory to be relative to; defaults to the working directory",
          helpOption]⟩),
    ("escape",
      ⟨"Backslash-escape a string", " [OPTIONS] <INPUT>", [⟨"<INPUT>", ""⟩],
        [option "quote <QUOTE>" "Punctuation byte to escape as well, e.g. '\"'", helpOption]⟩),
    ("unescape",
      ⟨"Decode backslash escapes; writes raw bytes to stdout", " [OPTIONS] <INPUT>",
        [⟨"<INPUT>", ""⟩],
        [option "keep" "Keep unknown escapes verbatim",
          option "drop" "Drop the backslash of unknown escapes",
          option "raw" "Write decoded values as single bytes instead of UTF-8",
          helpOption]⟩),
    ("validate-log",
      ⟨"Validate a structured JSONL log file", " <PATH>", [⟨"<PATH>", ""⟩], [helpOption]⟩),
    ("help",
      ⟨"Print this message or the help of the given subcommand(s)", " [COMMAND]...",
        [⟨"[COMMAND]...", "Print help for the subcommand(s)"⟩], []⟩)]

def Topic.text (name : String) (t : Topic) : String :=
  t.purpose ++ "\n\nUsage: " ++ programName ++ " " ++ name ++ t.usage ++ "\n" ++
    part "Arguments" t.arguments ++ part "Options" t.options

/-- The help in general. -/
def overview : String :=
  "Conformance testing harness and codec tools for ferrolibc\n\nUsage: " ++ programName ++
    " <COMMAND>\n" ++ part "Commands" (topics.map fun (name, t) => ⟨name, t.purpose⟩) ++
    part "Options" [helpOption]

def helpText : Option String → String
  | some name => match topics.lookup name with
    | some t => t.text name
    | none => overview
  | none => overview

end CText.CommandLine
