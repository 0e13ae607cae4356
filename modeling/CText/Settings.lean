import CText.Escape.Decode
import CText.Size.Parser
import CText.Text.Basic

/-!
# Defaults

Two variables of the environment choose what the codecs do when the caller does not say. A value
is compared without regard to case and to blanks around it, and a value that means nothing leaves
the default.
-/

namespace CText.Settings

def sizeVariable : String := "FERROLIBC_SIZE_UNITS"

def escapeVariable : String := "FERROLIBC_ESCAPE_UNKNOWN"

/-- The value of a variable as it is compared. -/
def normalize (value : String) : String :=
  String.ofList ((Text.trim value.toList).map fun c =>
    if 'A' ≤ c ∧ c ≤ 'Z' then Char.ofNat (c.toNat + 32) else c)

/-- The base that a value chooses, which is decimal unless it says otherwise. -/
def baseOfText (value : String) : Size.Base :=
  if ["iec", "binary", "jedec", "1024"].contains (normalize value) then .binary else .decimal

/-- What to do about an unknown escape. -/
inductive UnknownPolicy where
  | fail
  | keep
  | drop
  deriving DecidableEq

/-- The policy that a value chooses, which is to fail unless it says otherwise. -/
def UnknownPolicy.ofText (value : String) : UnknownPolicy :=
  let value := normalize value
  if ["keep", "verbatim"].contains value then .keep
  else if ["drop", "strip"].contains value then .drop
  else .fail

def UnknownPolicy.flags : UnknownPolicy → Escape.Flags
  | fail => .plain
  | keep => { Escape.Flags.plain with keepUnknown := true }
  | drop => { Escape.Flags.plain with dropUnknown := true }

/-- The value of a variable, empty if it is not set. -/
def lookup (environment : List (String × String)) (name : String) : String :=
  (environment.lookup name).getD ""

def sizeBase (environment : List (String × String)) : Size.Base :=
  baseOfText (lookup environment sizeVariable)

def unknownPolicy (environment : List (String × String)) : UnknownPolicy :=
  .ofText (lookup environment escapeVariable)

end CText.Settings
