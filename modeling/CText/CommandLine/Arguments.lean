/-!
# Arguments

An argument that begins with two hyphens is an option, and what follows it is its value unless it
is a mere flag; the value may also stand in the same argument after an equals sign. A value that
stands alone does not begin with a hyphen, unless it is nothing else. After two hyphens that stand
alone no argument is an option. Nothing may be given twice, and there is no abbreviation.
-/

namespace CText.CommandLine

/-- A test for the text of a value. -/
abbrev Check := String → Bool

def anyText : Check := fun _ => true

def someText : Check := fun s => s ≠ ""

def oneChar : Check := fun s => s.toList.length == 1

def oneOf (names : List String) : Check := fun s => names.contains s

/-- What may follow the name of a command. -/
structure Grammar where
  /-- The test for the one argument that is no option, if there has to be one. -/
  positional : Option Check
  flags : List String
  options : List (String × Check)

structure Arguments where
  positional : Option String
  flags : List String
  options : List (String × String)

/-- Why no command is run: the arguments are not as they should be, or help is wanted. -/
inductive Refusal where
  | misuse
  | help
  deriving DecidableEq

namespace Arguments

def none : Arguments := ⟨.none, [], []⟩

def has (a : Arguments) (flag : String) : Bool := a.flags.contains flag

def get? (a : Arguments) (option : String) : Option String := a.options.lookup option

end Arguments

namespace Grammar

def takePositional (g : Grammar) (a : Arguments) (s : String) : Except Refusal Arguments :=
  match g.positional, a.positional with
  | some check, none => if check s then .ok { a with positional := some s } else .error .misuse
  | _, _ => .error .misuse

def takeFlag (a : Arguments) (flag : String) : Except Refusal Arguments :=
  if a.has flag then .error .misuse else .ok { a with flags := flag :: a.flags }

def takeOption (check : Check) (a : Arguments) (option value : String) :
    Except Refusal Arguments :=
  if (a.get? option).isSome ∨ check value = false then .error .misuse
  else .ok { a with options := (option, value) :: a.options }

/-- An argument as it is read before it is understood. -/
inductive Shape where
  /-- Two hyphens. -/
  | separator
  /-- A name, and what stands after an equals sign if there is one. -/
  | long (name : String) (value : Option String)
  /-- The characters after a single hyphen. -/
  | short (first : Char)
  | plain
  deriving DecidableEq

def shapeOf (s : String) : Shape :=
  match s.toList with
  | ['-', '-'] => .separator
  | '-' :: '-' :: rest =>
    let name := String.ofList (rest.takeWhile (· ≠ '='))
    match rest.dropWhile (· ≠ '=') with
    | [] => .long name none
    | _ :: value => .long name (some (String.ofList value))
  | '-' :: first :: _ => .short first
  | _ => .plain

def takeRest (g : Grammar) (a : Arguments) (rest : List String) : Except Refusal Arguments :=
  rest.foldlM g.takePositional a

def readFrom (g : Grammar) (a : Arguments) : List String → Except Refusal Arguments
  | [] => .ok a
  | arg :: rest => match shapeOf arg with
    | .separator => g.takeRest a rest
    | .plain => do g.readFrom (← g.takePositional a arg) rest
    | .short first => if first = 'h' then .error .help else .error .misuse
    | .long name value =>
      if name = "help" ∨ g.flags.contains name then match value with
        | some _ => .error .misuse
        | none =>
          if name = "help" then .error .help else do g.readFrom (← takeFlag a name) rest
      else match g.options.lookup name, value with
        | none, _ => .error .misuse
        | some check, some value => do g.readFrom (← takeOption check a name value) rest
        | some check, none => match rest with
          | [] => .error .misuse
          | value :: rest =>
            if shapeOf value = .plain then do
              g.readFrom (← takeOption check a name value) rest
            else .error .misuse

def read (g : Grammar) (argv : List String) : Except Refusal Arguments := do
  let a ← g.readFrom .none argv
  if g.positional.isSome && a.positional.isNone then throw .misuse else return a

end Grammar

end CText.CommandLine
