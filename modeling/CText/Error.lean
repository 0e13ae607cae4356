/-!
# Failures

Two kinds of failure are kept apart. An `Error` is an answer: the input was read and cannot be
served, and there is an error number for it. A `Violation` is a broken promise of the caller, such
as a destination that is too small; no answer is given and no buffer is changed.
Not finding something is neither, and is `none` throughout.
-/

namespace CText

/-- What is wrong with a text that is no mode, size or escaped string. -/
inductive Malformed where
  | emptyMode
  | unrecognizedMode
  | modeTooLarge
  | badPermission
  | emptyClause
  | classRepeated
  | missingOperator
  | emptySize
  | missingNumber
  | danglingSeparator
  | unjoinedTerms
  | unitlessTerm
  | badQuote
  | octalTooLarge
  | missingHexDigits
  | badBracedScalar
  | shortScalarDigits
  | longScalarDigits
  | badCaret
  | notScalar
  | scalarTooLarge
  | unknownEscape
  deriving DecidableEq

def Malformed.message : Malformed → String
  | emptyMode => "empty mode"
  | unrecognizedMode => "unrecognized mode syntax"
  | modeTooLarge => "octal mode above 07777"
  | badPermission => "bad permission letter"
  | emptyClause => "empty clause"
  | classRepeated => "class changed twice"
  | missingOperator => "expected +, - or ="
  | emptySize => "empty size"
  | missingNumber => "expected a number"
  | danglingSeparator => "dangling term separator"
  | unjoinedTerms => "terms must be joined by '+' or whitespace"
  | unitlessTerm => "number without unit mixed with other terms"
  | badQuote => "quote must be ASCII punctuation"
  | octalTooLarge => "octal escape above \\377"
  | missingHexDigits => "\\x without hex digits"
  | badBracedScalar => "malformed \\u\x7b...\x7d escape"
  | shortScalarDigits => "\\u needs four hex digits"
  | longScalarDigits => "\\U needs eight hex digits"
  | badCaret => "bad caret escape"
  | notScalar => "not a Unicode scalar value"
  | scalarTooLarge => "code point above 0xFF in raw mode"
  | unknownEscape => "unknown escape"

/-- The failures of the codecs, the path functions and the allocator. -/
inductive Error where
  /-- The text is not in the language read; `offset` is the byte at which that shows. -/
  | invalidFormat (what : Malformed) (offset : Nat)
  /-- The value is well written and does not fit. -/
  | outOfRange
  /-- No buffer of `requested` bytes can be had. -/
  | allocationFailure (requested : Nat)
  /-- The working directory cannot be told. -/
  | currentDirectory (errno : Int)
  deriving DecidableEq

namespace Error

/-- The error number that goes with a failure, a signed one of 32 bits. -/
def errno : Error → Int
  | invalidFormat _ _ => 22
  | outOfRange => 34
  | allocationFailure _ => 12
  | currentDirectory n => (Int32.ofInt n).toInt

def message : Error → String
  | invalidFormat what offset => s!"invalid format: {what.message} at offset {offset}"
  | outOfRange => "value out of range"
  | allocationFailure requested => s!"allocation of {requested} bytes failed"
  | currentDirectory n => s!"current directory unavailable (errno {n})"

end Error

/-- The symbolic name of an error number, for those in use here. -/
def errnoName : Int → Option String
  | 2 => some "ENOENT"
  | 5 => some "EIO"
  | 12 => some "ENOMEM"
  | 13 => some "EACCES"
  | 22 => some "EINVAL"
  | 34 => some "ERANGE"
  | _ => none

/-- An operation on numbers of a fixed width. -/
inductive Arithmetic where
  | addition
  | subtraction
  | multiplication
  deriving DecidableEq

def Arithmetic.verb : Arithmetic → String
  | addition => "add"
  | subtraction => "subtract"
  | multiplication => "multiply"

/-- A promise that the caller of a routine did not keep. -/
inductive Violation where
  /-- A destination of `room` units cannot take a string of `length` units and its terminator. -/
  | noRoomToCopy (routine : String) (room length : Nat)
  /-- A destination of `room` units cannot take a joined string of `total` units. -/
  | noRoomToAppend (routine : String) (room total : Nat)
  /-- The unit searched for was promised to be present and is not. -/
  | absentNeedle (needle : Nat)
  /-- A unit at `index` is wanted of a buffer of `length` units. -/
  | indexPastEnd (index length : Nat)
  /-- A range begins past the end of a buffer of `length` units. -/
  | startPastEnd (start length : Nat)
  /-- A range begins in a buffer of `length` units and ends past its end. -/
  | stopPastEnd (stop length : Nat)
  /-- A range begins in a buffer after the place where it ends. -/
  | startPastStop (start stop : Nat)
  /-- Units are copied to a range that is not as long as they are. -/
  | lengthsDiffer (source destination : Nat)
  /-- Windows of no units at all were asked for. -/
  | emptyWindow
  /-- An operation has a result that its width cannot hold. -/
  | overflow (operation : Arithmetic)
  /-- A write cursor overtook the read cursor of the same buffer. -/
  | cursorOvertaken
  /-- A buffer of more units than can be addressed was asked for. -/
  | unaddressable
  deriving DecidableEq

def Violation.message : Violation → String
  | noRoomToCopy routine room length =>
    s!"{routine}: destination buffer too small ({room} units for {length} unit string + NUL)"
  | noRoomToAppend routine room total =>
    s!"{routine}: destination buffer too small ({room} units for {total} unit result + NUL)"
  | absentNeedle needle => s!"needle {needle} is not present"
  | indexPastEnd index length =>
    s!"index out of bounds: the len is {length} but the index is {index}"
  | startPastEnd start length =>
    s!"range start index {start} out of range for slice of length {length}"
  | stopPastEnd stop length => s!"range end index {stop} out of range for slice of length {length}"
  | startPastStop start stop => s!"slice index starts at {start} but ends at {stop}"
  | lengthsDiffer source destination =>
    s!"copy_from_slice: source slice length ({source}) does not match destination slice length "
      ++ s!"({destination})"
  | emptyWindow => "window size must be non-zero"
  | overflow operation => s!"attempt to {operation.verb} with overflow"
  | cursorOvertaken => "assertion failed: w <= r"
  | unaddressable => "capacity overflow"

/-! ## Answers put to use -/

theorem exists_of_map_eq_ok {ε α β : Type} {r : Except ε α} {f : α → β} {b : β}
    (h : r.map f = .ok b) : ∃ a, r = .ok a ∧ f a = b := by
  cases r with
  | error e => cases h
  | ok a =>
    cases h
    exact ⟨a, rfl, rfl⟩

theorem eq_error_of_map {ε α β : Type} {r : Except ε α} {f : α → β} {e : ε}
    (h : r.map f = .error e) : r = .error e := by
  cases r with
  | error e' =>
    cases h
    rfl
  | ok a => cases h

end CText
