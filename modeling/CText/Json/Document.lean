import CText.Json.Value
import CText.Text.Utf8

/-!
# JSON texts as far as they can be read

A text is first taken apart into a document, without regard to what it should hold. A document
keeps its members in the order of the text and may break off: then it ends in a broken part that
tells what is wrong there. What a reader of a document finds wrong first, going through it from
the start, is therefore what is wrong first in the text.

A part of a text can also be passed over without being understood. That accepts a little more than
reading does: escapes of half a character, and numbers that are too large. Where a text breaks off
there are two faults then, one for reading the place and one for passing over it.
-/

namespace CText.Json

/-- What is wrong with a text: it ends too early, it is no JSON, or it is JSON of another shape than
was asked for. -/
inductive Fault where
  | ended
  | malformed
  | mistyped
  deriving DecidableEq

/-- How a list or an object ends: closed, or broken off between two of its parts. -/
inductive Ending where
  | closed
  | cut (reading passing : Fault)
  deriving DecidableEq

/-- A JSON text as far as it can be taken apart. -/
inductive Document where
  | null
  | bool (b : Bool)
  /-- A number, unless it is too large. -/
  | number (n : Option Number)
  /-- A text, unless an escape in it is half a character. -/
  | text (s : Option String)
  | list (items : List Document) (ending : Ending)
  | object (members : List (Option String × Document)) (ending : Ending)
  /-- A value that is missing or breaks off. -/
  | broken (reading passing : Fault)

def isSpace (c : Char) : Bool := c == ' ' || c == '\n' || c == '\t' || c == '\r'

def skipSpace (s : List Char) : List Char := s.dropWhile isSpace

def hexValue? (c : Char) : Option Nat :=
  let n := c.toNat
  if 48 ≤ n ∧ n ≤ 57 then some (n - 48)
  else if 65 ≤ n ∧ n ≤ 70 then some (n - 55)
  else if 97 ≤ n ∧ n ≤ 102 then some (n - 87)
  else none

/-- What stands after a backslash and `u`: a number of four digits, and the rest of the text. Fewer
than four bytes there mean that the text has ended. -/
def readHex4 (s : List Char) : Except Fault (Nat × List Char) :=
  match s with
  | a :: b :: c :: d :: rest =>
    match hexValue? a, hexValue? b, hexValue? c, hexValue? d with
    | some w, some x, some y, some z => .ok (((w * 16 + x) * 16 + y) * 16 + z, rest)
    | _, _, _, _ => .error .malformed
  | s => if (Utf8.encode s).length < 4 then .error .ended else .error .malformed

def simpleEscape? (c : Char) : Option Char :=
  if c = '\"' then some '\"'
  else if c = '\\' then some '\\'
  else if c = '/' then some '/'
  else if c = 'b' then some (Char.ofNat 8)
  else if c = 'f' then some (Char.ofNat 12)
  else if c = 'n' then some '\n'
  else if c = 'r' then some '\r'
  else if c = 't' then some '\t'
  else none

inductive Quoted where
  /-- The whole text, unless an escape in it is half a character, and what follows. -/
  | whole (s : Option (List Char)) (rest : List Char)
  | cut (reading passing : Fault)

def Quoted.push (c : Char) : Quoted → Quoted
  | whole s rest => whole (s.map (c :: ·)) rest
  | cut reading passing => cut reading passing

/-- Marks a text that has an escape of half a character. -/
def Quoted.spoil : Quoted → Quoted
  | whole _ rest => whole none rest
  | cut _ passing => cut .malformed passing

theorem readHex4_length {s rest : List Char} {n : Nat} (h : readHex4 s = .ok (n, rest)) :
    rest.length < s.length := by
  unfold readHex4 at h
  split at h
  · split at h
    · cases h
      simp only [List.length_cons]
      omega
    · cases h
  · split at h <;> cases h

/-- The character that two halves make. -/
def joinHalves (high low : Nat) : Char :=
  Char.ofNat (0x10000 + (high - 0xD800) * 0x400 + (low - 0xDC00))

/-- Reads what stands after a backslash and `u`: a character, or none if it is half of one, and the
rest of the text. A character beyond the first 65536 is written as two such escapes. -/
def readScalar (s : List Char) : Except Fault (Option Char × List Char) :=
  match readHex4 s with
  | .error fault => .error fault
  | .ok (n, rest) =>
    if 0xDC00 ≤ n ∧ n < 0xE000 then .ok (none, rest)
    else if 0xD800 ≤ n ∧ n < 0xDC00 then
      match rest with
      | [] => .error .ended
      | ['\\'] => .error .ended
      | '\\' :: 'u' :: after => match readHex4 after with
        | .error fault => .error fault
        | .ok (low, after) =>
          if 0xDC00 ≤ low ∧ low < 0xE000 then .ok (some (joinHalves n low), after)
          else .ok (none, rest)
      | _ => .ok (none, rest)
    else .ok (some (Char.ofNat n), rest)

theorem readScalar_length {s rest : List Char} {c : Option Char}
    (h : readScalar s = .ok (c, rest)) : rest.length < s.length := by
  unfold readScalar at h
  split at h
  · cases h
  · rename_i n r hr
    have hlen := readHex4_length hr
    repeat' split at h
    all_goals
      cases h
      try assumption
    rename_i hlow
    have := readHex4_length hlow
    simp only [List.length_cons] at hlen
    omega

def readQuoted (s : List Char) : Quoted :=
  match s with
  | [] => .cut .ended .ended
  | c :: rest =>
    if c = '\"' then .whole (some []) rest
    else if c = '\\' then
      match rest with
      | [] => .cut .ended .ended
      | e :: rest =>
        if e = 'u' then
          match _h : readScalar rest with
          | .error fault => .cut fault fault
          | .ok (some c, rest) => (readQuoted rest).push c
          | .ok (none, rest) => (readQuoted rest).spoil
        else match simpleEscape? e with
          | some c => (readQuoted rest).push c
          | none => .cut .malformed .malformed
    else if c.toNat < 32 then .cut .malformed .malformed
    else (readQuoted rest).push c
termination_by s.length
decreasing_by
  all_goals
    try have := readScalar_length _h
    simp only [List.length_cons]
    omega

inductive Numeral where
  | whole (n : Option Number) (rest : List Char)
  | cut (reading passing : Fault)

def isDigit (c : Char) : Bool := '0' ≤ c && c ≤ '9'

/-- The first number that 64 bits cannot hold. -/
def wordLimit : Nat := Nat.pow 2 64

/-- Takes digits into a significand as long as it stays within 64 bits; answers it with the digits
left over. -/
def absorb (significand : Nat) : List Char → Nat × List Char
  | [] => (significand, [])
  | c :: rest =>
    let next := significand * 10 + (c.toNat - 48)
    if next < wordLimit then absorb next rest else (significand, c :: rest)

/-- The number with given digits before and after the point and a given exponent. -/
def floatOf (negative : Bool) (whole fraction : List Char) (exponent : Int) : Option Number :=
  let (significand, dropped) := absorb 0 whole
  let (significand, ignored) := absorb significand fraction
  let power := (dropped.length : Int) - (fraction.length - ignored.length : Nat) + exponent
  (Binary64.ofDecimal? negative significand power).map .float

def digitsValue (digits : List Char) : Nat := digits.foldl (fun n c => n * 10 + (c.toNat - 48)) 0

/-- The number without a point and an exponent. Whole numbers outside the 64-bit range are floating,
and so is zero with a minus sign. -/
def wholeOf (negative : Bool) (digits : List Char) : Option Number :=
  let n := digitsValue digits
  if !negative ∧ n < wordLimit then some (.whole n)
  else if negative ∧ 0 < n ∧ n ≤ Nat.pow 2 63 then some (.whole (-n))
  else floatOf negative digits [] 0

/-- The fault of a number in which a digit is missing before `rest`. -/
def missingDigit (rest : List Char) : Numeral :=
  .cut (if rest.isEmpty then .ended else .malformed) .malformed

/-- Reads what follows the digits after the point, or before it if there is none: an exponent,
perhaps. -/
def readExponent (negative : Bool) (whole : List Char) (fraction : Option (List Char))
    (s : List Char) : Numeral :=
  match s with
  | c :: rest =>
    if c = 'e' ∨ c = 'E' then
      let (minus, rest) := match rest with
        | '-' :: rest => (true, rest)
        | '+' :: rest => (false, rest)
        | rest => (false, rest)
      let digits := rest.takeWhile isDigit
      let after := rest.dropWhile isDigit
      if digits.isEmpty then missingDigit after
      else
        let n : Int := digitsValue digits
        .whole (floatOf negative whole (fraction.getD []) (if minus then -n else n)) after
    else match fraction with
      | none => .whole (wholeOf negative whole) (c :: rest)
      | some fraction => .whole (floatOf negative whole fraction 0) (c :: rest)
  | [] => match fraction with
    | none => .whole (wholeOf negative whole) []
    | some fraction => .whole (floatOf negative whole fraction 0) []

def readNumeral (negative : Bool) (s : List Char) : Numeral :=
  let whole := s.takeWhile isDigit
  let rest := s.dropWhile isDigit
  if whole.isEmpty then missingDigit rest
  else if whole.head? = some '0' ∧ 1 < whole.length then .cut .malformed .malformed
  else match rest with
    | '.' :: rest =>
      let fraction := rest.takeWhile isDigit
      let after := rest.dropWhile isDigit
      if fraction.isEmpty then missingDigit after
      else readExponent negative whole (some fraction) after
    | rest => readExponent negative whole none rest

/-- What follows a word that is expected. -/
def readWord : (word s : List Char) → Except Fault (List Char)
  | [], s => .ok s
  | _ :: _, [] => .error .ended
  | w :: word, c :: s => if w = c then readWord word s else .error .malformed

def readConstant (word : String) (d : Document) (s : List Char) :
    Document × Option (List Char) :=
  match readWord word.toList s with
  | .ok rest => (d, some rest)
  | .error fault => (.broken fault fault, none)

/-- The document for a number, and what follows. -/
def Numeral.document : Numeral → Document × Option (List Char)
  | whole n rest => (.number n, some rest)
  | cut reading passing => (.broken reading passing, none)

mutual

/-- Takes apart one value; answers what follows it unless it is broken. Every step down into a value
and every step on in a list or an object costs one of `steps`. -/
def takeValue : (steps : Nat) → List Char → Document × Option (List Char)
  | 0, _ => (.broken .malformed .malformed, none)
  | steps + 1, s => match skipSpace s with
    | [] => (.broken .ended .ended, none)
    | c :: rest =>
      if c = '\"' then match readQuoted rest with
        | .whole t rest => (.text (t.map String.ofList), some rest)
        | .cut reading passing => (.broken reading passing, none)
      else if c = '[' then
        let (items, ending, rest) := takeItems steps true rest
        (.list items ending, rest)
      else if c = '{' then
        let (members, ending, rest) := takeMembers steps true rest
        (.object members ending, rest)
      else if c = 'n' then readConstant "ull" .null rest
      else if c = 't' then readConstant "rue" (.bool true) rest
      else if c = 'f' then readConstant "alse" (.bool false) rest
      else if c = '-' then (readNumeral true rest).document
      else if isDigit c then (readNumeral false (c :: rest)).document
      else (.broken .malformed .malformed, none)

/-- Takes apart the rest of a list, of which nothing is read yet if `first`. -/
def takeItems : (steps : Nat) → (first : Bool) → List Char →
    List Document × Ending × Option (List Char)
  | 0, _, _ => ([], .cut .malformed .malformed, none)
  | steps + 1, first, s => match skipSpace s with
    | [] => ([], .cut .ended .ended, none)
    | c :: rest =>
      if c = ']' then ([], .closed, some rest)
      else if first then takeItem steps (c :: rest)
      else if c = ',' then
        if (skipSpace rest).head? = some ']' then
          ([.broken .malformed .malformed], .cut .malformed .malformed, none)
        else takeItem steps rest
      else ([], .cut .malformed .malformed, none)

def takeItem : (steps : Nat) → List Char → List Document × Ending × Option (List Char)
  | 0, _ => ([], .cut .malformed .malformed, none)
  | steps + 1, s => match takeValue steps s with
    | (d, none) => ([d], .cut .malformed .malformed, none)
    | (d, some rest) =>
      let (items, ending, rest) := takeItems steps false rest
      (d :: items, ending, rest)

/-- Takes apart the rest of an object, of which nothing is read yet if `first`. -/
def takeMembers : (steps : Nat) → (first : Bool) → List Char →
    List (Option String × Document) × Ending × Option (List Char)
  | 0, _, _ => ([], .cut .malformed .malformed, none)
  | steps + 1, first, s => match skipSpace s with
    | [] => ([], .cut .ended .ended, none)
    | c :: rest =>
      if c = '}' then ([], .closed, some rest)
      else if first then takeMember steps (c :: rest)
      else if c = ',' then takeMember steps (skipSpace rest)
      else ([], .cut .malformed .malformed, none)

/-- Takes apart a member, which has to begin with a quote, and what follows it in its object. -/
def takeMember : (steps : Nat) → List Char →
    List (Option String × Document) × Ending × Option (List Char)
  | 0, _ => ([], .cut .malformed .malformed, none)
  | _ + 1, [] => ([], .cut .ended .ended, none)
  | steps + 1, c :: rest =>
    if c = '\"' then match readQuoted rest with
      | .cut reading passing => ([], .cut reading passing, none)
      | .whole key rest =>
        let key := key.map String.ofList
        match skipSpace rest with
        | [] => ([(key, .broken .ended .ended)], .cut .malformed .malformed, none)
        | c :: rest =>
          if c = ':' then match takeValue steps rest with
            | (d, none) => ([(key, d)], .cut .malformed .malformed, none)
            | (d, some rest) =>
              let (members, ending, rest) := takeMembers steps false rest
              ((key, d) :: members, ending, rest)
          else ([(key, .broken .malformed .malformed)], .cut .malformed .malformed, none)
    else ([], .cut .malformed .malformed, none)

end

/-- A whole text: its document, and whether only blanks follow. -/
structure Text where
  document : Document
  clean : Bool

def Text.ofChars (s : List Char) : Text :=
  let (d, rest) := takeValue (3 * s.length + 1) s
  ⟨d, match rest with
    | none => true
    | some rest => (skipSpace rest).isEmpty⟩

end CText.Json
