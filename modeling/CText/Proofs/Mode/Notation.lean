import CText.Fields
import CText.Mode.Parser
import Mathlib.Data.Nat.Digits.Defs

/-!
# The notations of modes

Each of the three notations is given by what can be written in it and by what that means, without
regard to how a text is read. A numeric mode is an octal number. An exact mode says of every class
whether it may read, write and execute, and whether its special bit is set. A partial mode is a
list of clauses; a clause changes the bits of its classes that its letters name. The same text may
be a clause and an exact mode, and then it is meant as an exact mode.
-/

namespace CText.Mode

/-! ## Numeric modes -/

/-- The number that octal digits denote, the last of them being the lowest. -/
def octalNumber (s : List UInt8) : Nat := Nat.ofDigits 8 (s.map fun c => c.toNat - 48).reverse

/-- A numeric mode as it is written. Zeros may stand in front of it. -/
structure NumericText where
  text : List UInt8
  ne_nil : text ≠ []
  octal : ∀ c ∈ text, Ascii.isOctalDigit c = true
  small : octalNumber text ≤ 0o7777

def NumericText.value (t : NumericText) : Nat := octalNumber t.text

/-! ## Exact modes -/

/-- What the third position of a class says. -/
inductive ExecMark where
  | neither
  | exec
  | both
  | special
  deriving DecidableEq

/-- The byte for the third position: a small letter if the class may execute, the letter of the
special bit if that is set, and a capital letter if only that is set. -/
def ExecMark.byte (who : Who) : ExecMark → UInt8
  | neither => Ascii.byte '-'
  | exec => Ascii.byte 'x'
  | both => if who = .other then Ascii.byte 't' else Ascii.byte 's'
  | special => if who = .other then Ascii.byte 'T' else Ascii.byte 'S'

def ExecMark.bits (who : Who) : ExecMark → UInt32
  | neither => 0
  | exec => who.exec
  | both => who.exec ||| who.special
  | special => who.special

/-- What the three positions of a class say. -/
structure Triple where
  read : Bool
  write : Bool
  mark : ExecMark
  deriving DecidableEq

/-- A letter, or a minus sign in its place. -/
def flagByte (letter : UInt8) (isSet : Bool) : UInt8 := if isSet then letter else Ascii.byte '-'

def Triple.text (t : Triple) (who : Who) : List UInt8 :=
  [flagByte (Ascii.byte 'r') t.read, flagByte (Ascii.byte 'w') t.write, t.mark.byte who]

def Triple.bits (t : Triple) (who : Who) : UInt32 :=
  (if t.read then who.read else 0) ||| ((if t.write then who.write else 0) ||| t.mark.bits who)

/-- An exact mode as it is written, perhaps with a file type in front. -/
structure ExactText where
  type : Option UInt8
  owner : Triple
  group : Triple
  other : Triple
  type_mem : ∀ c ∈ type, c ∈ Ascii.bytes "-bcdlps?"

def ExactText.permissions (t : ExactText) : List UInt8 :=
  t.owner.text .owner ++ (t.group.text .group ++ t.other.text .other)

def ExactText.text (t : ExactText) : List UInt8 := t.type.toList ++ t.permissions

def ExactText.bits (t : ExactText) : UInt32 :=
  t.owner.bits .owner ||| (t.group.bits .group ||| t.other.bits .other)

/-! ## Partial modes -/

def Operator.byte : Operator → UInt8
  | add => Ascii.byte '+'
  | remove => Ascii.byte '-'
  | assign => Ascii.byte '='

/-- A clause as it is written. -/
structure ClauseText where
  who : List UInt8
  operator : Operator
  letters : List UInt8
  who_mem : ∀ c ∈ who, c ∈ Ascii.bytes "ugoa"
  letters_mem : ∀ c ∈ letters, c ∈ Ascii.bytes "rwxst"

namespace ClauseText

def text (c : ClauseText) : List UInt8 := c.who ++ c.operator.byte :: c.letters

/-- Whether a clause is about a class: its letter is there, or the letter for all, or none is. -/
def Covers (c : ClauseText) (who : Who) : Prop :=
  c.who = [] ∨ who.letter ∈ c.who ∨ Ascii.byte 'a' ∈ c.who

instance (c : ClauseText) (who : Who) : Decidable (c.Covers who) :=
  inferInstanceAs (Decidable (_ ∨ _ ∨ _))

def classes (c : ClauseText) : List Who := Who.all.filter (c.Covers ·)

/-- The bits of a class that the letters of a clause name. The special bit of a class has the letter
that goes with the class, and the other special letter names nothing. -/
def namedOf (c : ClauseText) (who : Who) : UInt32 :=
  (if Ascii.byte 'r' ∈ c.letters then who.read else 0) |||
    ((if Ascii.byte 'w' ∈ c.letters then who.write else 0) |||
      ((if Ascii.byte 'x' ∈ c.letters then who.exec else 0) |||
        (if who.specialLetter ∈ c.letters then who.special else 0)))

def named (c : ClauseText) : UInt32 := union (c.classes.map c.namedOf)

def scope (c : ClauseText) : UInt32 := union (c.classes.map Who.scope)

/-- What a clause does to a mode: plus sets the bits that it names, minus clears them, and the
equals sign clears all bits of its classes first. -/
def run (c : ClauseText) (mode : UInt32) : UInt32 :=
  match c.operator with
  | .add => mode ||| c.named
  | .remove => mode &&& ~~~c.named
  | .assign => (mode &&& ~~~c.scope) ||| c.named

/-- No class is changed by both of two clauses. -/
def Disjoint (c d : ClauseText) : Prop := ∀ who, ¬ (c.Covers who ∧ d.Covers who)

end ClauseText

/-- A partial mode as it is written. -/
structure PartialText where
  clauses : List ClauseText
  ne_nil : clauses ≠ []
  disjoint : clauses.Pairwise ClauseText.Disjoint

namespace PartialText

def text (t : PartialText) : List UInt8 := joinWith comma (t.clauses.map ClauseText.text)

/-- What a partial mode does to a mode: its clauses one after the other. -/
def run (t : PartialText) (mode : UInt32) : UInt32 :=
  t.clauses.foldl (fun mode c => c.run mode) mode

end PartialText

end CText.Mode
