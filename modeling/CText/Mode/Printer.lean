import CText.Mode.Basic

/-!
# Writing modes

A mode is written for people in one of three styles: nine positions, nine positions after a letter
for the file type, or one clause for each class. The special bit of a class shares the position of
the execute bit: a small letter says that both are set, a capital one that only the special bit is.
-/

namespace CText.Mode

inductive Style where
  | symbolic
  | withType
  | clauses
  deriving DecidableEq

/-- The letter for the file type that the bits above the permissions tell. -/
def typeLetter (mode : UInt32) : UInt8 :=
  let type := mode &&& 0o170000
  if type = 0 ∨ type = 0o100000 then Ascii.byte '-'
  else if type = 0o040000 then Ascii.byte 'd'
  else if type = 0o120000 then Ascii.byte 'l'
  else if type = 0o020000 then Ascii.byte 'c'
  else if type = 0o060000 then Ascii.byte 'b'
  else if type = 0o010000 then Ascii.byte 'p'
  else if type = 0o140000 then Ascii.byte 's'
  else Ascii.byte '?'

def isSet (mode bit : UInt32) : Bool := mode &&& bit != 0

/-- The position that execute bit and special bit share. -/
def execPosition (mode : UInt32) (who : Who) : UInt8 :=
  match isSet mode who.exec, isSet mode who.special with
  | true, true => who.specialLetter
  | false, true => who.specialLetter - 32
  | true, false => Ascii.byte 'x'
  | false, false => Ascii.byte '-'

/-- The three positions of a class. -/
def classPositions (mode : UInt32) (who : Who) : List UInt8 :=
  [if isSet mode who.read then Ascii.byte 'r' else Ascii.byte '-',
    if isSet mode who.write then Ascii.byte 'w' else Ascii.byte '-',
    execPosition mode who]

def symbolic (mode : UInt32) : List UInt8 := Who.all.flatMap (classPositions mode)

/-- The clause that sets the bits of a class and clears its others. -/
def classClause (mode : UInt32) (who : Who) : List UInt8 :=
  who.letter :: Ascii.byte '=' ::
    ([(who.read, Ascii.byte 'r'), (who.write, Ascii.byte 'w'), (who.exec, Ascii.byte 'x'),
      (who.special, who.specialLetter)].filter fun (bit, _) => isSet mode bit).map Prod.snd

def render (mode : UInt32) : Style → List UInt8
  | .symbolic => symbolic mode
  | .withType => typeLetter mode :: symbolic mode
  | .clauses =>
    classClause mode .owner ++ 44 :: classClause mode .group ++ 44 :: classClause mode .other

end CText.Mode
