/-!
# Text as bytes

A character is written as one to four bytes, in the shortest of the forms that have room for its
number. Reading accepts exactly what writing produces, so overlong forms, surrogates and numbers
beyond the last character are refused.
-/

namespace CText.Utf8

def encodeChar (c : Char) : List UInt8 :=
  let n := c.toNat
  if n < 0x80 then [n.toUInt8]
  else if n < 0x800 then [(0xC0 + n / 64).toUInt8, (0x80 + n % 64).toUInt8]
  else if n < 0x10000 then
    [(0xE0 + n / 4096).toUInt8, (0x80 + n / 64 % 64).toUInt8, (0x80 + n % 64).toUInt8]
  else
    [(0xF0 + n / 262144).toUInt8, (0x80 + n / 4096 % 64).toUInt8, (0x80 + n / 64 % 64).toUInt8,
      (0x80 + n % 64).toUInt8]

def encode (text : List Char) : List UInt8 := text.flatMap encodeChar

def bytes (text : String) : List UInt8 := encode text.toList

/-- The character with a number, if there is one. -/
def scalar? (n : Nat) : Option Char :=
  if h : n.isValidChar then some (Char.ofNatAux n h) else none

/-- The low six bits of a byte that continues a character. -/
def continuation? (b : UInt8) : Option Nat :=
  if 0x80 ≤ b.toNat ∧ b.toNat < 0xC0 then some (b.toNat - 0x80) else none

/-- The character with number `n`, provided that it needs a number of at least `least`. -/
def checked? (least n : Nat) : Option Char := if least ≤ n then scalar? n else none

/-- The first character of some bytes and the number of bytes it takes. -/
def decodeChar? : List UInt8 → Option (Char × Nat)
  | [] => none
  | a :: rest =>
    if a.toNat < 0x80 then (scalar? a.toNat).map (·, 1)
    else if a.toNat < 0xC0 then none
    else match rest with
      | [] => none
      | b :: rest => match continuation? b with
        | none => none
        | some y =>
          if a.toNat < 0xE0 then (checked? 0x80 ((a.toNat - 0xC0) * 64 + y)).map (·, 2)
          else match rest with
            | [] => none
            | c :: rest => match continuation? c with
              | none => none
              | some z =>
                if a.toNat < 0xF0 then
                  (checked? 0x800 (((a.toNat - 0xE0) * 64 + y) * 64 + z)).map (·, 3)
                else match rest with
                  | [] => none
                  | d :: _ => match continuation? d with
                    | none => none
                    | some w =>
                      if a.toNat < 0xF8 then
                        (checked? 0x10000
                          ((((a.toNat - 0xF0) * 64 + y) * 64 + z) * 64 + w)).map (·, 4)
                      else none

/-- The characters that some bytes stand for, if they stand for characters. `skip` bytes at the
start belong to a character already read. -/
def decodeFrom : (skip : Nat) → List UInt8 → Option (List Char)
  | _, [] => some []
  | skip + 1, _ :: rest => decodeFrom skip rest
  | 0, a :: rest => match decodeChar? (a :: rest) with
    | none => none
    | some (c, n) => (decodeFrom (n - 1) rest).map (c :: ·)

/-- The characters that some bytes stand for, if they stand for characters. -/
def decode (bytes : List UInt8) : Option (List Char) := decodeFrom 0 bytes

def text? (bytes : List UInt8) : Option String := (decode bytes).map String.ofList

/-- The number of bytes at the start that could begin a character and do not go on as one: they are
replaced together. At least one byte is replaced. -/
def brokenLength : List UInt8 → Nat
  | a :: b :: rest =>
    let x := a.toNat
    let y := b.toNat
    let twoFit :=
      (0xE1 ≤ x ∧ x ≤ 0xEC ∨ x = 0xEE ∨ x = 0xEF) ∧ 0x80 ≤ y ∧ y < 0xC0
        ∨ x = 0xE0 ∧ 0xA0 ≤ y ∧ y < 0xC0 ∨ x = 0xED ∧ 0x80 ≤ y ∧ y < 0xA0
        ∨ 0xF1 ≤ x ∧ x ≤ 0xF3 ∧ 0x80 ≤ y ∧ y < 0xC0
        ∨ x = 0xF0 ∧ 0x90 ≤ y ∧ y < 0xC0 ∨ x = 0xF4 ∧ 0x80 ≤ y ∧ y < 0x90
    if twoFit then
      match rest with
      | c :: _ => if 0xF0 ≤ x ∧ (continuation? c).isSome then 3 else 2
      | [] => 2
    else 1
  | _ => 1

/-- The characters that some bytes stand for, with the replacement character in the place of what
is no character. `skip` bytes at the start are dealt with already. -/
def repairFrom : (skip : Nat) → List UInt8 → List Char
  | _, [] => []
  | skip + 1, _ :: rest => repairFrom skip rest
  | 0, a :: rest => match decodeChar? (a :: rest) with
    | some (c, n) => c :: repairFrom (n - 1) rest
    | none => '\uFFFD' :: repairFrom (brokenLength (a :: rest) - 1) rest

/-- The text that some bytes stand for, with the replacement character in the place of what is no
character. -/
def repair (bytes : List UInt8) : String := String.ofList (repairFrom 0 bytes)

end CText.Utf8
