import CText.Json.Binary64

/-!
# JSON values

Numbers are whole numbers of 64 bits, signed or unsigned, and binary floating-point numbers.
Objects are lists of members; an object that was read has its members sorted by key, one for each
key, and an object that is to be written may have them in an order of its own.
-/

namespace CText

inductive Json.Number where
  | whole (n : Int)
  | float (x : Json.Binary64)
  deriving DecidableEq

inductive Json where
  | null
  | bool (b : Bool)
  | number (n : Json.Number)
  | text (s : String)
  | list (items : List Json)
  | object (members : List (String × Json))

namespace Json

def ofNat (n : Nat) : Json := .number (.whole n)

def ofInt (n : Int) : Json := .number (.whole n)

def ofTexts (texts : List String) : Json := .list (texts.map .text)

def get? (j : Json) (key : String) : Option Json :=
  match j with
  | .object members => members.lookup key
  | _ => none

def text? : Json → Option String
  | .text s => some s
  | _ => none

/-- The first whole number that is too large for 64 bits. -/
def natLimit : Nat := 18446744073709551616

/-- The number, if the value is a whole number of 64 bits without a sign. -/
def nat? : Json → Option Nat
  | .number (.whole n) => if 0 ≤ n ∧ n < natLimit then some n.toNat else none
  | _ => none

def isNull : Json → Bool
  | .null => true
  | _ => false

/-- Adds a member to a list sorted by key, in the place of one with the same key. -/
def insertMember (key : String) (value : Json) : List (String × Json) → List (String × Json)
  | [] => [(key, value)]
  | (k, v) :: rest =>
    if key < k then (key, value) :: (k, v) :: rest
    else if key = k then (key, value) :: rest
    else (k, v) :: insertMember key value rest

end Json

end CText
