import CText.Error
import CText.Mode.Basic

/-!
# Reading modes

Three notations are read. A numeric mode is a run of octal digits and replaces all permissions. An
exact mode has nine positions, one for each of read, write and execute of each class, perhaps
after a letter for the file type; it replaces all permissions too. A partial mode is a list of
clauses such as `u+x`, which change the bits they name; no class may be changed by two clauses.
Which notation a text is in shows before it is read, and every notation is read whole or not at
all.
-/

namespace CText.Mode

inductive Form where
  | numeric
  | exact
  | clauses
  deriving DecidableEq

/-- The bytes allowed for the file type in front of an exact mode. -/
def typeBytes : List UInt8 := Ascii.bytes "-bcdlps?"

/-- The bytes allowed at the nine positions of an exact mode. -/
def exactPositions : List (List UInt8) :=
  ["r-", "w-", "xsS-", "r-", "w-", "xsS-", "r-", "w-", "xtT-"].map Ascii.bytes

/-- The positions of a text with the outline of an exact mode. -/
def permissionPart (s : List UInt8) : Option (List UInt8) :=
  if s.length = 9 then some s
  else match s with
    | type :: rest => if rest.length = 9 ∧ type ∈ typeBytes then some rest else none
    | [] => none

/-- Whether a text has nine positions with bytes allowed there. -/
def isExactShaped (s : List UInt8) : Bool :=
  match permissionPart s with
  | some positions => (positions.zip exactPositions).all fun (c, allowed) => allowed.contains c
  | none => false

def repeatsLetter : List UInt8 → Bool
  | [] => false
  | c :: rest => (Ascii.isAlpha c && rest.contains c) || repeatsLetter rest

/-- Whether a text has a minus sign or a repeated letter. A text of nine positions without either
is taken for a clause. -/
def hasExactMark (s : List UInt8) : Bool := s.contains 45 || repeatsLetter s

/-- The bytes with which a partial mode begins: a class letter or an operator. -/
def partialStart : List UInt8 := Ascii.bytes "augo+-="

def classify (s : List UInt8) : Except Error Form :=
  match s with
  | [] => .error (.invalidFormat .emptyMode 0)
  | c :: _ =>
    if s.all Ascii.isOctalDigit then .ok .numeric
    else if isExactShaped s && hasExactMark s then .ok .exact
    else if partialStart.contains c then .ok .clauses
    else .error (.invalidFormat .unrecognizedMode 0)

def octalValue (s : List UInt8) : Nat := s.foldl (fun n c => n * 8 + (c.toNat - 48)) 0

def parseNumeric (s : List UInt8) : Except Error Update :=
  if octalValue s ≤ allPermissions.toNat then .ok (.replace (octalValue s).toUInt32)
  else .error (.invalidFormat .modeTooLarge 0)

/-- The bits that a byte denotes at one of the three positions of a class. -/
def positionBits (who : Who) (place : Nat) (c : UInt8) : Option UInt32 :=
  if c = Ascii.byte '-' then some 0
  else match place with
    | 0 => if c = Ascii.byte 'r' then some who.read else none
    | 1 => if c = Ascii.byte 'w' then some who.write else none
    | _ =>
      if c = Ascii.byte 'x' then some who.exec
      else if c = Ascii.byte 's' ∨ c = Ascii.byte 't' then some (who.exec ||| who.special)
      else if c = Ascii.byte 'S' ∨ c = Ascii.byte 'T' then some who.special
      else none

/-- The class and the place within it of each position of an exact mode. -/
def positions : List (Who × Nat) := Who.all.flatMap fun who => [(who, 0), (who, 1), (who, 2)]

/-- Reads positions; `offset` is where the first of them stands. -/
def parsePositions : List (UInt8 × Who × Nat) → (offset : Nat) → Except Error UInt32
  | [], _ => .ok 0
  | (c, who, place) :: rest, offset =>
    match positionBits who place c with
    | some bits => (parsePositions rest (offset + 1)).map (bits ||| ·)
    | none => .error (.invalidFormat .badPermission offset)

def parseExact (s : List UInt8) : Except Error Update :=
  let start := s.length - 9
  (parsePositions ((s.drop start).zip positions) start).map .replace

/-- What a clause does with the bits it names. -/
inductive Operator where
  | add
  | remove
  | assign
  deriving DecidableEq

def Operator.ofByte? (c : UInt8) : Option Operator :=
  if c = Ascii.byte '+' then some .add
  else if c = Ascii.byte '-' then some .remove
  else if c = Ascii.byte '=' then some .assign
  else none

/-- The classes that a byte stands for. -/
def whoOfByte? (c : UInt8) : Option (List Who) :=
  if c = Ascii.byte 'u' then some [.owner]
  else if c = Ascii.byte 'g' then some [.group]
  else if c = Ascii.byte 'o' then some [.other]
  else if c = Ascii.byte 'a' then some Who.all
  else none

/-- A clause: the classes it changes, its operator and the permission letters it names. -/
structure Clause where
  who : List Who
  operator : Operator
  permissions : List UInt8
  deriving DecidableEq

/-- The bits that a permission letter names for a class. The letter `s` names nothing for others,
and `t` nothing for owner and group. -/
def letterBits (c : UInt8) (who : Who) : Option UInt32 :=
  if c = Ascii.byte 'r' then some who.read
  else if c = Ascii.byte 'w' then some who.write
  else if c = Ascii.byte 'x' then some who.exec
  else if c = Ascii.byte 's' then some (if who = .other then 0 else who.special)
  else if c = Ascii.byte 't' then some (if who = .other then who.special else 0)
  else none

/-- The bits that are set in any of a list of numbers. -/
def union (bits : List UInt32) : UInt32 := bits.foldl (· ||| ·) 0

namespace Clause

def named (c : Clause) : UInt32 :=
  union (c.permissions.flatMap fun p => c.who.map fun who => (letterBits p who).getD 0)

def scope (c : Clause) : UInt32 := union (c.who.map Who.scope)

/-- The clause as an update of its own. -/
def update (c : Clause) : Update :=
  match c.operator with
  | .add => ⟨c.named, 0⟩
  | .remove => ⟨0, c.named⟩
  | .assign => ⟨c.named, c.scope⟩

def apply (c : Clause) (mode : UInt32) : UInt32 :=
  match c.operator with
  | .add => mode ||| c.named
  | .remove => mode &&& ~~~c.named
  | .assign => (mode &&& ~~~c.scope) ||| c.named

end Clause

/-- Two updates in one: what either clears is cleared, then what either sets is set. -/
def Update.merge (u v : Update) : Update := ⟨u.bits ||| v.bits, u.mask ||| v.mask⟩

/-- The classes named at the start of a clause, and what follows them. -/
def readWho : List UInt8 → List Who × List UInt8
  | [] => ([], [])
  | c :: rest => match whoOfByte? c with
    | some who =>
      let (others, rest) := readWho rest
      (who ++ others, rest)
    | none => ([], c :: rest)

def comma : UInt8 := 44

/-- The permission letters up to a comma or the end, and what follows; an error at a byte that is
no permission letter. `offset` is where the letters begin. -/
def readPermissions : List UInt8 → (offset : Nat) → Except Error (List UInt8 × List UInt8)
  | [], _ => .ok ([], [])
  | c :: rest, offset =>
    if c = comma then .ok ([], c :: rest)
    else if (letterBits c .owner).isSome then
      (readPermissions rest (offset + 1)).map fun (letters, rest) => (c :: letters, rest)
    else .error (.invalidFormat .badPermission offset)

/-- The classes as a set in the usual order. No class named means all of them. -/
def whoSet (named : List Who) : List Who :=
  if named.isEmpty then Who.all else Who.all.filter fun who => named.contains who

/-- Reads one clause at `offset`, in which no class of `touched` may stand again; answers the clause
and what follows it. -/
def readClause (touched : List Who) (s : List UInt8) (offset : Nat) :
    Except Error (Clause × List UInt8) :=
  if s.head? = some comma then .error (.invalidFormat .emptyClause offset)
  else
    let (named, afterWho) := readWho s
    let who := whoSet named
    if who.any fun w => touched.contains w then .error (.invalidFormat .classRepeated offset)
    else
      let operatorAt := offset + (s.length - afterWho.length)
      match afterWho with
      | [] => .error (.invalidFormat .missingOperator operatorAt)
      | c :: afterOperator =>
        match Operator.ofByte? c with
        | none => .error (.invalidFormat .missingOperator operatorAt)
        | some operator =>
          (readPermissions afterOperator (operatorAt + 1)).map fun (permissions, rest) =>
            (⟨who, operator, permissions⟩, rest)

theorem readWho_length (s : List UInt8) : (readWho s).2.length ≤ s.length := by
  fun_induction readWho s <;> simp_all
  omega

theorem readPermissions_length {s : List UInt8} {offset : Nat} {letters rest : List UInt8}
    (h : readPermissions s offset = .ok (letters, rest)) : rest.length ≤ s.length := by
  fun_induction readPermissions s offset generalizing letters rest with
  | case1 => cases h; simp
  | case2 => cases h; simp
  | case3 c r offset hc hp ih =>
    cases hr : readPermissions r (offset + 1) with
    | error e => rw [hr] at h; cases h
    | ok p =>
      rw [hr] at h
      cases h
      have := ih hr
      simp only [List.length_cons]
      omega
  | case4 => cases h

theorem readClause_length {touched : List Who} {s : List UInt8} {offset : Nat} {c : Clause}
    {rest : List UInt8} (h : readClause touched s offset = .ok (c, rest)) :
    rest.length < s.length := by
  unfold readClause at h
  split at h
  · cases h
  · have hw := readWho_length s
    dsimp only at h
    split at h
    · cases h
    · split at h
      · cases h
      · rename_i b afterOperator hs
        split at h
        · cases h
        · rename_i operator _
          rw [hs] at hw
          simp only [List.length_cons] at hw
          generalize offset + (s.length - (readWho s).2.length) + 1 = o at h
          cases hp : readPermissions afterOperator o with
          | error e => rw [hp] at h; cases h
          | ok p =>
            rw [hp] at h
            cases h
            have := readPermissions_length hp
            omega

/-- Reads clauses up to the end; `touched` are the classes of the clauses before. -/
def readClauses (touched : List Who) (s : List UInt8) (offset : Nat) :
    Except Error (List Clause) :=
  match _h : readClause touched s offset with
  | .error e => .error e
  | .ok (clause, []) => .ok [clause]
  | .ok (clause, _ :: rest) =>
    let next := offset + (s.length - rest.length)
    if rest.isEmpty then .error (.invalidFormat .emptyClause next)
    else (readClauses (touched ++ clause.who) rest next).map (clause :: ·)
termination_by s.length
decreasing_by
  have := readClause_length _h
  simp only [List.length_cons] at this
  omega

def parsePartial (s : List UInt8) : Except Error Update :=
  (readClauses [] s 0).map fun clauses =>
    clauses.foldl (fun u clause => u.merge clause.update) .none

def parse (s : List UInt8) : Except Error Update :=
  match classify s with
  | .error e => .error e
  | .ok .numeric => parseNumeric s
  | .ok .exact => parseExact s
  | .ok .clauses => parsePartial s

end CText.Mode
