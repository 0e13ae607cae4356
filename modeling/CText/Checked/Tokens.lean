import CText.CString.Tokens
import CText.Checked.CString

/-!
# Cutting a string into tokens, step by step

A call goes through the buffer unit by unit from its cursor on. That the cursor stays in the buffer
is not built in: a read past the end, or a token that begins behind its end, is a violation.
-/

namespace CText.Checked

open Buffer CString

variable {α : Type} [DecidableEq α] [CodeUnit α]

/-- The first offset of a delimiter from offset `i` on, among `left` units. -/
def findDelimiter (s delims : List α) (i : Nat) : (left : Nat) → Except Violation (Option Nat)
  | 0 => return none
  | left + 1 => do
    if isDelimiter delims (← fetch s i) then return some i
    else findDelimiter s delims (i + 1) left

def separate (s : List α) (cursor : Option Nat) (delims : List α) : Except Violation (Cut α) := do
  match cursor with
  | none => return ⟨s, none, none⟩
  | some start =>
    let stop ← add start (← length (s.drop start))
    match ← findDelimiter s delims start (stop - start) with
    | some i => return ⟨← store s i CodeUnit.nul, some (← add i 1), some ⟨start, ← sub i start⟩⟩
    | none => return ⟨s, none, some ⟨start, ← sub stop start⟩⟩

/-- The offset from `pos` on at which the buffer or its string ends or stands a unit that is not
`wanted`, no further than `left` units away. -/
def advance (wanted : α → Bool) (s : List α) (pos : Nat) : (left : Nat) → Except Violation Nat
  | 0 => return pos
  | left + 1 => do
    if pos < s.length then
      let u ← fetch s pos
      if u ≠ CodeUnit.nul ∧ wanted u then advance wanted s (← add pos 1) left else return pos
    else return pos

def goesOn (s : List α) (pos : Nat) : Except Violation Bool := do
  if pos < s.length then return (← fetch s pos) ≠ CodeUnit.nul else return false

def skip (s : List α) (cursor : Option Nat) (delims : List α) : Except Violation (Cut α) := do
  match cursor with
  | none => return ⟨s, none, none⟩
  | some pos =>
    let start ← advance (isDelimiter delims) s pos s.length
    if ← goesOn s start then
      let stop ← advance (fun u => !isDelimiter delims u) s start s.length
      let size ← sub stop start
      if ← goesOn s stop then
        return ⟨← store s stop CodeUnit.nul, some (← add stop 1), some ⟨start, size⟩⟩
      else return ⟨s, none, some ⟨start, size⟩⟩
    else return ⟨s, none, none⟩

def next (t : Tokenizer α) (s : List α) : Except Violation (Cut α) :=
  match t.style with
  | .separate => separate s t.cursor t.delims
  | .skipEmpty => skip s t.cursor t.delims

/-- The tokens that are found in at most so many calls, each read when it is found, with what the
buffer is afterwards. -/
def collect (t : Tokenizer α) (s : List α) :
    (calls : Nat) → Except Violation (List (List α) × List α)
  | 0 => return ([], s)
  | calls + 1 => do
    let cut ← next t s
    match cut.token with
    | none => return ([], cut.buffer)
    | some r =>
      let token ← slice cut.buffer r.start (← add r.start r.size)
      let (tokens, rest) ← collect { t with cursor := cut.cursor } cut.buffer calls
      return (token :: tokens, rest)

/-- All tokens of a string, with what the buffer is afterwards. -/
def tokens (style : TokenStyle) (s delims : List α) :
    Except Violation (List (List α) × List α) :=
  collect (.start delims style) s (s.length + 2)

end CText.Checked
