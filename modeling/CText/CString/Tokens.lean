import CText.CString.Basic

/-!
# Cutting a string into tokens

A token is a range of the buffer. The delimiter that ends it is overwritten with a terminator, so
that the token is a string of its own afterwards. A cursor is the offset at which the next call
goes on, and `none` once the string is used up; from then on there are no more tokens.
Cutting separates at every delimiter and so yields empty tokens; skipping takes a run of delimiters
for one.
-/

namespace CText.CString

variable {α : Type} [DecidableEq α] [CodeUnit α]

structure Span where
  start : Nat
  size : Nat
  deriving DecidableEq

/-- What a call left behind: the buffer, the cursor, and the token if there was one. -/
structure Cut (α : Type) where
  buffer : List α
  cursor : Option Nat
  token : Option Span
  deriving DecidableEq

def isDelimiter (delims : List α) (u : α) : Bool := (content delims).contains u

/-- The next token, where every delimiter ends one. -/
def separate (s : List α) (cursor : Option Nat) (delims : List α) : Cut α :=
  match cursor with
  | none => ⟨s, none, none⟩
  | some start =>
    let field := content (s.drop start)
    match field.findIdx? (isDelimiter delims) with
    | some i => ⟨s.set (start + i) CodeUnit.nul, some (start + i + 1), some ⟨start, i⟩⟩
    | none => ⟨s, none, some ⟨start, field.length⟩⟩

def skip (s : List α) (cursor : Option Nat) (delims : List α) : Cut α :=
  match cursor with
  | none => ⟨s, none, none⟩
  | some pos =>
    let lead := (content (s.drop pos)).takeWhile (isDelimiter delims)
    let start := pos + lead.length
    let word := (content (s.drop start)).takeWhile fun u => !isDelimiter delims u
    if word.isEmpty then ⟨s, none, none⟩
    else
      let stop := start + word.length
      match s[stop]? with
      | none => ⟨s, none, some ⟨start, word.length⟩⟩
      | some u =>
        if u = CodeUnit.nul then ⟨s, none, some ⟨start, word.length⟩⟩
        else ⟨s.set stop CodeUnit.nul, some (stop + 1), some ⟨start, word.length⟩⟩

/-- Whether empty tokens are reported. -/
inductive TokenStyle where
  | separate
  | skipEmpty
  deriving DecidableEq

/-- A tokenizer: what ends a token, whether empty ones count, and where to go on. -/
structure Tokenizer (α : Type) where
  delims : List α
  style : TokenStyle
  cursor : Option Nat
  deriving DecidableEq

namespace Tokenizer

def start (delims : List α) (style : TokenStyle) : Tokenizer α := ⟨delims, style, some 0⟩

def next (t : Tokenizer α) (s : List α) : Cut α :=
  match t.style with
  | .separate => separate s t.cursor t.delims
  | .skipEmpty => skip s t.cursor t.delims

def exhausted (t : Tokenizer α) : Bool := t.cursor.isNone

end Tokenizer

/-- The calls that a cursor can still see succeed in a buffer of `len` units, at most. -/
def callsLeft (len : Nat) : Option Nat → Nat
  | none => 0
  | some i => len - i + 1

theorem separate_callsLeft (s : List α) (cursor : Option Nat) (delims : List α)
    (h : (separate s cursor delims).token.isSome) :
    callsLeft (separate s cursor delims).buffer.length (separate s cursor delims).cursor
      < callsLeft s.length cursor := by
  unfold separate at h ⊢
  cases cursor with
  | none => simp at h
  | some start =>
    dsimp only at h ⊢
    cases hi : (content (s.drop start)).findIdx? (isDelimiter delims) with
    | none => simp [callsLeft]
    | some i =>
      have hlt : i < (content (s.drop start)).length :=
        (List.findIdx?_eq_some_iff_findIdx_eq.1 hi).1
      have hle := content_length_le (s.drop start)
      simp only [List.length_drop] at hle
      simp only [callsLeft, List.length_set]
      omega

theorem skip_callsLeft (s : List α) (cursor : Option Nat) (delims : List α)
    (h : (skip s cursor delims).token.isSome) :
    callsLeft (skip s cursor delims).buffer.length (skip s cursor delims).cursor
      < callsLeft s.length cursor := by
  unfold skip at h ⊢
  cases cursor with
  | none => simp at h
  | some pos =>
    dsimp only at h ⊢
    split
    · rename_i hw
      simp [hw] at h
    · split
      · simp [callsLeft]
      · rename_i hu
        split
        · simp [callsLeft]
        · have := (List.getElem?_eq_some_iff.1 hu).1
          simp only [callsLeft, List.length_set]
          omega

theorem Tokenizer.next_callsLeft (t : Tokenizer α) (s : List α)
    (h : (t.next s).token.isSome) :
    callsLeft (t.next s).buffer.length (t.next s).cursor < callsLeft s.length t.cursor := by
  unfold Tokenizer.next at h ⊢
  cases hs : t.style with
  | separate => rw [hs] at h; exact separate_callsLeft s t.cursor t.delims h
  | skipEmpty => rw [hs] at h; exact skip_callsLeft s t.cursor t.delims h

/-- The units of a range, which has to lie in the buffer: an empty one may begin at its end, but not
past it. Of a range that lies outside altogether the start is at fault. -/
def Span.slice (r : Span) (s : List α) : Except Violation (List α) :=
  if s.length < r.start then .error (.startPastEnd r.start s.length)
  else if s.length < r.start + r.size then .error (.stopPastEnd (r.start + r.size) s.length)
  else .ok ((s.drop r.start).take r.size)

/-- All tokens still to come, as ranges, with what the buffer is afterwards. -/
def Tokenizer.run (t : Tokenizer α) (s : List α) : List Span × List α :=
  match _h : (t.next s).token with
  | none => ([], (t.next s).buffer)
  | some r =>
    let (tokens, rest) := Tokenizer.run { t with cursor := (t.next s).cursor } (t.next s).buffer
    (r :: tokens, rest)
termination_by callsLeft s.length t.cursor
decreasing_by
  exact t.next_callsLeft s (by simp [_h])

/-- All tokens still to come, as strings, with what the buffer is afterwards. Each is read when it
is found, before the next call. -/
def Tokenizer.collect (t : Tokenizer α) (s : List α) : Except Violation (List (List α) × List α) :=
  match _h : (t.next s).token with
  | none => .ok ([], (t.next s).buffer)
  | some r => do
    let token ← r.slice (t.next s).buffer
    let (tokens, rest) ← Tokenizer.collect { t with cursor := (t.next s).cursor } (t.next s).buffer
    return (token :: tokens, rest)
termination_by callsLeft s.length t.cursor
decreasing_by
  exact t.next_callsLeft s (by simp [_h])

/-- Skipping with a cursor that the routine keeps for itself from call to call; `restart` begins a
new string. -/
def skipHidden (hidden : Option Nat) (s delims : List α) (restart : Bool) : Cut α :=
  skip s (if restart then some 0 else hidden) delims

end CText.CString
