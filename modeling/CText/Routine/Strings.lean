import CText.Checked.Tokens
import CText.Routine.Basic

/-!
# Routines on byte strings
-/

namespace CText.Routine

open Inputs

def ofString (name : String) (f : List UInt8 → Except Violation String) : Routine :=
  ⟨name, ["s"], fun i => do
    let s ← cstring i "s"
    return .ok (← kept (f s))⟩

def ofStrings (name first second : String)
    (f : List UInt8 → List UInt8 → Except Violation String) : Routine :=
  ⟨name, [first, second], fun i => do
    let s ← cstring i first
    let t ← cstring i second
    return .ok (← kept (f s t))⟩

/-- A routine that takes two strings and a limit. -/
def ofBounded (name : String) (f : List UInt8 → List UInt8 → Nat → Except Violation String) :
    Routine :=
  ⟨name, ["s1", "s2", "n"], fun i => do
    let s ← cstring i "s1"
    let t ← cstring i "s2"
    let n ← count i "n"
    return .ok (← kept (f s t n))⟩

def ofStringByte (name : String) (f : List UInt8 → UInt8 → Except Violation String) : Routine :=
  ⟨name, ["s", "c"], fun i => do
    let s ← cstring i "s"
    let c ← byte i "c"
    return .ok (← kept (f s c))⟩

/-- A routine that copies a string to a destination of a given size, or of the size it needs. -/
def ofCopy (name : String)
    (copy : List UInt8 → List UInt8 → Except Violation (List UInt8 × Nat))
    (shown : List UInt8 × Nat → Except Violation String) : Routine :=
  ⟨name, ["src", "dst_len"], fun i => do
    let src ← cstring i "src"
    let needed ← kept (do Checked.add (← Checked.length src) 1)
    let capacity ← countOr i "dst_len" needed
    requireRoom needed capacity
    let dest ← blank 1 0 capacity
    return .ok (← kept (copy dest src >>= shown))⟩

/-- A routine that copies into a window, the destination being full of ones before. -/
def ofWindow (name : String) (shown : List UInt8 × CString.Window → String) : Routine :=
  ⟨name, ["src", "n", "dst_len"], fun i => do
    let src ← cstring i "src"
    let n ← count i "n"
    let dest ← blank 1 0xFF (← countOr i "dst_len" n)
    return .ok (shown (← kept (Checked.copyWindow dest src n)))⟩

/-- How many bytes of a string are joined: all of them, or no more than the bound. -/
def joinedLength (bound : Option Nat) (src : List UInt8) : Except Violation Nat :=
  match bound with
  | some n => Checked.boundedLength src n
  | none => Checked.length src

/-- Joins a string, perhaps only its first bytes, to the one in a destination. -/
def runAppend (name : String) (bound : Option Nat) (src : List UInt8) (i : Json) :
    Except Trouble Outcome := do
  let start ← kept (Checked.length (← cstring i "dest"))
  let added ← kept (joinedLength bound src)
  let needed ← kept (do Checked.add (← Checked.add start added) 1)
  let capacity ← countOr i "dst_len" needed
  requireRoom needed capacity
  let dest ← destination i "dest" capacity
  let (joined, _) ← kept (Checked.append name dest src (bound.getD src.length))
  return .ok (← kept (showString joined))

/-- Copies what fits of a string into a destination of a given size. -/
def runCutCopy (i : Json) : Except Trouble Outcome := do
  let src ← cstring i "src"
  let dest ← blank 1 0 (← count i "dst_len")
  let (copied, wanted) ← kept (Checked.copyCut dest src)
  return .ok (toString wanted ++ ":" ++ (← kept (showString copied)))

/-- Joins what fits of a string to the one in a destination of a given size. -/
def runCutAppend (i : Json) : Except Trouble Outcome := do
  let src ← cstring i "src"
  let capacity ← count i "dst_len"
  let dest ← destination i "dest" capacity
  let (joined, wanted) ← kept (Checked.appendCut dest src)
  return .ok (toString wanted ++ ":" ++ (← kept (showString joined)))

def runTokens (style : CString.TokenStyle) (i : Json) : Except Trouble Outcome := do
  let s ← cstring i "s"
  let delims ← cstring i "delims"
  let (tokens, _) ← kept (Checked.tokens style s delims)
  return .ok (showTokens (tokens.map showBytes))

/-- A copy of as many units of a string as `len` tells, if there is a string, as it is shown. -/
def showDuplicate (len : List UInt8 → Except Violation Nat) :
    Option (List UInt8) → Except Escape.Failure String
  | some s => do
    let copied ← Checked.duplicate 1 s (← Escape.checked (len s))
    Escape.checked (showString copied)
  | none => return "null"

def strings : List Routine :=
  [ofString "strlen" fun s => return toString (← Checked.length s),
    ⟨"strnlen", ["s", "n"], fun i => do
      let s ← cstring i "s"
      let n ← count i "n"
      return .ok (toString (← kept (Checked.boundedLength s n)))⟩,
    ofCopy "strcpy" (Checked.copyAll "strcpy") fun r => showString r.1,
    ofCopy "stpcpy" (Checked.copy "stpcpy") fun r => return toString r.2,
    ofWindow "strncpy" fun r => showBuffer r.1,
    ofWindow "stpncpy" fun r => toString r.2.copied,
    ⟨"strcat", ["src", "dest", "dst_len"], fun i => do
      let src ← cstring i "src"
      runAppend "strcat" none src i⟩,
    ⟨"strncat", ["src", "dest", "n", "dst_len"], fun i => do
      let src ← cstring i "src"
      let _ ← cstring i "dest"
      let n ← count i "n"
      runAppend "strncat" (some n) src i⟩,
    ⟨"strlcpy", ["src", "dst_len"], runCutCopy⟩,
    ⟨"strlcat", ["src", "dst_len", "dest"], runCutAppend⟩,
    ofStrings "strcmp" "s1" "s2" fun s t => return showSign (← Checked.compareAll false s t),
    ofBounded "strncmp" fun s t n => return showSign (← Checked.compare false n s t),
    ofStrings "strcasecmp" "s1" "s2" fun s t => return showSign (← Checked.compareAll true s t),
    ofBounded "strncasecmp" fun s t n => return showSign (← Checked.compare true n s t),
    ofStringByte "strchr" fun s c => return showIndex (← Checked.indexOf s c),
    ofStringByte "strrchr" fun s c => return showIndex (← Checked.lastIndexOf s c),
    ofStringByte "strchrnul" fun s c => return toString (← Checked.indexOrEnd s c),
    ofStrings "strstr" "haystack" "needle" fun s t => return showIndex (← Checked.find false s t),
    ofStrings "strcasestr" "haystack" "needle" fun s t =>
      return showIndex (← Checked.find true s t),
    ofStrings "strspn" "s" "set" fun s t => return toString (← Checked.span s t true),
    ofStrings "strcspn" "s" "set" fun s t => return toString (← Checked.span s t false),
    ofStrings "strpbrk" "s" "set" fun s t => return showIndex (← Checked.indexOfAny s t),
    ⟨"strdup", ["s"], fun i => do
      let s ← cstring? i "s"
      settled (showDuplicate Checked.length s)⟩,
    ⟨"strndup", ["s", "n"], fun i => do
      let s ← cstring? i "s"
      let n ← count i "n"
      settled (showDuplicate (fun s => Checked.boundedLength s n) s)⟩,
    ⟨"strsep", ["s", "delims"], runTokens .separate⟩,
    ⟨"strtok_r", ["s", "delims"], runTokens .skipEmpty⟩,
    ⟨"strtok", ["s", "delims"], runTokens .skipEmpty⟩]

end CText.Routine
