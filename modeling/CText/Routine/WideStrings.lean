import CText.Checked.Tokens
import CText.Routine.Basic

/-!
# Routines on wide strings and wide buffers
-/

namespace CText.Routine

open Inputs

def ofWides (name first second : String)
    (f : List UInt32 → List UInt32 → Except Violation String) : Routine :=
  ⟨name, [first, second], fun i => do
    let s ← wide i first
    let t ← wide i second
    return .ok (← kept (f s t))⟩

def ofWideUnit (name : String) (f : List UInt32 → UInt32 → Except Violation String) : Routine :=
  ⟨name, ["s", "c"], fun i => do
    let s ← wide i "s"
    let c ← unit i "c"
    return .ok (← kept (f s c))⟩

/-- Copies a wide string to a destination of the size it needs. -/
def runWideCopy (i : Json) : Except Trouble Outcome := do
  let src ← wide i "src"
  let needed ← kept (do Checked.add (← Checked.length src) 1)
  let dest ← blank 4 0 needed
  let (copied, _) ← kept (Checked.copyAll "wcscpy" dest src)
  return .ok (← kept (showWide copied))

/-- Joins a wide string to another one, whose buffer is cut or filled up to the size needed. -/
def runWideAppend (i : Json) : Except Trouble Outcome := do
  let start ← wide i "dest"
  let src ← wide i "src"
  let size ← kept (do
    Checked.add (← Checked.add (← Checked.length start) (← Checked.length src)) 1)
  let dest := start.take size ++ (← blank 4 0 (size - start.length))
  let (joined, _) ← kept (Checked.append "wcscat" dest src src.length)
  return .ok (← kept (showWide joined))

def runWideTokens (i : Json) : Except Trouble Outcome := do
  let s ← wide i "s"
  let delims ← wide i "delims"
  let (tokens, _) ← kept (Checked.tokens .skipEmpty s delims)
  return .ok (showTokens (← kept (tokens.mapM showWide)))

def wideStrings : List Routine :=
  [⟨"wcslen", ["s"], fun i => do
      let s ← wide i "s"
      return .ok (toString (← kept (Checked.length s)))⟩,
    ⟨"wcsnlen", ["s", "n"], fun i => do
      let s ← wide i "s"
      let n ← count i "n"
      return .ok (toString (← kept (Checked.boundedLength s n)))⟩,
    ⟨"wcscpy", ["src"], runWideCopy⟩,
    ⟨"wcscat", ["dest", "src"], runWideAppend⟩,
    ofWides "wcscmp" "s1" "s2" fun s t => return showSign (← Checked.compareAll false s t),
    ⟨"wcsncmp", ["s1", "s2", "n"], fun i => do
      let s ← wide i "s1"
      let t ← wide i "s2"
      let n ← count i "n"
      return .ok (showSign (← kept (Checked.compare false n s t)))⟩,
    ofWides "wcscasecmp" "s1" "s2" fun s t => return showSign (← Checked.compareAll true s t),
    ofWideUnit "wcschr" fun s c => return showIndex (← Checked.indexOf s c),
    ofWideUnit "wcsrchr" fun s c => return showIndex (← Checked.lastIndexOf s c),
    ofWides "wcsstr" "haystack" "needle" fun s t => return showIndex (← Checked.find false s t),
    ofWides "wcsspn" "s" "set" fun s t => return toString (← Checked.span s t true),
    ofWides "wcscspn" "s" "set" fun s t => return toString (← Checked.span s t false),
    ofWides "wcspbrk" "s" "set" fun s t => return showIndex (← Checked.indexOfAny s t),
    ⟨"wcstok", ["s", "delims"], runWideTokens⟩,
    ⟨"wmemcmp", ["a", "b", "n"], fun i => do
      let a ← wide i "a"
      let b ← wide i "b"
      let n ← countOr i "n" (min a.length b.length)
      return .ok (showSign (← kept (Checked.compareSigned a b n)))⟩,
    ⟨"wmemchr", ["s", "c", "n"], fun i => do
      let s ← wide i "s"
      let c ← unit i "c"
      let n ← countOr i "n" s.length
      return .ok (showIndex (← kept (Checked.scanForward s c n)))⟩]

end CText.Routine
