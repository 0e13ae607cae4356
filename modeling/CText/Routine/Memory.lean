import CText.Routine.Basic

/-!
# Routines on byte buffers
-/

namespace CText.Routine

open Inputs

/-- A routine that searches a buffer for a byte, in all of it unless a limit is given. -/
def ofByteSearch (name : String)
    (search : List UInt8 → UInt8 → Nat → Except Violation (Option Nat)) : Routine :=
  ⟨name, ["s", "c", "n"], fun i => do
    let s ← bytes i "s"
    let c ← byte i "c"
    let n ← countOr i "n" s.length
    return .ok (showIndex (← kept (search s c n)))⟩

def memory : List Routine :=
  [ofByteSearch "memchr" Checked.scanForward,
    ofByteSearch "memrchr" Checked.scanBackward,
    ⟨"memcmp", ["a", "b", "n"], fun i => do
      let a ← bytes i "a"
      let b ← bytes i "b"
      let n ← countOr i "n" (min a.length b.length)
      return .ok (showOrder (← kept (Checked.compareUnsigned a b n)))⟩,
    ⟨"memmem", ["haystack", "needle"], fun i => do
      let hay ← bytes i "haystack"
      let needle ← bytes i "needle"
      return .ok (showIndex (← kept (Checked.findBlock hay needle)))⟩,
    ⟨"memcpy", ["src", "dst_len", "n"], fun i => do
      let src ← bytes i "src"
      let dest ← blank 1 0 (← count i "dst_len")
      let n ← count i "n"
      return .ok (showBuffer (← kept (Checked.copyDisjoint dest src n)).1)⟩,
    ⟨"memmove", ["buf", "dest", "src", "n"], fun i => do
      let buf ← bytes i "buf"
      let dest ← count i "dest"
      let src ← count i "src"
      let n ← count i "n"
      return .ok (showBuffer (← kept (Checked.copyOverlapping buf dest src n)).1)⟩,
    ⟨"memccpy", ["src", "n", "dst_len", "c"], fun i => do
      let src ← bytes i "src"
      let n ← count i "n"
      let dest ← blank 1 0 (← countOr i "dst_len" n)
      let c ← byte i "c"
      let (dest, stop) ← kept (Checked.copyThroughStop dest src c n)
      return .ok (showIndex stop ++ ":" ++ showBuffer dest)⟩,
    ⟨"memset", ["dst_len", "c", "n"], fun i => do
      let dest ← blank 1 0 (← count i "dst_len")
      let c ← byte i "c"
      let n ← count i "n"
      return .ok (showBuffer (← kept (Checked.fill dest c n)).1)⟩]

end CText.Routine
