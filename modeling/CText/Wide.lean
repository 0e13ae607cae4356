import CText.Buffer.Copy
import CText.Buffer.Order
import CText.CString.Build
import CText.CString.Compare
import CText.CString.Search
import CText.CString.Tokens

/-!
# Wide strings and wide buffers

The routines on 32-bit units under the names they have in C. They are the routines on bytes with
two differences: units compare as signed numbers, and a comparison answers only a sign.
-/

namespace CText.Wide

open CString

def wcslen (s : List UInt32) : Nat := length s

def wcsnlen (s : List UInt32) (n : Nat) : Nat := boundedLength s n

def wcscpy (dest src : List UInt32) : Except Violation (List UInt32 × Nat) :=
  (copy "wcscpy" dest src).map fun (d, len) => (d, len + 1)

def wcpcpy (dest src : List UInt32) : Except Violation (List UInt32 × Nat) :=
  copy "wcpcpy" dest src

/-- Copies into a window of `n` units; answers the size of the window. -/
def wcsncpy (dest src : List UInt32) (n : Nat) : List UInt32 × Nat :=
  (copyWindow dest src n).map id Window.size

def wcscat (dest src : List UInt32) : Except Violation (List UInt32 × Nat) :=
  append "wcscat" dest src src.length

def wcsncat (dest src : List UInt32) (n : Nat) : Except Violation (List UInt32 × Nat) :=
  append "wcsncat" dest src n

def wcscmp (s t : List UInt32) : Int := (compareAll false s t).sign

def wcsncmp (s t : List UInt32) (n : Nat) : Int := (compare false n s t).sign

def wcscasecmp (s t : List UInt32) : Int := (compareAll true s t).sign

def wcsncasecmp (s t : List UInt32) (n : Nat) : Int := (compare true n s t).sign

def wcschr (s : List UInt32) (c : UInt32) : Option Nat := indexOf s c

def wcsrchr (s : List UInt32) (c : UInt32) : Option Nat := lastIndexOf s c

def wcsstr (hay needle : List UInt32) : Option Nat := find false hay needle

def wcsspn (s accept : List UInt32) : Nat := span s accept true

def wcscspn (s reject : List UInt32) : Nat := span s reject false

def wcspbrk (s accept : List UInt32) : Option Nat := indexOfAny s accept

def wcsdup (s : List UInt32) : Except Error (List UInt32) := duplicate 4 s (length s)

def wcstok (s delims : List UInt32) (cursor : Option Nat) : Cut UInt32 := skip s cursor delims

def wmemchr (s : List UInt32) (c : UInt32) (n : Nat) : Option Nat := Buffer.scanForward s c n

def wmemrchr (s : List UInt32) (c : UInt32) (n : Nat) : Option Nat := Buffer.scanBackward s c n

def wmemcpy (dest src : List UInt32) (n : Nat) : List UInt32 × Nat :=
  Buffer.copyDisjoint dest src n

/-- Copies `n` units; answers where the copied units end. -/
def wmempcpy (dest src : List UInt32) (n : Nat) : List UInt32 × Nat :=
  Buffer.copyDisjoint dest src n

/-- Moves `n` units within a buffer; answers how many. -/
def wmemmove (buf : List UInt32) (dest src n : Nat) : Except Violation (List UInt32 × Nat) :=
  Buffer.copyOverlapping buf dest src n

/-- Sets `n` units; answers how many fitted. -/
def wmemset (dest : List UInt32) (c : UInt32) (n : Nat) : List UInt32 × Nat :=
  Buffer.fill dest c n

def wmemcmp (s t : List UInt32) (n : Nat) : Int := Buffer.compareSigned s t n

end CText.Wide
