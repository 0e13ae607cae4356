import CText.Buffer.Copy
import CText.Buffer.Order
import CText.CString.Build
import CText.CString.Compare
import CText.CString.Search
import CText.CString.Tokens

/-!
# Byte strings and byte buffers

The routines on bytes under the names they have in C. Those that write answer with the destination
as it is afterwards and their result. A pointer into a string is an offset here, and no pointer is
`none`. Bytes compare as unsigned numbers.
-/

namespace CText.Byte

open CString

def strlen (s : List UInt8) : Nat := length s

/-- The length of the string, or `n` if it is longer. -/
def strnlen (s : List UInt8) (n : Nat) : Nat := boundedLength s n

/-- Copies a string; answers the number of bytes written. -/
def strcpy (dest src : List UInt8) : Except Violation (List UInt8 × Nat) :=
  (copy "strcpy" dest src).map fun (d, len) => (d, len + 1)

/-- Copies a string; answers where its terminator is. -/
def stpcpy (dest src : List UInt8) : Except Violation (List UInt8 × Nat) := copy "stpcpy" dest src

/-- Copies into a window of `n` bytes; answers the size of the window. -/
def strncpy (dest src : List UInt8) (n : Nat) : List UInt8 × Nat :=
  (copyWindow dest src n).map id Window.size

/-- Copies into a window of `n` bytes; answers where the copied bytes end. -/
def stpncpy (dest src : List UInt8) (n : Nat) : List UInt8 × Nat :=
  (copyWindow dest src n).map id Window.copied

/-- Joins a string to the one in `dest`; answers the length of the whole. -/
def strcat (dest src : List UInt8) : Except Violation (List UInt8 × Nat) :=
  append "strcat" dest src src.length

/-- Joins at most `n` bytes; answers the length of the whole. -/
def strncat (dest src : List UInt8) (n : Nat) : Except Violation (List UInt8 × Nat) :=
  append "strncat" dest src n

/-- Copies what fits; answers the length of the source. -/
def strlcpy (dest src : List UInt8) : List UInt8 × Nat := copyCut dest src

/-- Joins what fits; answers the length the whole would have. -/
def strlcat (dest src : List UInt8) : List UInt8 × Nat := appendCut dest src

def strcmp (s t : List UInt8) : Int := compareAll false s t

def strncmp (s t : List UInt8) (n : Nat) : Int := compare false n s t

/-- Compares two strings, capital letters counting as small ones. -/
def strcasecmp (s t : List UInt8) : Int := compareAll true s t

/-- Compares at most `n` bytes, capital letters counting as small ones. -/
def strncasecmp (s t : List UInt8) (n : Nat) : Int := compare true n s t

def strchr (s : List UInt8) (c : UInt8) : Option Nat := indexOf s c

/-- The first offset of `c`, or of the terminator. -/
def strchrnul (s : List UInt8) (c : UInt8) : Nat := (indexOf s c).getD (length s)

def strrchr (s : List UInt8) (c : UInt8) : Option Nat := lastIndexOf s c

def strstr (hay needle : List UInt8) : Option Nat := find false hay needle

/-- The first offset of a string in another, capital letters counting as small ones. -/
def strcasestr (hay needle : List UInt8) : Option Nat := find true hay needle

/-- The length of the start of `s` within `accept`. -/
def strspn (s accept : List UInt8) : Nat := span s accept true

/-- The length of the start of `s` outside `reject`. -/
def strcspn (s reject : List UInt8) : Nat := span s reject false

/-- The first offset of a byte in `accept`. -/
def strpbrk (s accept : List UInt8) : Option Nat := indexOfAny s accept

def strdup (s : Option (List UInt8)) : Except Error (Option (List UInt8)) :=
  s.mapM fun s => duplicate 1 s (length s)

/-- A copy of at most `n` bytes of a string, if there is one. -/
def strndup (s : Option (List UInt8)) (n : Nat) : Except Error (Option (List UInt8)) :=
  s.mapM fun s => duplicate 1 s (boundedLength s n)

/-- The next token, empty ones included. -/
def strsep (s : List UInt8) (cursor : Option Nat) (delims : List UInt8) : Cut UInt8 :=
  separate s cursor delims

def strtokR (s delims : List UInt8) (cursor : Option Nat) : Cut UInt8 := skip s cursor delims

/-- The next token that is not empty, under a cursor kept from call to call. -/
def strtok (hidden : Option Nat) (s delims : List UInt8) (restart : Bool) : Cut UInt8 :=
  skipHidden hidden s delims restart

def memchr (s : List UInt8) (c : UInt8) (n : Nat) : Option Nat := Buffer.scanForward s c n

def memrchr (s : List UInt8) (c : UInt8) (n : Nat) : Option Nat := Buffer.scanBackward s c n

/-- The first offset of a byte known to be there. -/
def rawmemchr (s : List UInt8) (c : UInt8) : Except Violation Nat := Buffer.scanPresent s c

/-- Copies `n` bytes; answers how many fitted. -/
def memcpy (dest src : List UInt8) (n : Nat) : List UInt8 × Nat := Buffer.copyDisjoint dest src n

/-- Copies `n` bytes; answers where the copied bytes end. -/
def mempcpy (dest src : List UInt8) (n : Nat) : List UInt8 × Nat := Buffer.copyDisjoint dest src n

/-- Moves `n` bytes within a buffer; answers how many. -/
def memmove (buf : List UInt8) (dest src n : Nat) : Except Violation (List UInt8 × Nat) :=
  Buffer.copyOverlapping buf dest src n

/-- Copies up to and including `c`, at most `n` bytes; answers where the copied `c` ends. -/
def memccpy (dest src : List UInt8) (c : UInt8) (n : Nat) : List UInt8 × Option Nat :=
  Buffer.copyThroughStop dest src c n

/-- Sets `n` bytes; answers how many fitted. -/
def memset (dest : List UInt8) (c : UInt8) (n : Nat) : List UInt8 × Nat := Buffer.fill dest c n

def bzero (dest : List UInt8) (n : Nat) : List UInt8 := (Buffer.fill dest 0 n).1

def memcmp (s t : List UInt8) (n : Nat) : Ordering := Buffer.compareUnsigned s t n

def memmem (hay needle : List UInt8) : Option Nat := Buffer.findBlock hay needle

end CText.Byte
