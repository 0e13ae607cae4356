import CText.CString.Basic
import CText.Fields
import CText.Text.Utf8

/-!
# Lexical paths

A path is a byte string that ends at its first zero byte. It is a list of components with slashes
between them, and rooted if it begins with a slash. Everything here is about the text alone: no
file system is asked, and links are not followed.
-/

namespace CText.Path

def slash : UInt8 := 47

/-- The component that stands for the directory it is in. -/
def dot : List UInt8 := [46]

/-- The component that stands for the directory above. -/
def dotdot : List UInt8 := [46, 46]

def isAbsolute (path : List UInt8) : Bool := path.head? == some slash

/-- What stands between the slashes of `path`, empty components included. -/
def split (path : List UInt8) : List (List UInt8) := fields (· == slash) path

def components (path : List UInt8) : List (List UInt8) :=
  (split path).filter fun part => !part.isEmpty

/-- Takes one more component into account; the nearest component stands first in `above`.
An empty component and the dot change nothing. Two dots take away the nearest component. Where
there is none to take away they are dropped in a rooted path and kept in another. -/
def push (rooted : Bool) (above : List (List UInt8)) (part : List UInt8) : List (List UInt8) :=
  if part = [] ∨ part = dot then above
  else if part = dotdot then
    match above with
    | [] => if rooted then [] else [dotdot]
    | top :: rest => if top = dotdot then dotdot :: above else rest
  else part :: above

def ofComponents (rooted : Bool) (parts : List (List UInt8)) : List UInt8 :=
  let joined := joinWith slash parts
  let path := if rooted then slash :: joined else joined
  if path.isEmpty then dot else path

/-- The shortest path that leads lexically where `path` leads. -/
def clean (path : List UInt8) : List UInt8 :=
  let path := CString.content path
  let rooted := isAbsolute path
  ofComponents rooted ((split path).foldl (push rooted) []).reverse

/-- `clean` for a text. What would be no text any more is repaired. -/
def cleanText (path : String) : String := Utf8.repair (clean (Utf8.bytes path))

/-- The path without the slashes at its end. -/
def trimSlashes (path : List UInt8) : List UInt8 :=
  (path.reverse.dropWhile (· == slash)).reverse

def afterLastSlash (path : List UInt8) : List UInt8 :=
  (path.reverse.takeWhile (· != slash)).reverse

def throughLastSlash (path : List UInt8) : List UInt8 :=
  (path.reverse.dropWhile (· != slash)).reverse

/-- The last component, slashes at the end set aside. The empty path counts as the dot, and the
last component of the root is the root. -/
def basename (path : List UInt8) : List UInt8 :=
  let path := CString.content path
  if path.isEmpty then dot
  else
    let trimmed := trimSlashes path
    if trimmed.isEmpty then [slash] else afterLastSlash trimmed

/-- The path without its last component. What has no slash before that component lies in the dot,
and what is at the top lies in the root. -/
def dirname (path : List UInt8) : List UInt8 :=
  let path := CString.content path
  let trimmed := trimSlashes path
  if trimmed.isEmpty then (if path.isEmpty then dot else [slash])
  else
    let front := throughLastSlash trimmed
    if front.isEmpty then dot
    else
      let directory := trimSlashes front
      if directory.isEmpty then [slash] else directory

end CText.Path
