import CText.Size.Basic

/-!
# Writing sizes

A size is written in the largest unit that leaves a whole number above zero, with one decimal place
that is cut, not rounded, and not written if it is zero. Sizes that need no letter are plain bytes.
-/

namespace CText.Size

/-- The largest power of the base that is at most `n`, the sixth being the last looked at. -/
def powerOf (base : Base) (n : Nat) : Nat :=
  ((List.range 6).takeWhile fun k => Nat.pow base.value (k + 1) ≤ n).length

def render (base : Base) (n : Nat) : List UInt8 :=
  match powerOf base n with
  | 0 => Ascii.decimal n ++ [Ascii.byte 'B']
  | power + 1 =>
    let tenths := n * 10 / Nat.pow base.value (power + 1)
    let place := if tenths % 10 = 0 then [] else Ascii.byte '.' :: Ascii.decimal (tenths % 10)
    let mark := match base with
      | .decimal => []
      | .binary => [Ascii.byte 'i']
    Ascii.decimal (tenths / 10) ++ place ++ (letters.drop power).take 1 ++ mark ++ [Ascii.byte 'B']

end CText.Size
