/-!
# Binary floating-point numbers

A number of the 64-bit format is a sign, a whole number below `2 ^ 53` and a power of two from
`2 ^ -1074` on. Everything is worked out in whole numbers: a rational number goes to the nearest
number of the format, and of two equally near to the one that is even. The text of a number is the
shortest decimal that goes back to it, and of the shortest the nearest.
-/

namespace CText.Json

/-- A finite number: `significand * 2 ^ exponent`, negated if `negative`. -/
structure Binary64 where
  negative : Bool
  significand : Nat
  exponent : Int
  deriving DecidableEq

namespace Binary64

def leastExponent : Int := -1074

def greatestExponent : Int := 971

/-- `num / den` shifted by a power of two, as numerator and denominator. -/
def scaled (num den : Nat) (exponent : Int) : Nat × Nat :=
  if 0 ≤ exponent then (num, den * Nat.pow 2 exponent.toNat)
  else (num * Nat.pow 2 (-exponent).toNat, den)

def nearestWhole (num den : Nat) : Nat :=
  let q := num / den
  let r := num % den
  if 2 * r < den then q else if 2 * r = den ∧ q % 2 = 0 then q else q + 1

/-- The exponent at which `num / den` has 53 binary digits, or the least one. -/
def exponentFor (num den : Nat) : Int :=
  let guess : Int := (num.log2 : Int) - den.log2 - 52
  let (a, b) := scaled num den guess
  let guess := if a < b * Nat.pow 2 52 then guess - 1 else guess
  max guess leastExponent

/-- The number nearest to `num / den`, if it is not too large. -/
def nearest? (num den : Nat) : Option (Nat × Int) :=
  if num = 0 then some (0, leastExponent)
  else
    let exponent := exponentFor num den
    let (a, b) := scaled num den exponent
    let m := nearestWhole a b
    let (m, exponent) := if m = Nat.pow 2 53 then (Nat.pow 2 52, exponent + 1) else (m, exponent)
    if exponent ≤ greatestExponent then some (m, exponent) else none

def times? (x y : Nat × Int) : Option (Nat × Int) :=
  let (num, den) := scaled (x.1 * y.1) 1 (-(x.2 + y.2))
  nearest? num den

def quotient? (x y : Nat × Int) : Option (Nat × Int) :=
  let (num, den) := scaled x.1 y.1 (y.2 - x.2)
  nearest? num den

def powerOfTen? (k : Nat) : Option (Nat × Int) := nearest? (Nat.pow 10 k) 1

/-- `x` times `10 ^ exponent` by one multiplication or division with a power of ten up to the
308th, after as many divisions by that one as it takes to bring the exponent there. -/
def scaleByTens? (steps : Nat) (x : Nat × Int) (exponent : Int) : Option (Nat × Int) :=
  if x.1 = 0 then some x
  else if 308 < exponent then none
  else if 0 ≤ exponent then (powerOfTen? exponent.toNat).bind (times? x)
  else if -308 ≤ exponent then (powerOfTen? (-exponent).toNat).bind (quotient? x)
  else match steps with
    | 0 => none
    | steps + 1 =>
      ((powerOfTen? 308).bind (quotient? x)).bind fun x => scaleByTens? steps x (exponent + 308)

/-- The number for a significand of up to 64 bits and a power of ten, if it is not too large. Three
divisions by the 308th power of ten make every such significand zero. -/
def ofDecimal? (negative : Bool) (significand : Nat) (exponent : Int) : Option Binary64 :=
  (nearest? significand 1).bind fun x =>
    (scaleByTens? 4 x exponent).map fun (m, e) => ⟨negative, m, e⟩

/-- Whether `digits * 10 ^ power` goes to the number `m * 2 ^ e`. -/
def goesTo (m : Nat) (e : Int) (digits : Nat) (power : Int) : Bool :=
  let (num, den) :=
    if 0 ≤ power then (digits * Nat.pow 10 power.toNat, 1) else (digits, Nat.pow 10 (-power).toNat)
  nearest? num den == some (m, e)

/-- The decimal with `count` digits that is nearest to `num / den` among those that go to
`m * 2 ^ e`, with its power of ten. `magnitude` is the number of digits before the point. -/
def withDigits? (m : Nat) (e : Int) (num den : Nat) (magnitude : Int) (count : Nat) :
    Option (Nat × Int) :=
  let power := magnitude - count
  let (a, b) := if 0 ≤ power then (num, den * Nat.pow 10 power.toNat)
    else (num * Nat.pow 10 (-power).toNat, den)
  let low := a / b
  let near := nearestWhole a b
  let far := if near = low then low + 1 else low
  if goesTo m e near power then some (near, power)
  else if goesTo m e far power then some (far, power)
  else none

/-- The number of decimal digits of the whole part of `num / den`, or minus the number of zeros
after the point. -/
def magnitudeOf (num den : Nat) : Int :=
  if den ≤ num then (Nat.toDigits 10 (num / den)).length
  else
    let zeros := (List.range 400).takeWhile fun k => num * Nat.pow 10 (k + 1) < den
    Int.neg zeros.length

def dropZeros : (steps : Nat) → Nat × Int → Nat × Int
  | 0, x => x
  | steps + 1, (digits, power) =>
    if digits ≠ 0 ∧ digits % 10 = 0 then dropZeros steps (digits / 10, power + 1)
    else (digits, power)

/-- The shortest decimal that goes to `m * 2 ^ e`, as digits and a power of ten. -/
def shortest (m : Nat) (e : Int) : Nat × Int :=
  let (num, den) := scaled m 1 (-e)
  let magnitude := magnitudeOf num den
  let found := (List.range 17).findSome? fun k => withDigits? m e num den magnitude (k + 1)
  dropZeros 20 (found.getD (0, 0))

def signed (n : Int) : List Char :=
  (if n < 0 then '-' else '+') :: Nat.toDigits 10 n.natAbs

/-- The text of a number: with a point where the digits reach it within sixteen places before or
five after it, and with a signed exponent otherwise. -/
def text (x : Binary64) : String :=
  let sign := if x.negative then "-" else ""
  if x.significand = 0 then sign ++ "0.0"
  else
    let (digits, power) := shortest x.significand x.exponent
    let shown := (Nat.toDigits 10 digits)
    let point : Int := shown.length + power
    let zeros (n : Int) : List Char := List.replicate n.toNat '0'
    let body :=
      if 0 ≤ power ∧ point ≤ 16 then shown ++ zeros power ++ ['.', '0']
      else if 0 < point ∧ point ≤ 16 then
        shown.take point.toNat ++ '.' :: shown.drop point.toNat
      else if -5 < point ∧ point ≤ 0 then ['0', '.'] ++ zeros (-point) ++ shown
      else
        let lead := if shown.length = 1 then shown else shown.take 1 ++ '.' :: shown.drop 1
        lead ++ 'e' :: signed (point - 1)
    sign ++ String.ofList body

end Binary64

end CText.Json
