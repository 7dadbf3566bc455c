/-!
# Numbers of 64-bit binary floating point

A finite double is held exactly, as a sign, a mantissa and a power of two. Arithmetic on doubles
takes the exact result and rounds it once (`Double.round?`): to the nearest double, a half to the
one with even mantissa.
-/

namespace Preload

/-- The whole number nearest to `num / den`; a half goes to the even neighbour. -/
def divNearestEven (num den : Nat) : Nat :=
  let quotient := num / den
  let twice := 2 * (num % den)
  if twice < den then quotient
  else if den < twice then quotient + 1
  else quotient + quotient % 2

/-- The number `mantissa * 2 ^ exponent`, negated if `negative`. -/
structure Double where
  negative : Bool
  /-- Less than `2 ^ 53`, and at least `2 ^ 52` unless the exponent is the least there is. -/
  mantissa : Nat
  exponent : Int
  deriving DecidableEq, Repr, Inhabited

namespace Double

/-- The least exponent. -/
def minExponent : Int := -1074

/-- The greatest exponent. -/
def maxExponent : Int := 971

/-- Nothing, with a sign. -/
def zero (negative : Bool) : Double :=
  ⟨negative, 0, minExponent⟩

/-- Whether the number is zero, whatever its sign. -/
def isZero (d : Double) : Bool :=
  d.mantissa == 0

/-- The greatest power of two that is no larger than `num / den`, by its exponent. -/
def binaryScale (num den : Nat) : Int :=
  let scale : Int := (num.log2 : Int) - den.log2
  if den * Nat.pow 2 scale.toNat ≤ num * Nat.pow 2 (-scale).toNat then scale else scale - 1

/-- The double nearest to `num / den * 2 ^ exponent`, or `none` if that is beyond the largest
one. -/
def round? (negative : Bool) (num den : Nat) (exponent : Int) : Option Double :=
  if num = 0 then some (zero negative)
  else
    let num := num * Nat.pow 2 exponent.toNat
    let den := den * Nat.pow 2 (-exponent).toNat
    let exponent := max (binaryScale num den - 52) minExponent
    let mantissa :=
      divNearestEven (num * Nat.pow 2 (-exponent).toNat) (den * Nat.pow 2 exponent.toNat)
    let rounded : Double :=
      if mantissa = Nat.pow 2 53 then ⟨negative, Nat.pow 2 52, exponent + 1⟩
      else ⟨negative, mantissa, exponent⟩
    if maxExponent < rounded.exponent then none else some rounded

/-- The product of two doubles, with the sign of the first. -/
def mul? (a b : Double) : Option Double :=
  round? a.negative (a.mantissa * b.mantissa) 1 (a.exponent + b.exponent)

/-- The quotient of two doubles, with the sign of the first. -/
def div? (a b : Double) : Option Double :=
  round? a.negative a.mantissa b.mantissa (a.exponent - b.exponent)

/-- The double nearest to a whole number. -/
def ofNat? (negative : Bool) (n : Nat) : Option Double :=
  round? negative n 1 0

/-- The greatest power of ten that a double can hold, by its exponent. -/
def maxDecimalExponent : Nat := 308

/-- The double nearest to a power of ten. -/
def powerOfTen? (exponent : Nat) : Option Double :=
  ofNat? false (Nat.pow 10 exponent)

/-- Divides by the greatest power of ten, as often as `times` says or until nothing is left. -/
def shrink? (d : Double) : Nat → Option Double
  | 0 => some d
  | times + 1 =>
    if d.isZero then some d
    else ((powerOfTen? maxDecimalExponent).bind d.div?).bind fun d => d.shrink? times

/-- The double `d * 10 ^ exponent` by one multiplication or division with a power of ten, after
several divisions where one power is too large for a double. -/
def scale? (d : Double) (exponent : Int) : Option Double :=
  if d.isZero then some d
  else if 0 ≤ exponent then
    if exponent ≤ maxDecimalExponent then (powerOfTen? exponent.toNat).bind d.mul? else none
  else
    let places := (-exponent).toNat
    let times := (places - 1) / maxDecimalExponent
    (d.shrink? times).bind fun d =>
      (powerOfTen? (places - maxDecimalExponent * times)).bind d.div?

end Double

end Preload
