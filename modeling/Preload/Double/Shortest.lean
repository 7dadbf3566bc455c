import Preload.Double
/-!
# The shortest decimal of a double

A double is written with the fewest digits that still read back as it. All reals closer to it than
to its neighbours do, and those half way to a neighbour if its mantissa is even
(`Double.readsBack`). On the coarsest decimal grid with such a point the nearest one is chosen, the
even one at a tie.

The digits are written out around a point if that takes no more than sixteen places before it and no
more than four zeros after it (`Decimal.text`); otherwise there is an exponent, as in `1.5e-7`.
-/

namespace Preload

/-- The number `digits * 10 ^ exponent`. -/
structure Decimal where
  digits : Nat
  exponent : Int
  deriving DecidableEq, Repr, Inhabited

namespace Double

/-- Whether the decimal `digits * 10 ^ exponent` is nearer to the size of `d` than to that of any
other double, where half way counts for an even mantissa. -/
def readsBack (d : Double) (exponent : Int) (digits : Nat) : Bool :=
  -- Everything is multiplied by `4 * 10 ^ -exponent * 2 ^ -d.exponent` to make it whole.
  let decimal := 4 * digits * Nat.pow 10 exponent.toNat * Nat.pow 2 (-d.exponent).toNat
  let unit := Nat.pow 2 d.exponent.toNat * Nat.pow 10 (-exponent).toNat
  let below := if d.mantissa = Nat.pow 2 52 ∧ minExponent < d.exponent then 1 else 2
  let low := (4 * d.mantissa - below) * unit
  let high := (4 * d.mantissa + 2) * unit
  if d.mantissa % 2 = 0 then low ≤ decimal && decimal ≤ high else low < decimal && decimal < high

/-- The point of the grid of multiples of `10 ^ exponent` that is nearest to the size of `d`, if it
reads back as `d`. -/
def onGrid? (d : Double) (exponent : Int) : Option Decimal :=
  let num := d.mantissa * Nat.pow 2 d.exponent.toNat * Nat.pow 10 (-exponent).toNat
  let den := Nat.pow 2 (-d.exponent).toNat * Nat.pow 10 exponent.toNat
  let low := num / den
  let nearest := divNearestEven num den
  ([nearest, low, low + 1].find? (d.readsBack exponent)).map (⟨·, exponent⟩)

/-- The coarsest grid that needs to be tried: no double reaches `10 ^ 309`. -/
def coarsestGrid : Int := 309

/-- The number of grids down to one finer than the gaps between the smallest doubles. -/
def gridCount : Nat := 652

/-- The shortest decimal that reads back as the size of `d`. -/
def shortest (d : Double) : Decimal :=
  if d.isZero then ⟨0, 0⟩
  else ((List.range gridCount).findSome? fun (i : Nat) => d.onGrid? (coarsestGrid - i)).getD ⟨0, 0⟩

end Double

namespace Decimal

/-- The greatest number of places before the point that are written out. -/
def maxPlaces : Int := 16

/-- The greatest number of zeros after the point that are written out in front of other digits. -/
def maxZeros : Int := 4

/-- The text of a decimal, with at least one digit on either side of a point. -/
def text (d : Decimal) : String :=
  let digits := Nat.toDigits 10 d.digits
  -- The number of places before the point.
  let places : Int := digits.length + d.exponent
  let chars :=
    if 0 ≤ d.exponent ∧ places ≤ maxPlaces then
      digits ++ List.replicate d.exponent.toNat '0' ++ ['.', '0']
    else if 0 < places ∧ places ≤ maxPlaces then
      digits.take places.toNat ++ '.' :: digits.drop places.toNat
    else if -maxZeros ≤ places ∧ places ≤ 0 then
      '0' :: '.' :: List.replicate (-places).toNat '0' ++ digits
    else
      let point := if digits.length = 1 then [] else ['.']
      digits.take 1 ++ point ++ digits.drop 1 ++ 'e' :: (toString (places - 1)).toList
  String.ofList chars

end Decimal

namespace Double

/-- The text of a double. -/
def text (d : Double) : String :=
  (if d.negative then "-" else "") ++ d.shortest.text

end Double

end Preload
