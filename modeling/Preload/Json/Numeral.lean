import Preload.Json
import Preload.Text.Split
/-!
# Numbers in JSON text

A numeral is read digit by digit into 64 bits. Digits that do not fit any more are left out; of
those before the point each still counts as a power of ten. A numeral with neither point nor
exponent whose digits all fit is a whole number, and everything else is the double made of those
digits and the power of ten (`Double.scale?`).
-/

namespace Preload.Json

/-- A number as it is written. -/
structure Numeral where
  negative : Bool
  /-- The digits before the point. -/
  whole : List Nat
  /-- The digits after the point, if there is one. -/
  fraction : Option (List Nat)
  /-- The power of ten, if one is written. -/
  exponent : Option Int
  deriving DecidableEq, Repr, Inhabited

/-- Takes digits into a number as long as it stays below `2 ^ 64`. Gives the number and the digits
that are left. -/
def absorbDigits (n : Nat) : List Nat → Nat × List Nat
  | [] => (n, [])
  | d :: ds => if n * 10 + d < Nat.pow 2 64 then absorbDigits (n * 10 + d) ds else (n, d :: ds)

namespace Numeral

/-- The double that a numeral stands for, or `none` if it is too large. -/
def toDouble? (n : Numeral) : Option Double :=
  let (significand, surplus) := absorbDigits 0 n.whole
  let fraction := n.fraction.getD []
  let (significand, unread) := absorbDigits significand fraction
  let places : Int := (fraction.length : Int) - unread.length
  (Double.ofNat? n.negative significand).bind
    (·.scale? (surplus.length - places + n.exponent.getD 0))

/-- The whole number that a numeral stands for, if it fits. There is no whole number for `-0`. -/
def toInt? (n : Numeral) : Option Int :=
  match n.fraction, n.exponent, absorbDigits 0 n.whole with
  | none, none, (m, []) =>
    if !n.negative then some m
    else if 0 < m ∧ m ≤ Nat.pow 2 63 then some (-m)
    else none
  | _, _, _ => none

/-- The value of a numeral, or `none` if it is too large. -/
def value? (n : Numeral) : Option Json :=
  match n.toInt? with
  | some i => some (.int i)
  | none => n.toDouble?.map .float

end Numeral

/-- Cuts a text after the digits at its front, given as numbers. -/
def takeDigits (cs : List Char) : List Nat × List Char :=
  let s := Split.run Char.isDigit cs
  (s.taken.map fun c => c.toNat - '0'.toNat, s.rest)

/-- The number that a list of decimal digits stands for. -/
def ofDigits (ds : List Nat) : Nat :=
  ds.foldl (fun n d => n * 10 + d) 0

end Preload.Json
