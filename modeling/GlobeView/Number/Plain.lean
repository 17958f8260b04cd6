/-
# Numbers in plain positional notation

`plain` writes a double with the fewest digits that read back, a point where
one is needed and never an exponent: `1`, `0.5`, `0.0000001`,
`1000000000000000000000`, `-0`.  Of two equally close decimals it takes the
upper one.

`toFixed` writes a double with a set number of places for labels, exact halves
going away from zero.  `closest` writes the closest decimal with so many places,
but its halves go to the even digit.  So the double is first written out in full:
where a five and zeros follow the last place that is wanted, what stands before
them is counted up by one in that place, and otherwise the closest decimal is
taken.
-/

import GlobeView.Number.Shortest

namespace GlobeView

open Float.Model

/-- The decimal digits of a natural number. -/
def decimalDigits (n : Nat) : List Char :=
  Nat.toDigits 10 n

/-- The decimal digits of a natural number, at least `width` of them. -/
def paddedDigits (width n : Nat) : List Char :=
  List.leftpad width '0' (decimalDigits n)

namespace Decimal

/-- The decimal in positional notation, with a point only before a digit. -/
def positional (d : Decimal) : List Char :=
  let ds := decimalDigits d.digits
  if 0 ≤ d.exponent then
    ds ++ List.replicate d.exponent.toNat '0'
  else
    let places := (-d.exponent).toNat
    if places < ds.length then
      ds.take (ds.length - places) ++ '.' :: ds.drop (ds.length - places)
    else
      '0' :: '.' :: (List.replicate (places - ds.length) '0' ++ ds)

end Decimal

/-- A minus sign for negative numbers. -/
def signText : UnpackedFloat.Sign → List Char
  | .negative => ['-']
  | .positive => []

/-- The double in plain notation with the fewest digits that read back. -/
def plain (x : Float) : List Char :=
  match x.toModel.unpack with
  | .notANumber => ['N', 'a', 'N']
  | .infinity s => signText s ++ ['i', 'n', 'f']
  | .zero s => signText s ++ ['0']
  | .finite s m e _ => signText s ++ (Decimal.shortest .up m e).positional

/-- `n / 10^places` with exactly that many places and no superfluous leading zero. -/
def placed (places n : Nat) : List Char :=
  let ds := paddedDigits (places + 1) n
  if places = 0 then ds
  else ds.take (ds.length - places) ++ '.' :: ds.drop (ds.length - places)

/-- The digit after `c`; any other character is followed by the next code point. -/
def nextDigit (c : Char) : Char :=
  Char.ofNat (c.toNat + 1)

/-- Counts a number up by one, its last digit standing first: nines turn over,
points are stepped over, and a number of nines only grows a leading one. -/
def carry : List Char → List Char
  | [] => ['1']
  | c :: rest =>
    if c = '.' then '.' :: carry rest
    else if c = '9' then '0' :: carry rest
    else nextDigit c :: rest

/-- One unit more in the last place of a plain decimal. -/
def incrementLastDigit (text : List Char) : List Char :=
  (carry text.reverse).reverse

/-- The natural closest to `a / b`, a half going to the even neighbour. -/
def quotientToEven (a b : Nat) : Nat :=
  if 2 * (a % b) < b ∨ (2 * (a % b) = b ∧ a / b % 2 = 0) then a / b else a / b + 1

/-- The decimal with a set number of places that is closest to `m · 2^e`, a half
going to the even digit. -/
def closest (places m : Nat) (e : Int) : List Char :=
  placed places <|
    quotientToEven (m * Nat.pow 2 e.toNat * Nat.pow 10 places) (Nat.pow 2 (-e).toNat)

/-- More places than any double needs to be written out in full. -/
def exactPlaces : Nat :=
  1075

/-- Whether what follows the last place is half a unit: a five, and then only zeros. -/
def isHalf : List Char → Bool
  | [] => false
  | c :: rest => c == '5' && rest.all (· == '0')

/-- A text without a point at its end. -/
def withoutPoint (text : List Char) : List Char :=
  if text.getLast? = some '.' then text.dropLast else text

/-- `m · 2^e` with a set number of places, halves going up. -/
def fixedMagnitude (places m : Nat) (e : Int) : List Char :=
  let exact := closest (places + exactPlaces) m e
  let cut := exact.length - exactPlaces
  if isHalf (exact.drop cut) then incrementLastDigit (withoutPoint (exact.take cut))
  else closest places m e

/-- The double with exactly `places` digits after the point; a minus sign for
every number below zero, also when only zeros are left of it. -/
def toFixed (x : Float) (places : Nat) : List Char :=
  match x.toModel.unpack with
  | .zero _ => fixedMagnitude places 0 0
  | .finite s m e _ => signText s ++ fixedMagnitude places m e
  | _ => plain x

end GlobeView
