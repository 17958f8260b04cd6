/-
# Numbers in JSON

A number is an optional minus, digits without a superfluous zero in front, and
possibly a point with digits and an exponent with digits.

Without point and exponent it is an integer, as long as it fits in 64 bits; minus
zero is a double.  All others are doubles, computed in two roundings: as many
leading digits as fit in 64 bits are taken as a whole number and made a double,
which is then multiplied with a power of ten or divided by one.  A number that
grows beyond the doubles on the way has no value.
-/

import GlobeView.Document.Tree
import GlobeView.Number.Reading

namespace GlobeView
namespace JsonNumber

/-- A number as it is written. -/
structure Written where
  negative : Bool
  whole : List Char
  /-- The digits after the point, if there is one. -/
  places : Option (List Char)
  /-- The sign and the digits of the exponent, if there is one. -/
  exponent : Option (Bool × List Char)
  deriving DecidableEq, Repr

/-- The digits before the point, and the rest. -/
def whole (cs : List Char) : Option (List Char × List Char) :=
  match cs.span Char.isDigit with
  | ([], _) => none
  | ('0' :: _ :: _, _) => none
  | parts => some parts

/-- The point and the digits after it, and the rest. -/
def places : List Char → Option (Option (List Char) × List Char)
  | '.' :: cs => match cs.span Char.isDigit with
    | ([], _) => none
    | (ds, rest) => some (some ds, rest)
  | cs => some (none, cs)

/-- The digits of an exponent, and the rest. -/
def exponentDigits (negative : Bool) (cs : List Char) :
    Option (Option (Bool × List Char) × List Char) :=
  match cs.span Char.isDigit with
  | ([], _) => none
  | (ds, rest) => some (some (negative, ds), rest)

/-- The exponent, and the rest. -/
def exponent : List Char → Option (Option (Bool × List Char) × List Char)
  | [] => some (none, [])
  | c :: cs =>
    if c = 'e' ∨ c = 'E' then
      match cs with
      | '+' :: cs => exponentDigits false cs
      | '-' :: cs => exponentDigits true cs
      | cs => exponentDigits false cs
    else some (none, c :: cs)

/-- A number without its minus, and the rest. -/
def magnitude (negative : Bool) (cs : List Char) : Option (Written × List Char) := do
  let (whole, cs) ← whole cs
  let (places, cs) ← places cs
  let (exponent, cs) ← exponent cs
  some (⟨negative, whole, places, exponent⟩, cs)

/-- The number at the front of a text, and the rest. -/
def written : List Char → Option (Written × List Char)
  | '-' :: cs => magnitude true cs
  | cs => magnitude false cs

/-- The greatest whole number of 64 bits. -/
def greatest : Nat :=
  18446744073709551615

/-- Takes digits behind `s` for as long as the number fits in 64 bits; returns
the number and the digits that are left. -/
def takeDigits (s : Nat) : List Char → Nat × List Char
  | [] => (s, [])
  | c :: cs =>
    let next := s * 10 + natOfDigits [c]
    if greatest < next then (s, c :: cs) else takeDigits next cs

/-- `10^n` as a double. -/
def powerOfTen (n : Nat) : Float :=
  doubleOfDecimal 1 n

/-- `x · 10^e`, rounded at every step, unless it grows beyond the doubles.  Each
step in `fuel` divides by the greatest power of ten that is a double. -/
def scale : Nat → Float → Int → Option Float
  | 0, _, _ => some 0.0
  | fuel + 1, x, e =>
    if e.natAbs ≤ 308 then
      if 0 ≤ e then
        let y := x * powerOfTen e.toNat
        if y.isInf then none else some y
      else some (x / powerOfTen e.natAbs)
    else if x == 0.0 then some x
    else if 0 ≤ e then none
    else scale fuel (x / powerOfTen 308) (e + 308)

/-- The steps after which nothing is left of a whole number of 64 bits. -/
def steps : Nat :=
  4

/-- The greatest exponent that is told from larger ones. -/
def greatestExponent : Nat :=
  2147483647

/-- An exponent held inside 32 bits. -/
def holdExponent (e : Int) : Int :=
  Exact.within (-2147483648) greatestExponent e

/-- The double `s · 10^(places + exponent)`, unless it is out of range. -/
def double (s : Nat) (places : Int) : Option (Bool × List Char) → Option Float
  | none => scale steps (Float.ofNat s) places
  | some (negative, ds) =>
    let e := natOfDigits ds
    if greatestExponent < e then
      if s ≠ 0 ∧ !negative then none else some 0.0
    else
      scale steps (Float.ofNat s) (holdExponent (if negative then places - e else places + e))

/-- The magnitude of a number that is a double. -/
def Written.double (w : Written) : Option Float :=
  let (s, left) := takeDigits 0 w.whole
  let (s, taken) := match w.places with
    | none => (s, 0)
    | some ds =>
      let (t, left') := takeDigits s ds
      (t, ds.length - left'.length)
  JsonNumber.double s ((left.length : Int) - taken) w.exponent

/-- The integer that the number is, unless it is a double. -/
def Written.integer? (w : Written) : Option Tree :=
  let n := natOfDigits w.whole
  match w.places, w.exponent with
  | none, none =>
    if w.negative then if 0 < n ∧ n ≤ 9223372036854775808 then some (.negative n) else none
    else if n ≤ greatest then some (.natural n) else none
  | _, _ => none

/-- The value of a number. -/
def Written.toTree (w : Written) : Tree :=
  match w.integer? with
  | some t => t
  | none => match w.double with
    | some x => .real (if w.negative then -x else x)
    | none => .unreadable

end JsonNumber
end GlobeView
