/-
# The fewest digits that read back

The reals that round to a finite double `m · 2^e` form an interval: from
halfway to the double below to halfway to the double above, ends included
exactly when `m` is even.  `shortest` returns the decimal with the fewest
digits inside it, and of those the one closest to the double.

| step | definition |
| --- | --- |
| the interval, in quarters of `2^e` | `lowerEnd`, `upperEnd` |
| is a decimal inside it? | `readsBack` |
| the two decimals around the double on a grid `10^p` | `floorOn`, and one more |
| grids from one digit to seventeen, the first with a hit wins | `shortest` |

Every comparison is between naturals, so nothing here is rounded.
-/

namespace GlobeView

/-- `digits · 10^exponent`. -/
structure Decimal where
  digits : Nat
  exponent : Int
  deriving DecidableEq, Repr

namespace Decimal

/-- Which of two equally close decimals is taken. -/
inductive Tie where
  | up
  | even
  deriving DecidableEq, Repr

/-- Compares `d · 10^p` with `b · 2^q`. -/
def compareBinary (d : Decimal) (b : Nat) (q : Int) : Ordering :=
  compare (d.digits * Nat.pow 10 d.exponent.toNat * Nat.pow 2 (-q).toNat)
    (b * Nat.pow 2 q.toNat * Nat.pow 10 (-d.exponent).toNat)

/-- The lower end of the interval of `m · 2^e`, in units of `2^(e-2)`.  Above a
power of two the double below is half as far away as the one above. -/
def lowerEnd (m : Nat) (e : Int) : Nat :=
  if m = Nat.pow 2 52 ∧ -1074 < e then 4 * m - 1 else 4 * m - 2

/-- The upper end of the interval of `m · 2^e`, in units of `2^(e-2)`. -/
def upperEnd (m : Nat) : Nat :=
  4 * m + 2

/-- Whether the decimal lies among the reals that round to `m · 2^e`. -/
def readsBack (m : Nat) (e : Int) (d : Decimal) : Bool :=
  let low := d.compareBinary (lowerEnd m e) (e - 2)
  let high := d.compareBinary (upperEnd m) (e - 2)
  if m % 2 = 0 then low != .lt && high != .gt else low == .gt && high == .lt

/-- `⌊m · 2^e / 10^p⌋`. -/
def floorOn (m : Nat) (e p : Int) : Nat :=
  (m * Nat.pow 2 e.toNat * Nat.pow 10 (-p).toNat) / (Nat.pow 2 (-e).toNat * Nat.pow 10 p.toNat)

/-- Raises `k`, at most `fuel` times, until `m · 2^e < 10^k`. -/
def raise (m : Nat) (e : Int) : Nat → Int → Int
  | 0, k => k
  | fuel + 1, k =>
    if compareBinary ⟨1, k⟩ m e == .gt then k else raise m e fuel (k + 1)

/-- The number `k` with `10^(k-1) ≤ m · 2^e < 10^k`.  The starting point comes
from the binary logarithm and is at most four too small. -/
def magnitude (m : Nat) (e : Int) : Int :=
  raise m e 5 ((m.log2 + e) * 30103 / 100000 - 1)

/-- Of the decimals `f · 10^p` and `(f + 1) · 10^p` the one closer to `m · 2^e`. -/
def closer (tie : Tie) (m : Nat) (e : Int) (f : Nat) (p : Int) : Decimal :=
  match compareBinary ⟨2 * f + 1, p⟩ (2 * m) e with
  | .lt => ⟨f + 1, p⟩
  | .gt => ⟨f, p⟩
  | .eq => match tie with
    | .up => ⟨f + 1, p⟩
    | .even => if f % 2 = 0 then ⟨f, p⟩ else ⟨f + 1, p⟩

/-- The decimal on the grid `10^p` that reads back as `m · 2^e`, if there is one. -/
def onGrid (tie : Tie) (m : Nat) (e p : Int) : Option Decimal :=
  let f := floorOn m e p
  match readsBack m e ⟨f, p⟩, readsBack m e ⟨f + 1, p⟩ with
  | true, true => some (closer tie m e f p)
  | true, false => some ⟨f, p⟩
  | false, true => some ⟨f + 1, p⟩
  | false, false => none

/-- All the digits of `m · 2^e`. -/
def exact (m : Nat) (e : Int) : Decimal :=
  if 0 ≤ e then ⟨m * Nat.pow 2 e.toNat, 0⟩ else ⟨m * Nat.pow 5 (-e).toNat, e⟩

/-- The same decimal without trailing zeros in its digits. -/
def strip (digits : Nat) (exponent : Int) : Decimal :=
  if 0 < digits ∧ digits % 10 = 0 then strip (digits / 10) (exponent + 1)
  else ⟨digits, exponent⟩
termination_by digits
decreasing_by omega

/-- The shortest decimal that reads back as the positive double `m · 2^e`. -/
def shortest (tie : Tie) (m : Nat) (e : Int) : Decimal :=
  let k := magnitude m e
  let d := ((List.range 17).findSome? fun i : Nat => onGrid tie m e (k - (i + 1))).getD (exact m e)
  strip d.digits d.exponent

end Decimal
end GlobeView
