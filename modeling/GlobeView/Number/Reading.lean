/-
# Reading numbers

`readDouble` accepts an optional sign and then either digits with at most one
point among or around them and an optional decimal exponent, or one of the
words `inf`, `infinity` and `nan` in any case.  The whole text has to be used.
The result is the double nearest to the number written, ties to even.
-/

namespace GlobeView

/-- The number that a run of decimal digits denotes. -/
def natOfDigits (ds : List Char) : Nat :=
  ds.foldl (fun n c => 10 * n + (c.toNat - '0'.toNat)) 0

/-- A natural number written with at least one digit and nothing else. -/
def readNat (cs : List Char) : Option Nat :=
  if cs.isEmpty || !cs.all Char.isDigit then none else some (natOfDigits cs)

/-- A number with an optional sign, which a reader of the rest interprets. -/
def readSigned {α : Type} (negate : α → α) (read : List Char → Option α) :
    List Char → Option α
  | '+' :: cs => read cs
  | '-' :: cs => (read cs).map negate
  | cs => read cs

/-- An integer with an optional sign. -/
def readInt (cs : List Char) : Option Int :=
  readSigned Neg.neg (fun ds => (readNat ds).map Int.ofNat) cs

/-- The double nearest to `m · 10^e`. -/
def doubleOfDecimal (m : Nat) (e : Int) : Float :=
  Float.ofScientific m (decide (e < 0)) e.natAbs

/-- The exponent at the end of a number: nothing, or `e` and an integer. -/
def readExponent : List Char → Option Int
  | [] => some 0
  | c :: cs => if c = 'e' ∨ c = 'E' then readInt cs else none

/-- A positive infinity, from which the sign is taken apart. -/
def infinity : Float :=
  1.0 / 0.0

/-- The value that is no number. -/
def nan : Float :=
  0.0 / 0.0

/-- A number written in digits, without a sign. -/
def readDigits (cs : List Char) : Option Float :=
  let (whole, rest) := cs.span Char.isDigit
  let (places, rest) := match rest with
    | '.' :: rest => rest.span Char.isDigit
    | _ => ([], rest)
  if whole.isEmpty && places.isEmpty then none
  else (readExponent rest).map fun e =>
    doubleOfDecimal (natOfDigits (whole ++ places)) (e - places.length)

/-- A number without a sign, in digits or as a word. -/
def readMagnitude (cs : List Char) : Option Float :=
  let word := String.ofList (cs.map Char.toLower)
  if word = "nan" then some nan
  else if word = "inf" ∨ word = "infinity" then some infinity
  else readDigits cs

/-- A double written in decimal. -/
def readDouble (text : String) : Option Float :=
  readSigned Neg.neg readMagnitude text.toList

end GlobeView
