/-
# Values of arguments

What an option or an operand is given is read at once, in the form that the command
asks for.

| form | written |
| --- | --- |
| `text` | anything |
| `fileName` | anything but nothing |
| `natural32` | a whole number of 32 bits with an optional sign |
| `natural64` | a whole number of 64 bits, with an optional plus |
| `double` | a double |
-/

import GlobeView.Number.Reading

namespace GlobeView
namespace Arguments

/-- What a value has to be. -/
inductive ValueForm where
  | text
  | fileName
  | natural32
  | natural64
  | double
  deriving DecidableEq, Repr

/-- A value that was read. -/
inductive Value where
  | text (value : String)
  | natural (value : Nat)
  | double (value : Float)
  deriving DecidableEq

namespace Value

/-- The text of a value. -/
def text? : Value → Option String
  | text s => some s
  | _ => none

/-- The whole number of a value. -/
def natural? : Value → Option Nat
  | natural n => some n
  | _ => none

/-- The double of a value. -/
def double? : Value → Option Float
  | double x => some x
  | _ => none

end Value

/-- A whole number of 32 bits; the sign of zero is of no account. -/
def readNatural32 (text : String) : Option Nat :=
  (readInt text.toList).bind fun i =>
    if 0 ≤ i ∧ i ≤ 4294967295 then some i.toNat else none

/-- A whole number of 64 bits. -/
def readNatural64 (text : String) : Option Nat :=
  let cs := text.toList
  (readNat (if cs.head? = some '+' then cs.tail else cs)).filter (· ≤ 18446744073709551615)

/-- The value of a text, if the text has the form. -/
def ValueForm.read (form : ValueForm) (text : String) : Option Value :=
  match form with
  | .text => some (.text text)
  | .fileName => if text = "" then none else some (.text text)
  | .natural32 => (readNatural32 text).map .natural
  | .natural64 => (readNatural64 text).map .natural
  | .double => (readDouble text).map .double

end Arguments
end GlobeView
