/-
# Timestamps

`Moment.ofTimestamp?` reads a date, a `T` or a space, a time with seconds and
possibly a fraction, and an offset:

```text
2013-11-14T09:30:00Z    2013-11-14t23:15:00.25-05:00
```

Letters may be small, the offset is `Z` or at most 23:59 either way, and its
minus may be the typographic one.  A second numbered 60 is a leap second.
-/

import GlobeView.Calendar.Moment
import GlobeView.Number.Reading

namespace GlobeView
namespace Timestamp

/-- What a reader makes of the front of a text, and the rest of it. -/
abbrev Reader (α : Type) :=
  List Char → Option (α × List Char)

/-- Exactly `n` digits. -/
def digits (n : Nat) : Reader Nat := fun cs =>
  let ds := cs.take n
  if ds.length = n ∧ ds.all Char.isDigit then some (natOfDigits ds, cs.drop n) else none

/-- Exactly the given character. -/
def mark (c : Char) : Reader Unit
  | d :: cs => if c = d then some ((), cs) else none
  | [] => none

/-- What stands between date and time. -/
def separator : Reader Unit
  | c :: cs => if c = 'T' ∨ c = 't' ∨ c = ' ' then some ((), cs) else none
  | [] => none

/-- Nanoseconds after a point; digits beyond the ninth are dropped. -/
def fraction : Reader Nat
  | '.' :: cs =>
    let (ds, rest) := cs.span Char.isDigit
    if ds.isEmpty then none
    else
      let ds := ds.take 9
      some (natOfDigits ds * Nat.pow 10 (9 - ds.length), rest)
  | cs => some (0, cs)

/-- The direction of an offset: `1` is east. -/
def direction : Reader Int
  | '+' :: cs => some (1, cs)
  | '-' :: cs => some (-1, cs)
  | '−' :: cs => some (-1, cs)
  | _ => none

/-- An offset in seconds east. -/
def offset : Reader Int
  | 'Z' :: cs => some (0, cs)
  | 'z' :: cs => some (0, cs)
  | cs => do
    let (east, cs) ← direction cs
    let (hours, cs) ← digits 2 cs
    let ((), cs) ← mark ':' cs
    let (minutes, cs) ← digits 2 cs
    if minutes < 60 ∧ hours * 60 + minutes < 24 * 60 then
      some (east * (hours * 3600 + minutes * 60 : Nat), cs)
    else none

/-- Year, month and day of an existing date. -/
def date : Reader Date := fun cs => do
  let (year, cs) ← digits 4 cs
  let ((), cs) ← mark '-' cs
  let (month, cs) ← digits 2 cs
  let ((), cs) ← mark '-' cs
  let (day, cs) ← digits 2 cs
  let d : Date := ⟨year, month, day⟩
  if d.Valid then some (d, cs) else none

/-- The second of the day, and the nanoseconds after it. -/
def time : Reader (Nat × Nat) := fun cs => do
  let (hour, cs) ← digits 2 cs
  let ((), cs) ← mark ':' cs
  let (minute, cs) ← digits 2 cs
  let ((), cs) ← mark ':' cs
  let (second, cs) ← digits 2 cs
  let (nanoseconds, cs) ← fraction cs
  if hour < 24 ∧ minute < 60 ∧ second ≤ 60 then
    if second = 60 then
      some ((hour * 3600 + minute * 60 + 59, nanoseconds + 1000000000), cs)
    else some ((hour * 3600 + minute * 60 + second, nanoseconds), cs)
  else none

end Timestamp

/-- The moment that a timestamp names. -/
def Moment.ofTimestamp? (text : String) : Option Moment := do
  let (date, cs) ← Timestamp.date text.toList
  let ((), cs) ← Timestamp.separator cs
  let ((second, nanoseconds), cs) ← Timestamp.time cs
  let (offset, cs) ← Timestamp.offset cs
  if cs.isEmpty then some ⟨date.toDay * 86400 + second - offset, nanoseconds, offset⟩ else none

end GlobeView
