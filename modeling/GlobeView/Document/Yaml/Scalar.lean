/-
# Scalars over several lines

A scalar without a block mark may run over several lines.  What stands between
two of its words is a gap, and `fold` says what is left of it: blanks as they
are, a single line end as a blank, and of several line ends all but the first.

| scalar | ends |
| --- | --- |
| plain | at `: `, at ` #`, less indented, at a document mark; inside brackets also at `,[]{}` |
| single quotes | at a quote, which is written twice inside |
| double quotes | at a quote; escapes start with a backslash |

Every reader returns the rest of the text, and fails on a text that is no scalar.
-/

import GlobeView.Document.Json.Token
import GlobeView.Document.Yaml.Placed

namespace GlobeView
namespace Yaml

/-- What is left of a gap. -/
def fold (gap : List Char) : List Char :=
  match gap.filter isBreak with
  | [] => gap
  | ['\n'] => [' ']
  | '\n' :: breaks => breaks
  | breaks => breaks

namespace Plain

/-- Characters that end a plain scalar inside brackets. -/
def isFlowMark (c : Char) : Bool :=
  [',', '[', ']', '{', '}'].contains c

/-- Whether a plain scalar ends at a character, in view of what follows it. -/
def endsAt (flow : Bool) (c : Char) (rest : List Placed) : Bool :=
  (c == ':' && atGap rest) || (flow && isFlowMark c)

/-- Whether a colon inside brackets stands where it may not. -/
def strayColon (flow : Bool) (c : Char) (rest : List Placed) : Bool :=
  flow && c == ':' && (head? rest).any fun d => isFlowMark d || d == '?'

/-- The characters up to a gap or the end of the scalar, and the rest. -/
def word (flow : Bool) : List Placed → Option (List Char × List Placed)
  | [] => some ([], [])
  | c :: cs =>
    if isGap c.char then some ([], c :: cs)
    else if strayColon flow c.char cs then none
    else if endsAt flow c.char cs then some ([], c :: cs)
    else (word flow cs).map fun (w, rest) => (c.char :: w, rest)

/-- Whether a tab stands where a continued line should be indented. -/
def strayTab (indent : Nat) (gap : List Placed) : Bool :=
  (gap.dropWhile fun c => !isBreak c.char).any fun c => c.char == '\t' && c.column < indent

/-- Whether the scalar is over after a gap. -/
def isOver (flow : Bool) (indent : Nat) : List Placed → Bool
  | [] => true
  | c :: cs =>
    c.char == '#' || atDocumentMark (c :: cs) || (!flow && c.column < indent)

/-- The text of a plain scalar, the rest, and whether the rest is on a later
line.  Every word takes one step of `fuel`. -/
def read (flow : Bool) (indent : Nat) :
    Nat → List Placed → Option (List Char × List Placed × Bool)
  | 0, _ => none
  | fuel + 1, cs => do
    let (w, cs) ← word flow cs
    let (gap, cs) := spanChars isGap cs
    if gap.isEmpty then some (w, cs, false)
    else if strayTab indent gap then none
    else
      let later := gap.any fun c => isBreak c.char
      if isOver flow indent cs then some (w, cs, later)
      else do
        let (w', _) ← word flow cs
        if w'.isEmpty then some (w, cs, later)
        else do
          let (more, cs, later) ← read flow indent fuel cs
          some (w ++ fold (chars gap) ++ more, cs, later)

end Plain

namespace Quoted

/-- The text inside single quotes, after the first one, and the rest. -/
def single : Nat → List Placed → Option (List Char × List Placed)
  | 0, _ => none
  | _, [] => none
  | fuel + 1, c :: cs =>
    if atDocumentMark (c :: cs) then none
    else if c.char = '\'' then
      if head? cs = some '\'' then
        (single fuel cs.tail).map fun (t, rest) => ('\'' :: t, rest)
      else some ([], cs)
    else if isGap c.char then
      let (gap, rest) := spanChars isGap (c :: cs)
      (single fuel rest).map fun (t, rest) => (fold (chars gap) ++ t, rest)
    else (single fuel cs).map fun (t, rest) => (c.char :: t, rest)

/-- The character of an escape of one letter. -/
def escapedChar : Char → Option Char
  | '0' => some '\x00'
  | 'a' => some '\x07'
  | 'b' => some '\x08'
  | 't' => some '\t'
  | '\t' => some '\t'
  | 'n' => some '\n'
  | 'v' => some '\x0b'
  | 'f' => some '\x0c'
  | 'r' => some '\r'
  | 'e' => some '\x1b'
  | ' ' => some ' '
  | '"' => some '"'
  | '/' => some '/'
  | '\\' => some '\\'
  | 'N' => some '\x85'
  | '_' => some '\xa0'
  | 'L' => some '\u2028'
  | 'P' => some '\u2029'
  | _ => none

/-- The number of hexadecimal digits after the letter of an escape. -/
def codeLength : Char → Option Nat
  | 'x' => some 2
  | 'u' => some 4
  | 'U' => some 8
  | _ => none

/-- The character of a code. -/
def ofCode (digits : List Char) : Option Char := do
  let code := (← digits.mapM JsonToken.hexValue).foldl (fun n d => 16 * n + d) 0
  if code.isValidChar then some (Char.ofNat code) else none

/-- The character of an escape after its backslash, and the rest. -/
def escape : List Placed → Option (Char × List Placed)
  | [] => none
  | c :: cs => match codeLength c.char with
    | none => (escapedChar c.char).map fun c => (c, cs)
    | some n =>
      if cs.length < n then none
      else (ofCode (chars (cs.take n))).map fun c => (c, cs.drop n)

/-- The text inside double quotes, after the first one, and the rest.  A
backslash at the end of a line takes the line end away. -/
def double : Nat → List Placed → Option (List Char × List Placed)
  | 0, _ => none
  | _, [] => none
  | fuel + 1, c :: cs =>
    if atDocumentMark (c :: cs) then none
    else if c.char = '"' then some ([], cs)
    else if c.char = '\\' then
      if (head? cs).any isBreak then
        let (gap, rest) := spanChars isGap cs.tail
        (double fuel rest).map fun (t, rest) => ((chars gap).filter isBreak ++ t, rest)
      else do
        let (e, rest) ← escape cs
        (double fuel rest).map fun (t, rest) => (e :: t, rest)
    else if isGap c.char then
      let (gap, rest) := spanChars isGap (c :: cs)
      (double fuel rest).map fun (t, rest) => (fold (chars gap) ++ t, rest)
    else (double fuel cs).map fun (t, rest) => (c.char :: t, rest)

end Quoted
end Yaml
end GlobeView
