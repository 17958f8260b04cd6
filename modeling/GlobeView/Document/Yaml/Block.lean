/-
# Block scalars

A block scalar is the indented lines after its header.  `|` keeps their ends and
`>` joins them with blanks, save around lines that start with a blank.  The
header may say how deep the lines are indented, which otherwise the first line
decides, and what becomes of the line ends at the end: `-` takes all of them
away, `+` keeps them all, and without either one is kept.
-/

import GlobeView.Document.Yaml.Placed

namespace GlobeView
namespace Yaml
namespace Block

/-- What becomes of the last line ends. -/
inductive Chomping where
  | strip
  | clip
  | keep
  deriving DecidableEq, Repr

/-- What the header says. -/
structure Header where
  chomping : Chomping
  indent : Option Nat
  deriving DecidableEq, Repr

/-- The mark for the last line ends, and the rest. -/
def chomping (cs : List Placed) : Option Chomping × List Placed :=
  match head? cs with
  | some '+' => (some .keep, cs.tail)
  | some '-' => (some .strip, cs.tail)
  | _ => (none, cs)

/-- The depth of the lines, which is not zero, and the rest. -/
def depth (cs : List Placed) : Option (Option Nat × List Placed) :=
  match head? cs with
  | some c =>
    if !c.isDigit then some (none, cs)
    else if c = '0' then none
    else some (some (c.toNat - '0'.toNat), cs.tail)
  | none => some (none, cs)

/-- The header after its first mark, and the text from the next line on. -/
def header (cs : List Placed) : Option (Header × List Placed) := do
  let (before, cs) := chomping cs
  let (indent, cs) ← depth cs
  let (mark, cs) := if before.isNone && indent.isSome then chomping cs else (before, cs)
  let cs ← toLineEnd cs
  some (⟨mark.getD .clip, indent⟩, cs.tail)

/-- The line ends of empty lines, the deepest column behind blanks, and the text
from the first other line on, behind its indentation.  No indentation is known
as long as `indent` is none. -/
def emptyLines (indent : Option Nat) :
    Nat → List Placed → Option (List Char × Nat × List Placed)
  | 0, _ => none
  | fuel + 1, cs =>
    let inside (c : Placed) : Bool := indent.all (c.column < ·)
    match cs.dropWhile fun c => c.char == ' ' && inside c with
    | [] => some ([], 0, [])
    | c :: rest =>
      if c.char = '\t' ∧ inside c then none
      else if isBreak c.char then do
        let (breaks, deepest, cs) ← emptyLines indent fuel rest
        some (c.char :: breaks, max c.column deepest, cs)
      else some ([], c.column, c :: rest)

/-- A line, its end if there is one, and the ends of the empty lines after it. -/
structure Line where
  text : List Char
  lineEnd : List Char
  emptyEnds : List Char
  deriving DecidableEq, Repr

/-- The lines of a block, and the rest. -/
def lines (indent : Nat) : Nat → List Placed → Option (List Line × List Placed)
  | 0, _ => none
  | _, [] => some ([], [])
  | fuel + 1, c :: cs =>
    if c.column ≠ indent then some ([], c :: cs)
    else do
      let (text, rest) := spanChars (!isBreak ·) (c :: cs)
      let (breaks, _, after) ← emptyLines (some indent) (rest.length + 1) rest.tail
      let (more, after) ← lines indent fuel after
      some (⟨chars text, chars (rest.take 1), breaks⟩ :: more, after)

/-- Whether a line starts with a blank. -/
def Line.isBlank (l : Line) : Bool :=
  l.text.head?.any Yaml.isBlank

/-- What stands between two lines of a block that joins its lines. -/
def joint (before after : Line) : List Char :=
  if before.lineEnd = ['\n'] ∧ !before.isBlank ∧ !after.isBlank then
    if before.emptyEnds.isEmpty then [' '] else before.emptyEnds
  else before.lineEnd ++ before.emptyEnds

/-- What is left of the line ends at the end. -/
def Line.chomped (l : Line) : Chomping → List Char
  | .strip => []
  | .clip => l.lineEnd
  | .keep => l.lineEnd ++ l.emptyEnds

/-- The text of the lines. -/
def assemble (literal : Bool) (chomping : Chomping) : List Line → List Char
  | [] => []
  | [l] => l.text ++ l.chomped chomping
  | l :: next :: more =>
    l.text ++ (if literal then l.lineEnd ++ l.emptyEnds else joint l next)
      ++ assemble literal chomping (next :: more)

/-- The indentation that the first lines decide: that of the deepest of them, but
one more than what the block belongs to. -/
def decided (parent : Int) (deepest : Nat) : Nat :=
  max (max deepest (parent + 1).toNat) 1

/-- The text of a block scalar after its first mark, and the rest; `parent` is
the indentation of what the block belongs to. -/
def read (literal : Bool) (parent : Int) (cs : List Placed) :
    Option (List Char × List Placed) := do
  let (h, cs) ← header cs
  let indent := h.indent.map fun n => if 0 ≤ parent then parent.toNat + n else n
  let (breaks, deepest, cs) ← emptyLines indent (cs.length + 1) cs
  let (ls, cs) ← lines (indent.getD (decided parent deepest)) (cs.length + 1) cs
  match ls with
  | [] => some (if h.chomping = .keep then breaks else [], cs)
  | ls => some (breaks ++ assemble literal h.chomping ls, cs)

end Block
end Yaml
end GlobeView
