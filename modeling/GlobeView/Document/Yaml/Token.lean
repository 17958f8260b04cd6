/-
# Tokens of YAML

Most tokens stand in the text.  A few do not: the beginnings and ends of block
sequences and mappings come from indentation, and the token in front of a key
that is written without a mark is known only when its colon is reached.  A place
where such a key may begin is kept in mind as a `SimpleKey`, one for every level
of brackets, and the token is then put in at that place.

Anchors are numbered by how many names are known before them, so a name that is
given again takes a number that the next new name takes too.  A reference has the
number that its name has then, and means the value that took the number last.
-/

import GlobeView.Document.Yaml.Block
import GlobeView.Document.Yaml.Directive

namespace GlobeView
namespace Yaml

/-- A token. -/
inductive Token where
  | directive
  | documentStart
  | documentEnd
  | blockSequence
  | blockMapping
  | blockEnd
  | flowSequence
  | flowSequenceEnd
  | flowMapping
  | flowMappingEnd
  | blockEntry
  | flowEntry
  | key
  | value
  | reference (number : Nat)
  | anchor (number : Nat)
  | tag (tag : Tag)
  | scalar (plain : Bool) (text : String)
  deriving DecidableEq, Repr

/-- A place where a key may begin. -/
structure SimpleKey where
  /-- The number of tokens before it. -/
  number : Nat
  place : Placed
  /-- Whether nothing but a key can begin there. -/
  required : Bool
  deriving DecidableEq, Repr

/-- What is known after a part of the text. -/
structure Scan where
  /-- The tokens, the last one in front. -/
  tokens : List Token
  count : Nat
  /-- The column of the innermost block, and those of the blocks around it. -/
  indent : Int
  outer : List Int
  /-- The place of a key in every level of brackets, the innermost in front. -/
  keys : List (Option SimpleKey)
  /-- Whether a key may begin here. -/
  keyAllowed : Bool
  names : List (String × Nat)
  directives : Directives
  deriving DecidableEq, Repr

namespace Scan

/-- Before the first token. -/
def start : Scan where
  tokens := []
  count := 0
  indent := -1
  outer := []
  keys := [none]
  keyAllowed := true
  names := []
  directives := .none

/-- Whether brackets are open. -/
def inFlow (s : Scan) : Bool :=
  1 < s.keys.length

/-- After another token. -/
def push (s : Scan) (t : Token) : Scan :=
  { s with tokens := t :: s.tokens, count := s.count + 1 }

/-- After a token that belongs in front of the one of a number. -/
def pushAt (s : Scan) (number : Nat) (t : Token) : Scan :=
  let (later, earlier) := s.tokens.splitAt (s.count - number)
  { s with tokens := later ++ t :: earlier, count := s.count + 1 }

/-- Without the place of a key on this level; a required key cannot be missing. -/
def dropKey (s : Scan) : Option Scan :=
  match s.keys with
  | some k :: keys => if k.required then none else some { s with keys := none :: keys }
  | _ => some s

/-- With a place where a key may begin, if one may. -/
def saveKey (s : Scan) (place : Placed) : Option Scan := do
  if !s.keyAllowed then some s
  else do
    let s ← s.dropKey
    let k : SimpleKey := ⟨s.count, place, !s.inFlow && s.indent == place.column⟩
    some { s with keys := some k :: s.keys.tail }

/-- The bytes within which a key has to end. -/
def keyBytes : Nat :=
  1024

/-- The place of a key as long as the key may still end here: on its line, and
within `keyBytes`.  A required key cannot be missing. -/
def freshKey (here : Placed) : Option SimpleKey → Option (Option SimpleKey)
  | none => some none
  | some k =>
    if k.place.line < here.line ∨ k.place.offset + keyBytes < here.offset then
      if k.required then none else some none
    else some (some k)

/-- With the places from which a key may still end here. -/
def freshKeys (s : Scan) (here : Placed) : Option Scan :=
  (s.keys.mapM (freshKey here)).map fun keys => { s with keys := keys }

/-- How many blocks end at a column, and the columns of the others. -/
def close (column : Int) : Int → List Int → Nat × Int × List Int
  | indent, [] => (0, indent, [])
  | indent, parent :: outer =>
    if column < indent then
      let (n, indent, outer) := close column parent outer
      (n + 1, indent, outer)
    else (0, indent, parent :: outer)

/-- After the ends of the blocks that are deeper than a column. -/
def unroll (s : Scan) (column : Int) : Scan :=
  if s.inFlow then s
  else
    let (n, indent, outer) := close column s.indent s.outer
    { s with
      tokens := List.replicate n Token.blockEnd ++ s.tokens, count := s.count + n
      indent := indent, outer := outer }

/-- After the beginning of a block at a column, in front of the token of a number,
if the column is deeper than the block around it. -/
def roll (s : Scan) (column number : Nat) (t : Token) : Scan :=
  if !s.inFlow && s.indent < column then
    { s.pushAt number t with indent := column, outer := s.indent :: s.outer }
  else s

/-- After a mark between documents. -/
def documentMark (s : Scan) (t : Token) : Option Scan := do
  let s ← (s.unroll (-1)).dropKey
  some { s.push t with keyAllowed := false }

/-- After an opening bracket. -/
def openFlow (s : Scan) (here : Placed) (t : Token) : Option Scan := do
  let s ← s.saveKey here
  some { s.push t with keys := none :: s.keys, keyAllowed := true }

/-- After a closing bracket. -/
def closeFlow (s : Scan) (t : Token) : Option Scan := do
  let s ← s.dropKey
  some { s.push t with keys := if s.inFlow then s.keys.tail else s.keys, keyAllowed := false }

/-- After a comma. -/
def flowEntry (s : Scan) : Option Scan := do
  let s ← s.dropKey
  some { s.push .flowEntry with keyAllowed := true }

/-- After the beginning of a block that a mark may begin here. -/
def rollHere (s : Scan) (here : Placed) (t : Token) : Option Scan :=
  if s.inFlow then some s
  else if s.keyAllowed then some (s.roll here.column s.count t)
  else none

/-- After the mark of an entry. -/
def blockEntry (s : Scan) (here : Placed) : Option Scan := do
  let s ← (← s.rollHere here .blockSequence).dropKey
  some { s.push .blockEntry with keyAllowed := true }

/-- After the mark of a key. -/
def markedKey (s : Scan) (here : Placed) : Option Scan := do
  let s ← (← s.rollHere here .blockMapping).dropKey
  some { s.push .key with keyAllowed := !s.inFlow }

/-- After the mark of a value. -/
def value (s : Scan) (here : Placed) : Option Scan :=
  match s.keys with
  | some k :: keys =>
    let s := (s.pushAt k.number .key).roll k.place.column k.number .blockMapping
    some { s.push .value with keys := none :: keys, keyAllowed := false }
  | _ => do
    let s ← s.rollHere here .blockMapping
    some { s.push .value with keyAllowed := !s.inFlow }

/-- After something that a key may begin with. -/
def inKey (s : Scan) (here : Placed) (t : Token) : Option Scan := do
  let s ← s.saveKey here
  some { s.push t with keyAllowed := false }

/-- Characters that may stand right behind the name of an anchor. -/
def endsName (c : Char) : Bool :=
  isGap c || ['?', ':', ',', ']', '\x7d', '%', '@', '\x60'].contains c

/-- The name of an anchor, and the rest. -/
def anchorName (cs : List Placed) : Option (String × List Placed) :=
  let (name, rest) := spanChars isNameChar cs
  if name.isEmpty || !(head? rest).all endsName then none
  else some (String.ofList (chars name), rest)

/-- After a reference. -/
def reference (s : Scan) (here : Placed) (cs : List Placed) : Option (Scan × List Placed) := do
  let (name, rest) ← anchorName cs
  some (← s.inKey here (.reference (← s.names.lookup name)), rest)

/-- After an anchor. -/
def anchor (s : Scan) (here : Placed) (cs : List Placed) : Option (Scan × List Placed) := do
  let (name, rest) ← anchorName cs
  let number := s.names.length
  let s ← s.inKey here (.anchor number)
  some ({ s with names := (name, number) :: s.names.filter (·.1 != name) }, rest)

/-- After a plain scalar. -/
def plainScalar (s : Scan) (here : Placed) (cs : List Placed) :
    Option (Scan × List Placed) := do
  let (text, rest, later) ← Plain.read s.inFlow (s.indent + 1).toNat (cs.length + 1) cs
  let s ← s.inKey here (.scalar true (String.ofList text))
  some ({ s with keyAllowed := later }, rest)

/-- After a quoted scalar. -/
def quotedScalar (s : Scan) (here : Placed) (content : Option (List Char × List Placed)) :
    Option (Scan × List Placed) := do
  let (text, rest) ← content
  some (← s.inKey here (.scalar false (String.ofList text)), rest)

/-- After a block scalar. -/
def blockScalar (s : Scan) (literal : Bool) (cs : List Placed) : Option (Scan × List Placed) := do
  let s ← s.dropKey
  let (text, rest) ← Block.read literal s.indent cs
  some ({ s.push (.scalar false (String.ofList text)) with keyAllowed := true }, rest)

/-- Whether a plain scalar may begin at a character, in view of what follows it. -/
def beginsPlain (flow : Bool) (c : Char) (rest : List Placed) : Bool :=
  match c with
  | '-' => !(head? rest).any isBlank
  | '?' => !flow && !atGap rest
  | ':' => !flow && !atGap rest
  | c => !isGap c && !",[]\x7b\x7d#&*!|>'\"%@\x60".contains c

/-- After the token at the front of a text that has one, and the rest. -/
def token (s : Scan) : List Placed → Option (Scan × List Placed)
  | [] => none
  | c :: cs =>
    let whole := c :: cs
    let marked (s : Option Scan) : Option (Scan × List Placed) := s.map (·, cs)
    if c.column = 0 ∧ c.char = '%' then do
      let s ← s.documentMark .directive
      let (directives, rest) ← s.directives.read whole
      some ({ s with directives := directives }, rest)
    else if atTriple '-' whole then (s.documentMark .documentStart).map (·, cs.drop 2)
    else if atTriple '.' whole then (s.documentMark .documentEnd).map (·, cs.drop 2)
    else match c.char with
      | '[' => marked (s.openFlow c .flowSequence)
      | '\x7b' => marked (s.openFlow c .flowMapping)
      | ']' => marked (s.closeFlow .flowSequenceEnd)
      | '\x7d' => marked (s.closeFlow .flowMappingEnd)
      | ',' => marked s.flowEntry
      | '*' => s.reference c cs
      | '&' => s.anchor c cs
      | '!' => do
        let (t, rest) ← Tag.read s.inFlow s.directives.allHandles whole
        some (← s.inKey c (.tag t), rest)
      | '\'' => s.quotedScalar c (Quoted.single (cs.length + 1) cs)
      | '"' => s.quotedScalar c (Quoted.double (cs.length + 1) cs)
      | d =>
        if d = '-' ∧ atGap cs then marked (s.blockEntry c)
        else if d = '?' ∧ (s.inFlow ∨ atGap cs) then marked (s.markedKey c)
        else if d = ':' ∧ (s.inFlow ∨ atGap cs) then marked (s.value c)
        else if (d = '|' ∨ d = '>') ∧ !s.inFlow then s.blockScalar (d == '|') cs
        else if beginsPlain s.inFlow d cs then s.plainScalar c whole
        else none

/-- The mark of the order of bytes.  In front of a line it is passed over, but it
takes up the first column, so that nothing behind it begins a document. -/
def orderMark : Char :=
  '\ufeff'

/-- The text from the next token on, and whether a key may begin there.  Tabs
are no indentation, and a comment ends with its line. -/
def skip (flow comment keyAllowed : Bool) : List Placed → Bool × List Placed
  | [] => (keyAllowed, [])
  | c :: cs =>
    if isBreak c.char then skip flow false (keyAllowed || !flow) cs
    else if comment || c.char == ' ' || (c.char == '\t' && (flow || !keyAllowed)) then
      skip flow comment keyAllowed cs
    else if c.char = orderMark ∧ c.column = 0 then skip flow comment keyAllowed cs
    else if c.char = '#' then skip flow true keyAllowed cs
    else (keyAllowed, c :: cs)

/-- After the end of the text. -/
def finish (s : Scan) : Option (List Token) :=
  ((s.unroll (-1)).dropKey).map fun s => s.tokens.reverse

/-- The tokens of a text, each of which takes one step of `fuel`. -/
def run : Nat → Scan → List Placed → Option (List Token)
  | 0, _, _ => none
  | fuel + 1, s, cs =>
    let (keyAllowed, cs) := skip s.inFlow false s.keyAllowed cs
    let s := { s with keyAllowed := keyAllowed }
    match cs with
    | [] => s.finish
    | c :: _ => do
      let s ← s.freshKeys c
      let (s, rest) ← (s.unroll c.column).token cs
      run fuel s rest

end Scan

/-- The tokens of a text. -/
def Token.scan (text : String) : Option (List Token) := do
  let cs ← place text.toList
  Scan.run (cs.length + 1) .start cs

end Yaml
end GlobeView
