/-
# Variables from a file

A file may set variables that the environment leaves unset, one on a line:

```text
# a comment
export EARTH_USER_AGENT="iPad"   # quoted
EARTH_CONFIG=$HOME/globe.yaml
```

Single quotes keep everything as it is.  Elsewhere a backslash escapes a backslash,
a quote, a dollar sign, a blank, or stands with `n` for a line end, and a dollar sign
puts the value of a variable in.  A value without quotes ends at a blank, after which
only a comment may follow.  Quoted values may run over several lines.  Reading stops
at the first line that is none of this; the lines before it count.  The last line
needs no line end, but without one it may not end with white space either.
-/

import GlobeView.Text.Alphanumeric
import GlobeView.Text.Pieces

namespace GlobeView

/-- Variables with their values, the ones set last in front. -/
abbrev Environment :=
  List (String × String)

namespace Environment

/-- The ranges of white space. -/
def whiteSpace : Ranges :=
  [(0x9, 0xd), (0x20, 0x20), (0x85, 0x85), (0xa0, 0xa0), (0x1680, 0x1680), (0x2000, 0x200a),
   (0x2028, 0x2029), (0x202f, 0x202f), (0x205f, 0x205f), (0x3000, 0x3000)]

/-- Whether a character is white space. -/
def isSpace (c : Char) : Bool :=
  whiteSpace.contains c

/-- The text without white space at its end. -/
def trimEnd (cs : List Char) : List Char :=
  (cs.reverse.dropWhile isSpace).reverse

/-- Where in a line a reader of lines is. -/
inductive Position where
  | plain
  | afterSpace
  | escape
  | single
  | singleEscape
  | double
  | doubleEscape
  deriving DecidableEq, Repr

namespace Position

/-- What a quote or a backslash begins, outside of quotes. -/
def opens (c : Char) : Position :=
  if c = '\\' then escape else if c = '"' then double else if c = '\'' then single else plain

/-- The position after a character. -/
def next (p : Position) (c : Char) : Position :=
  match p with
  | plain => if isSpace c && c != '\n' && c != '\r' then afterSpace else opens c
  | afterSpace => opens c
  | escape => plain
  | single => if c = '\\' then singleEscape else if c = '\'' then plain else single
  | singleEscape => single
  | double => if c = '\\' then doubleEscape else if c = '"' then plain else double
  | doubleEscape => double

end Position

/-- The lines of a file in which quoted line ends are no ends, without comments, up
to a line that is never closed.  `line` is the part that was read, its last character
in front. -/
def linesFrom (p : Position) (line : List Char) : List Char → List (List Char)
  | [] => if p = .plain ∧ !line.isEmpty then [line.reverse] else []
  | c :: cs =>
    if c = '#' ∧ (p = .afterSpace ∨ line.all isSpace) then
      line.reverse :: linesFrom .plain [] ((cs.dropWhile (· != '\n')).drop 1)
    else if c = '\n' ∧ p.next c = .plain then line.reverse :: linesFrom .plain [] cs
    else linesFrom (p.next c) (c :: line) cs
termination_by cs => cs.length
decreasing_by
  all_goals simp_wf
  have h := (List.dropWhile_suffix (l := cs) (· != '\n')).length_le
  omega

/-- Where in a value a reader of values is. -/
inductive Mode where
  | plain
  | single
  | double
  | escape (inDouble : Bool)
  /-- In the name of a variable, possibly between braces. -/
  | reference (name : List Char) (braces inDouble : Bool)
  | ended
  deriving DecidableEq, Repr

namespace Mode

/-- What follows outside of single quotes, escapes and names. -/
def unquoted (inDouble : Bool) : Mode :=
  if inDouble then double else plain

/-- Characters that a backslash may stand in front of, and what they mean then. -/
def escaped (c : Char) : Option Char :=
  if c = 'n' then some '\n'
  else if ['\\', '\'', '"', '$', ' '].contains c then some c
  else none

end Mode

/-- The value of a variable, empty for one that is not set. -/
def valueOf (env : Environment) (name : List Char) : List Char :=
  ((env.lookup (String.ofList name)).getD "").toList

/-- The value that a text denotes, unless it is malformed. -/
def valueFrom (env : Environment) : Mode → List Char → Option (List Char)
  | .plain, [] => some []
  | .ended, [] => some []
  | .escape inDouble, [] => if inDouble then none else some []
  | .reference name braces inDouble, [] =>
    if braces || inDouble then none else some (valueOf env name)
  | _, [] => none
  | .ended, c :: cs =>
    if c = ' ' ∨ c = '\t' then valueFrom env .ended cs else if c = '#' then some [] else none
  | .escape inDouble, c :: cs => do
    let c ← Mode.escaped c
    (valueFrom env (.unquoted inDouble) cs).map (c :: ·)
  | .single, c :: cs =>
    if c = '\'' then valueFrom env .plain cs else (valueFrom env .single cs).map (c :: ·)
  | .reference name braces inDouble, c :: cs =>
    if braces then
      if c = '\x7d' then (valueFrom env (.unquoted inDouble) cs).map (valueOf env name ++ ·)
      else valueFrom env (.reference (name ++ [c]) true inDouble) cs
    else if isAlphanumeric c then valueFrom env (.reference (name ++ [c]) false inDouble) cs
    else if c = '\x7b' ∧ name.isEmpty then valueFrom env (.reference [] true inDouble) cs
    else if c = '$' then
      (valueFrom env (.reference [] false inDouble) cs).map (valueOf env name ++ ·)
    else (valueFrom env (.unquoted inDouble) cs).map (valueOf env name ++ c :: ·)
  | .double, c :: cs =>
    if c = '$' then valueFrom env (.reference [] false true) cs
    else if c = '"' then valueFrom env .plain cs
    else if c = '\\' then valueFrom env (.escape true) cs
    else (valueFrom env .double cs).map (c :: ·)
  | .plain, c :: cs =>
    if c = '$' then valueFrom env (.reference [] false false) cs
    else if c = '\'' then valueFrom env .single cs
    else if c = '"' then valueFrom env .double cs
    else if c = '\\' then valueFrom env (.escape false) cs
    else if c = ' ' ∨ c = '\t' then valueFrom env .ended cs
    else (valueFrom env .plain cs).map (c :: ·)

/-- The name of a variable, and the rest. -/
def nameAt : List Char → Option (List Char × List Char)
  | [] => none
  | c :: cs =>
    if c.isAlpha ∨ c = '_' then
      some ((c :: cs).span fun c => c.isAlphanum || c == '_' || c == '.')
    else none

/-- What follows white space and an equals sign. -/
def afterEquals (cs : List Char) : Option (List Char) :=
  match cs.dropWhile isSpace with
  | '=' :: cs => some cs
  | _ => none

/-- The name that a line sets, and the text of the value.  The word `export` may
stand in front. -/
def setting (cs : List Char) : Option (List Char × List Char) := do
  let (name, rest) ← nameAt cs
  match afterEquals rest with
  | some value => some (name, value)
  | none =>
    if name = "export".toList then do
      let (name, rest) ← nameAt (rest.dropWhile isSpace)
      some (name, ← afterEquals rest)
    else none

/-- Whether there is nothing but a comment. -/
def isEmptyLine (cs : List Char) : Bool :=
  cs.isEmpty || cs.head? == some '#'

/-- The variables after a line, which sets one unless it is set or the line is
empty; nothing for a malformed line. -/
def afterLine (env : Environment) (line : List Char) : Option Environment :=
  let cs := (trimEnd line).dropWhile isSpace
  if isEmptyLine cs then some env
  else do
    let (name, text) ← setting cs
    let text := text.dropWhile isSpace
    let value ← if isEmptyLine text then some [] else valueFrom env .plain text
    let name := String.ofList name
    some (if (env.lookup name).isSome then env else (name, String.ofList value) :: env)

/-- The variables after as many lines as are well formed. -/
def afterLines (env : Environment) : List (List Char) → Environment
  | [] => env
  | line :: lines => match afterLine env line with
    | some env => afterLines env lines
    | none => env

/-- The variables after a file, which may begin with a mark of its encoding. -/
def withFile (env : Environment) (text : String) : Environment :=
  let cs := text.toList
  afterLines env (linesFrom .plain [] (if cs.head? = some '\ufeff' then cs.tail else cs))

end Environment
end GlobeView
