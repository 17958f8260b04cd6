/-
# Directives

In front of a document, lines that begin with a percent sign may name the version
of the format, `1.1` or `1.2`, and give handles to tags.  Neither may be said twice.
-/

import GlobeView.Document.Yaml.Tag

namespace GlobeView
namespace Yaml

/-- What directives have said. -/
structure Directives where
  /-- Whether a version was named. -/
  versioned : Bool
  handles : Tag.Handles
  deriving DecidableEq, Repr

namespace Directives

/-- Before any directive. -/
def none : Directives :=
  ⟨false, []⟩

/-- The handles of the document that follows. -/
def allHandles (d : Directives) : Tag.Handles :=
  d.handles ++ Tag.Handles.standard

/-- At most nine digits, and the rest. -/
def number (cs : List Placed) : Option (Nat × List Placed) :=
  let (ds, rest) := spanChars Char.isDigit cs
  if ds.isEmpty || 9 < ds.length then .none else some (natOfDigits (chars ds), rest)

/-- After a version. -/
def version (d : Directives) (cs : List Placed) : Option (Directives × List Placed) := do
  let (major, cs) ← number cs
  if head? cs ≠ some '.' then .none
  let (minor, cs) ← number cs.tail
  if d.versioned ∨ major ≠ 1 ∨ (minor ≠ 1 ∧ minor ≠ 2) then .none
  some ({ d with versioned := true }, cs)

/-- After a handle of tags. -/
def tagHandle (d : Directives) (cs : List Placed) : Option (Directives × List Placed) := do
  if head? cs ≠ some '!' then .none
  let (name, closed, cs) := Tag.handle cs
  if !closed ∧ name ≠ ['!'] then .none
  let name := String.ofList name ++ if closed then "!" else ""
  let (gap, cs) := spanChars isBlank cs
  let (full, cs) ← Tag.someContent true cs
  if gap.isEmpty ∨ !atGap cs ∨ (d.handles.lookup name).isSome then .none
  some ({ d with handles := (name, full) :: d.handles }, cs)

/-- After the directive that begins here, and the text from the next line on. -/
def read (d : Directives) (cs : List Placed) : Option (Directives × List Placed) := do
  let (name, cs) := spanChars isNameChar cs.tail
  if !atGap cs then .none
  let cs := (spanChars isBlank cs).2
  let (d, cs) ← match String.ofList (chars name) with
    | "YAML" => d.version cs
    | "TAG" => d.tagHandle cs
    | _ => .none
  let cs ← toLineEnd cs
  some (d, cs.tail)

end Directives
end Yaml
end GlobeView
