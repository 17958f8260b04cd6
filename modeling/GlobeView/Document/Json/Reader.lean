/-
# Reading JSON

`Tree.ofJson?` returns the tree of a text that is one JSON value and nothing
else.
-/

import GlobeView.Document.Json.Token

namespace GlobeView
namespace JsonReader

/-- The key of a member. -/
def key : Option String → Key
  | some name => .text name
  | none => .unreadable

/-- The value of a quoted text. -/
def quotedValue : Option String → Tree
  | some s => .text s
  | none => .unreadable

mutual

/-- The value at the front of a list of tokens, and the rest.  Here and below
every call takes a step of `fuel`. -/
def value : Nat → List JsonToken → Option (Tree × List JsonToken)
  | _ + 1, .openArray :: .closeArray :: ts => some (.list [], ts)
  | fuel + 1, .openArray :: ts => (items fuel ts).map fun (vs, ts) => (.list vs, ts)
  | _ + 1, .openObject :: .closeObject :: ts => some (.record [], ts)
  | fuel + 1, .openObject :: ts => (members fuel ts).map fun (ms, ts) => (.record ms, ts)
  | _ + 1, .quoted s :: ts => some (quotedValue s, ts)
  | _ + 1, .scalar v :: ts => some (v, ts)
  | _, _ => none

/-- One item or more, and the closing bracket. -/
def items : Nat → List JsonToken → Option (List Tree × List JsonToken)
  | fuel + 1, ts => do
    match ← value fuel ts with
    | (v, .closeArray :: ts) => some ([v], ts)
    | (v, .comma :: ts) => (items fuel ts).map fun (vs, ts) => (v :: vs, ts)
    | _ => none
  | 0, _ => none

/-- One member or more, and the closing brace. -/
def members : Nat → List JsonToken → Option (List (Key × Tree) × List JsonToken)
  | fuel + 1, .quoted name :: .colon :: ts => do
    match ← value fuel ts with
    | (v, .closeObject :: ts) => some ([(key name, v)], ts)
    | (v, .comma :: ts) =>
      (members fuel ts).map fun (ms, ts) => ((key name, v) :: ms, ts)
    | _ => none
  | _, _ => none

end

end JsonReader

/-- The tree of a JSON text. -/
def Tree.ofJson? (text : String) : Option Tree := do
  let ts ← JsonToken.scan text.length text.toList
  match ← JsonReader.value (2 * ts.length) ts with
  | (t, []) => some t
  | _ => none

end GlobeView
