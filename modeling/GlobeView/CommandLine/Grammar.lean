/-
# The grammar of arguments

A command takes options, operands and, in one case, the name of another command,
which takes the arguments after it.

| argument | meaning |
| --- | --- |
| `--name` | a flag, or an option with its value in the next argument |
| `--name=value`, `-nvalue`, `-n=value` | an option with its value |
| `--` | all that follows is operands |
| `-h`, `--help` | a request for help |
| anything else | the name of a command, or an operand |

A value in an argument of its own does not begin with a hyphen, save the hyphen
alone.  No option may be given twice.

Arguments are read from the left, and the first one that cannot be taken decides:
a request for help is granted only when there is nothing wrong before it.  What is
missing shows at the end only.  A value in an argument of its own is taken in when
the next argument is read or there is none; if that names a command, the arguments
of the command come first.
-/

import GlobeView.CommandLine.Value
import GlobeView.Text.Pieces

namespace GlobeView
namespace Arguments

/-- Why arguments are not read to their end. -/
inductive Stop where
  | usage
  | help
  deriving DecidableEq, Repr

/-- An option of a command. -/
structure OptionForm where
  name : String
  letter : Option Char
  /-- The form of its value; a flag has none. -/
  value : Option ValueForm
  deriving DecidableEq, Repr

/-- What a command takes. -/
structure Grammar where
  options : List OptionForm
  /-- The forms of the operands, all of which are required. -/
  operands : List ValueForm
  /-- The names of the commands, one of which is required if there are any. -/
  commands : List String
  deriving DecidableEq, Repr

/-- The value of an option in an argument of its own, before it is taken in. -/
structure Pending where
  name : String
  form : ValueForm
  text : String
  deriving DecidableEq, Repr

/-- What was given to a command. -/
structure Given where
  /-- Options with their values, flags with none. -/
  options : List (String × Option Value)
  operands : List Value
  pending : Option Pending
  /-- The name of a command and the arguments after it. -/
  command : Option (String × List String)
  deriving DecidableEq

/-- What is there, or a mistake in the arguments. -/
def orUsage {α : Type} : Option α → Except Stop α
  | some x => .ok x
  | none => .error .usage

namespace Given

/-- Nothing. -/
def empty : Given :=
  ⟨[], [], none, none⟩

/-- With another option, which may not have been given before. -/
def addOption (g : Given) (name : String) (value : Option Value) : Except Stop Given :=
  if (g.options.lookup name).isSome then .error .usage
  else .ok { g with options := g.options ++ [(name, value)] }

/-- With the value of another option. -/
def addValue (g : Given) (name : String) (form : ValueForm) (text : String) :
    Except Stop Given := do
  g.addOption name (some (← orUsage (form.read text)))

/-- With the value that was pending. -/
def settle (g : Given) : Except Stop Given :=
  match g.pending with
  | none => .ok g
  | some p => { g with pending := none }.addValue p.name p.form p.text

/-- Whether a flag was given. -/
def has (g : Given) (name : String) : Bool :=
  (g.options.lookup name).isSome

/-- The value of an option that was given. -/
def value? (g : Given) (name : String) : Option Value :=
  (g.options.lookup name).join

end Given

/-- Whether an argument may be the value of the option before it. -/
def isValue (argument : String) : Bool :=
  argument == "-" || argument.toList.head? != some '-'

/-- The option of a name. -/
def Grammar.named? (g : Grammar) (name : String) : Option OptionForm :=
  g.options.find? fun o => o.name == name

/-- The option of a letter. -/
def Grammar.lettered? (g : Grammar) (letter : Char) : Option OptionForm :=
  g.options.find? fun o => o.letter == some letter

/-- What one argument stands for, in view of the grammar. -/
inductive Reading where
  | flag (name : String)
  | option (name : String) (form : ValueForm) (value : String)
  /-- An option whose value is the next argument. -/
  | optionNext (name : String) (form : ValueForm)
  | operandsOnly
  | command (name : String)
  | operand (text : String)
  | stop (reason : Stop)
  deriving DecidableEq, Repr

/-- What an option stands for with the value attached to it, if there is one. -/
def OptionForm.read (o : OptionForm) (attached : Option (List Char)) : Reading :=
  match o.value, attached with
  | some form, some value => .option o.name form (String.ofList value)
  | some form, none => .optionNext o.name form
  | none, none => .flag o.name
  | none, some _ => .stop .usage

/-- An argument after two hyphens. -/
def Grammar.readName (g : Grammar) (cs : List Char) : Reading :=
  let (name, attached) := atFirst '=' cs
  match g.named? (String.ofList name) with
  | some o => o.read attached
  | none => .stop (if cs = "help".toList then .help else .usage)

/-- The value attached to a letter, after an equals sign or without one. -/
def attachedValue : List Char → Option (List Char)
  | [] => none
  | '=' :: value => some value
  | value => some value

/-- An argument after one hyphen. -/
def Grammar.readLetter (g : Grammar) : List Char → Reading
  | [] => .stop .usage
  | letter :: rest => match g.lettered? letter with
    | some o => o.read (attachedValue rest)
    | none => .stop (if letter = 'h' then .help else .usage)

/-- What an argument stands for. -/
def Grammar.read (g : Grammar) (argument : String) : Reading :=
  match argument.toList with
  | ['-', '-'] => .operandsOnly
  | '-' :: '-' :: cs => g.readName cs
  | '-' :: c :: cs => g.readLetter (c :: cs)
  | _ => if g.commands.contains argument then .command argument else .operand argument

/-- With another operand, of which there may not be too many. -/
def Grammar.addOperand (g : Grammar) (given : Given) (text : String) : Except Stop Given := do
  let form ← orUsage g.operands[given.operands.length]?
  return { given with operands := given.operands ++ [← orUsage (form.read text)] }

/-- What was given by the arguments; a value may still be pending when a command was
named. -/
def Grammar.collect (g : Grammar) (given : Given) : List String → Except Stop Given
  | [] => given.settle
  | argument :: rest =>
    match g.read argument with
    | .flag name => do g.collect (← (← given.settle).addOption name none) rest
    | .option name form value => do
      g.collect (← (← given.settle).addValue name form value) rest
    | .optionNext name form => match rest with
      | value :: rest =>
        if isValue value then do
          let given ← given.settle
          g.collect { given with pending := some ⟨name, form, value⟩ } rest
        else .error .usage
      | [] => .error .usage
    | .operandsOnly => do rest.foldlM g.addOperand (← given.settle)
    | .command name => .ok { given with command := some (name, rest) }
    | .operand text => do g.collect (← g.addOperand (← given.settle) text) rest
    | .stop reason => do
      let _ ← given.settle
      .error reason

/-- What was given by the arguments, if nothing is missing. -/
def Grammar.parse (g : Grammar) (arguments : List String) : Except Stop Given := do
  let given ← g.collect .empty arguments
  if given.operands.length < g.operands.length then throw .usage
  if !g.commands.isEmpty && given.command.isNone then throw .usage
  return given

end Arguments
end GlobeView
