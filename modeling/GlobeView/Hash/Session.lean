/-
# Sessions

A session is a reader with a current configuration and a saved one.  Its steps
replace the current configuration by one that was read, built or written and
read again, assign to its fields without any check, or change the reader's
topology, which leaves the current configuration as it is.
-/

import GlobeView.Hash.Reader

namespace GlobeView

/-- An assignment to one field of a configuration. -/
inductive Assignment where
  | date (value : String)
  | hour (value : String)
  | param (value : String)
  | surface (value : String)
  | level (value : String)
  | noSelection
  | projection (value : String)
  | orientation (value : String)
  | overlayType (value : String)
  | showGridPoints (value : Bool)
  | topology (value : String)
  deriving DecidableEq, Repr

/-- The configuration after an assignment; fields of a missing selection stay missing. -/
def Configuration.assign (c : Configuration) : Assignment → Configuration
  | .date v => { c with selection := c.selection.map fun s => { s with date := v } }
  | .hour v => { c with selection := c.selection.map fun s => { s with hour := v } }
  | .param v => { c with selection := c.selection.map fun s => { s with param := v } }
  | .surface v => { c with selection := c.selection.map fun s => { s with surface := v } }
  | .level v => { c with selection := c.selection.map fun s => { s with level := v } }
  | .noSelection => { c with selection := none }
  | .projection v => { c with projection := v }
  | .orientation v => { c with orientation := v }
  | .overlayType v => { c with overlayType := v }
  | .showGridPoints v => { c with showGridPoints := v }
  | .topology v => { c with topology := v }

/-- One step of a session. -/
inductive Step where
  | read (hash : String)
  | initial
  | reread
  | withTopology (topology : String)
  | assign (assignment : Assignment)
  | restart
  | save
  deriving DecidableEq, Repr

/-- A reader with a current and a saved configuration. -/
structure Session where
  reader : HashReader
  current : Option Configuration
  saved : Option Configuration
  deriving DecidableEq

namespace Session

/-- A session in which nothing has been read yet. -/
def start (reader : HashReader) : Session :=
  ⟨reader, none, none⟩

/-- The configuration that the hash of the current one describes. -/
def reread (s : Session) : Option Configuration :=
  (s.current.bind Configuration.toHash).bind s.reader.read

/-- The configuration that starts afresh from the current selection. -/
def restart (s : Session) : Option Configuration :=
  (s.current.bind Configuration.selection).map (Configuration.ofSelection · s.reader.topology)

/-- The session after a step. -/
def step (s : Session) : Step → Session
  | .read hash => { s with current := s.reader.read hash }
  | .initial => { s with current := some s.reader.initial }
  | .reread => { s with current := s.reread }
  | .withTopology topology => { s with reader := s.reader.withTopology topology }
  | .assign a => { s with current := s.current.map (·.assign a) }
  | .restart => { s with current := s.restart }
  | .save => { s with saved := s.current }

/-- The session after a number of steps. -/
def run (s : Session) (steps : List Step) : Session :=
  steps.foldl step s

end Session
end GlobeView
