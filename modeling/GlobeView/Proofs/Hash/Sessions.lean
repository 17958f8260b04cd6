/-
# What a session can have as its current configuration

A session replaces its current configuration by one that was read, built,
written and read again, or started afresh from the current selection, and may
change the reader's topology in between.  As long as nothing assigns to single
fields, the invariant `Session.Faithful` says where the current configuration
comes from:

    no selection, and built for a topology the reader has had, or
    read from some hash with a topology the reader has had.

Only the second kind can be written.  It is canonical for the topology it was
read with (`canonical_of_readHash`), hence also for the reader's present one, so
that writing and reading it changes nothing but the topology
(`Session.Faithful.reread_eq`).  After arbitrary assignments that need not be so:
slashes and options may stand in any field.  What the hash of such a
configuration gives is again something that was read, and from then on writing
and reading changes nothing (`Session.step_reread_step_reread`).
-/

import GlobeView.Hash.Session
import GlobeView.Proofs.Hash.RoundTrip

namespace GlobeView

/-! ### Canonical configurations under another topology -/

section

variable {P O : Type} [NameCollection P] [NameCollection O]

/-- The topology takes no part in what is canonical otherwise. -/
theorem Configuration.Canonical.withTopology {projections : P} {overlays : O} {topology : String}
    {c : Configuration} (h : c.Canonical projections overlays topology) (topology' : String) :
    { c with topology := topology' }.Canonical projections overlays topology' :=
  ⟨h.selection, h.projection, h.overlay, rfl⟩

end

/-! ### Steps -/

namespace Step

/-- Whether a step assigns to a field without any check. -/
def isAssign : Step → Bool
  | assign _ => true
  | _ => false

/-- The topology that a step gives to the reader. -/
def topology? : Step → Option String
  | withTopology topology => some topology
  | _ => none

end Step

/-! ### The invariant -/

/-- Where a configuration comes from: it was built without a selection, or read, with
the names of a reader and one of the given topologies. -/
inductive Configuration.Origin (r : HashReader) (topologies : List String)
    (c : Configuration) : Prop where
  | initial {topology : String} (htopology : topology ∈ topologies) (hnone : c.selection = none)
      (h : c = (r.withTopology topology).initial)
  | read {topology hash : String} (htopology : topology ∈ topologies)
      (h : (r.withTopology topology).read hash = some c)

/-- An origin stays one when more topologies are given. -/
theorem Configuration.Origin.mono {r : HashReader} {topologies topologies' : List String}
    {c : Configuration} (h : c.Origin r topologies) (hsub : topologies ⊆ topologies') :
    c.Origin r topologies' := by
  cases h with
  | initial htopology hnone h => exact .initial (hsub htopology) hnone h
  | read htopology h => exact .read (hsub htopology) h

/-- What has a selection was read, so it is canonical. -/
theorem Configuration.Origin.canonical {r : HashReader} {topologies : List String}
    {c : Configuration} (h : c.Origin r topologies) {s : Selection} (hs : c.selection = some s) :
    ∃ topology, c.Canonical r.projections r.overlays topology := by
  cases h with
  | initial _ hnone _ => simp [hnone] at hs
  | read _ h => exact ⟨_, canonical_of_readHash h⟩

namespace Session

/-- What writing and reading the current configuration should give: nothing without a
selection, and otherwise the same with the topology the reader has now. -/
def retopologized (s : Session) : Option Configuration :=
  s.current.bind fun c => c.selection.map fun _ => { c with topology := s.reader.topology }

/-- The names are still those of `r`, and the topology and the current configuration
come from the given topologies. -/
structure Faithful (r : HashReader) (topologies : List String) (s : Session) : Prop where
  projections : s.reader.projections = r.projections
  overlays : s.reader.overlays = r.overlays
  topology : s.reader.topology ∈ topologies
  origin : ∀ c, s.current = some c → c.Origin r topologies

/-- A session starts with its own topology and no configuration. -/
theorem faithful_start (r : HashReader) : (start r).Faithful r [r.topology] :=
  ⟨rfl, rfl, List.mem_singleton_self _, fun _ h => by cases h⟩

variable {r : HashReader} {topologies : List String} {s : Session}

/-- The reader of a faithful session is the first one with another topology. -/
theorem Faithful.reader_eq (hs : s.Faithful r topologies) :
    s.reader = r.withTopology s.reader.topology := by
  rw [HashReader.withTopology, ← hs.projections, ← hs.overlays]

/-- What the reader of a faithful session reads has an origin. -/
theorem Faithful.origin_of_read (hs : s.Faithful r topologies) {hash : String}
    {c : Configuration} (h : s.reader.read hash = some c) : c.Origin r topologies := by
  rw [hs.reader_eq] at h
  exact .read hs.topology h

/-- **Writing and reading a faithful configuration changes at most its topology.** -/
theorem Faithful.reread_eq (hs : s.Faithful r topologies) : s.reread = s.retopologized := by
  unfold reread retopologized
  cases hcurrent : s.current with
  | none => rfl
  | some c =>
    rw [Option.bind_some, Option.bind_some]
    -- Without a selection there is no hash, and nothing is read again.
    cases hselection : c.selection with
    | none => simp [Configuration.toHash, hselection]
    | some selection =>
      -- With one the configuration is canonical, also with the topology of the reader.
      obtain ⟨topology, hc⟩ := (hs.origin c hcurrent).canonical hselection
      obtain ⟨hash, hwrite, hread⟩ := (hc.withTopology s.reader.topology).readHash_toHash
      have hwrite : c.toHash = some hash := hwrite
      rw [hwrite, Option.bind_some, Option.map_some, HashReader.read, hs.projections, hs.overlays,
        hread, hselection]

/-- **Every step but an assignment keeps a session faithful.** -/
theorem Faithful.step (hs : s.Faithful r topologies) {st : Step} (hst : st.isAssign = false) :
    (s.step st).Faithful r (topologies ++ st.topology?.toList) := by
  -- All steps but one keep the reader, so that only the configuration has to be looked at.
  have hkeep {current saved : Option Configuration}
      (horigin : ∀ c, current = some c → c.Origin r topologies) :
      (Session.mk s.reader current saved).Faithful r (topologies ++ []) := by
    rw [List.append_nil]
    exact ⟨hs.projections, hs.overlays, hs.topology, horigin⟩
  cases st with
  | read hash => exact hkeep fun c hc => hs.origin_of_read hc
  | initial =>
    refine hkeep ?_
    intro c hc
    obtain rfl := Option.some.inj hc
    have hdefault := initialConfiguration_eq s.reader.projections s.reader.overlays
      s.reader.topology
    refine .initial hs.topology (congrArg Configuration.selection hdefault) ?_
    rw [← hs.reader_eq]
  | reread =>
    refine hkeep ?_
    intro c hc
    obtain ⟨hash, -, hread⟩ := Option.bind_eq_some_iff.1 hc
    exact hs.origin_of_read hread
  | withTopology topology =>
    refine ⟨hs.projections, hs.overlays, ?_, ?_⟩
    · exact List.mem_append_right topologies (List.mem_singleton_self topology)
    · intro c hc
      exact (hs.origin c hc).mono (List.subset_append_left topologies [topology])
  | assign a => cases hst
  | restart =>
    refine hkeep ?_
    intro c hc
    obtain ⟨selection, hselection, rfl⟩ := Option.map_eq_some_iff.1 hc
    obtain ⟨c', hcurrent, hselection⟩ := Option.bind_eq_some_iff.1 hselection
    obtain ⟨topology, hc'⟩ := (hs.origin c' hcurrent).canonical hselection
    obtain ⟨selection', hselection', hcanonical⟩ := hc'.selection
    obtain rfl := Option.some.inj (hselection'.symm.trans hselection)
    -- No hash was read for this one: its own hash is the one that it is read from.
    obtain ⟨hash, -, hread⟩ := (Configuration.canonical_ofSelection r.projections r.overlays
      s.reader.topology hcanonical).readHash_toHash
    exact .read hs.topology hread
  | save => exact hkeep hs.origin

/-- **A run without assignments keeps a session faithful.** -/
theorem Faithful.run (hs : s.Faithful r topologies) {steps : List Step}
    (hsteps : ∀ st ∈ steps, st.isAssign = false) :
    (s.run steps).Faithful r (topologies ++ steps.filterMap Step.topology?) := by
  -- On the steps, with the topologies that were set so far.
  induction steps generalizing s topologies with
  | nil => simpa [Session.run] using hs
  | cons st steps ih =>
    have hstep := hs.step (hsteps st List.mem_cons_self)
    have hrun := ih hstep fun st' h => hsteps st' (List.mem_cons_of_mem st h)
    have htopologies : topologies ++ st.topology?.toList ++ steps.filterMap Step.topology?
        = topologies ++ (st :: steps).filterMap Step.topology? := by
      rw [List.append_assoc, List.filterMap_cons]
      cases st.topology? <;> rfl
    rw [htopologies] at hrun
    exact hrun

/-- **Writing and reading twice is writing and reading once,** whatever is current. -/
theorem step_reread_step_reread (s : Session) :
    (s.step .reread).step .reread = s.step .reread := by
  have hagain : (s.step .reread).reread = s.reread := by
    change (s.reread.bind Configuration.toHash).bind s.reader.read = s.reread
    cases hread : s.reread with
    | none => rfl
    | some c =>
      -- What has been read is canonical, so it is written and read without a change.
      obtain ⟨hash, -, hc⟩ := Option.bind_eq_some_iff.1 hread
      obtain ⟨hash', hwrite, hc'⟩ := (canonical_of_readHash hc).readHash_toHash
      rw [Option.bind_some, hwrite, Option.bind_some]
      exact hc'
  simp only [Session.step] at hagain ⊢
  rw [hagain]

/-- **Every state of a session is faithful as long as no step assigns,** and then
writing and reading the current configuration again gives nothing without a selection
and otherwise replaces its topology by the reader's.  After any steps, assignments among
them, doing so twice gives the same as doing so once. -/
theorem faithful_of_run (projections overlays : List String) (device : Device)
    (steps : List Step) :
    let r := HashReader.ofNames projections overlays device
    let s := (start r).run steps
    ((∀ st ∈ steps, st.isAssign = false) →
        s.Faithful r (device.topology :: steps.filterMap Step.topology?) ∧
          s.reread = s.retopologized) ∧
      (s.step .reread).step .reread = s.step .reread := by
  intro r s
  refine ⟨fun hsteps => ?_, step_reread_step_reread s⟩
  have hs : s.Faithful r ([r.topology] ++ steps.filterMap Step.topology?) :=
    (faithful_start r).run hsteps
  exact ⟨hs, hs.reread_eq⟩

/-- What was read before the topology changed is read again with the new one. -/
theorem reread_after_withTopology :
    let r := HashReader.ofNames ["conic"] ["temp"] .desktop
    let s := (start r).run [.read "current/wind/surface/level/conic=1,2", .withTopology "/t.json"]
    s.Faithful r ["/data/earth-topo.json?v2", "/t.json"] ∧
      s.reread = some ⟨some ⟨"current", "", "wind", "surface", "level"⟩, "conic", "1,2", "default",
        false, "/t.json"⟩ := by
  intro r s
  obtain ⟨hs, hreread⟩ := (faithful_of_run ["conic"] ["temp"] .desktop
    [.read "current/wind/surface/level/conic=1,2", .withTopology "/t.json"]).1 (by decide)
  exact ⟨hs, hreread.trans (by decide)⟩

end Session

end GlobeView
