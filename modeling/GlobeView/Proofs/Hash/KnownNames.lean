/-
# What the known names decide

Options are classified before any name is looked up, so reading one hash with
two different collections of names applies the same options in the same order.
Since each part of a configuration is a fold of its own (`readHash_eq`), the
runs can be compared part by part:

| what differs | what may differ in the configuration |
| --- | --- |
| neither collection, as far as words go | nothing |
| the overlays | the overlay |
| the projections | the projection and the orientation |
| both | these three, but no other field |

Only words are ever looked up.  So how a collection stores its names, in which
order and how often, is without effect, and so are names that are no words.
-/

import GlobeView.Proofs.Hash.Fields
import GlobeView.Proofs.Hash.Option
import GlobeView.Proofs.Names

namespace GlobeView

/-! ### Configurations without what names decide -/

namespace Configuration

/-- The configuration without its overlay. -/
def withoutOverlay (c : Configuration) : Configuration :=
  { c with overlayType := "" }

/-- The configuration without its projection and orientation. -/
def withoutProjection (c : Configuration) : Configuration :=
  { c with projection := "", orientation := "" }

end Configuration

/-! ### Collections with the same words -/

section

variable {γ δ : Type} [NameCollection γ] [StoredNames γ] [NameCollection δ] [StoredNames δ]

/-- The collections hold the same names, wherever and however often. -/
def SameNames (names : γ) (names' : δ) : Prop :=
  ∀ name : String, name ∈ StoredNames.names names ↔ name ∈ StoredNames.names names'

/-- The collections hold the same words; of all other names they may hold different ones. -/
def SameWords (names : γ) (names' : δ) : Prop :=
  ∀ name : String, isWord name.toList = true →
    (name ∈ StoredNames.names names ↔ name ∈ StoredNames.names names')

/-- Collections of the same names hold the same words. -/
theorem SameNames.sameWords {names : γ} {names' : δ} (h : SameNames names names') :
    SameWords names names' :=
  fun name _ => h name

/-- Of a word, collections that hold the same words say the same. -/
theorem SameWords.contains_eq {names : γ} {names' : δ} (h : SameWords names names')
    {name : String} (hword : isWord name.toList = true) :
    NameCollection.contains names name = NameCollection.contains names' name := by
  rw [Bool.eq_iff_iff, StoredNames.contains_iff, StoredNames.contains_iff]
  exact h name hword

/-- What a segment is classified as asks for words only, so collections with the same words
answer alike. -/
theorem SameWords.projectionAfter_classify {projections : γ} {projections' : δ}
    (h : SameWords projections projections') (current : String × String) (segment : List Char) :
    projectionAfter projections current (HashOption.classify segment)
      = projectionAfter projections' current (HashOption.classify segment) := by
  generalize ho : HashOption.classify segment = o
  -- Only a projection is looked up, and its name is a word.
  cases o with
  | projection name orientation =>
    have hword : isWord name.toList = true := ((HashOption.classify_eq_iff (by simp)).1 ho).1.1
    rw [projectionAfter, projectionAfter, h.contains_eq hword]
  | overlay name => rfl
  | grid name => rfl
  | unrecognized => rfl

/-- Overlays are looked up by words only, so the words that are known decide. -/
theorem SameWords.overlayAfter_classify {overlays : γ} {overlays' : δ}
    (h : SameWords overlays overlays') (current : String) (segment : List Char) :
    overlayAfter overlays current (HashOption.classify segment)
      = overlayAfter overlays' current (HashOption.classify segment) := by
  generalize ho : HashOption.classify segment = o
  cases o with
  | projection name orientation => rfl
  | overlay name =>
    have hword : isWord name.toList = true := ((HashOption.classify_eq_iff (by simp)).1 ho).1.1
    rw [overlayAfter, overlayAfter, h.contains_eq hword]
  | grid name => rfl
  | unrecognized => rfl

end

/-! ### Two runs -/

section

variable {P P' O O' : Type} [NameCollection P] [NameCollection P'] [NameCollection O]
  [NameCollection O']

/-- **Names that are no words take no part in reading.** -/
theorem readHash_eq_of_sameWords [StoredNames P] [StoredNames P'] [StoredNames O]
    [StoredNames O'] {projections : P} {projections' : P'} {overlays : O} {overlays' : O'}
    (hp : SameWords projections projections') (ho : SameWords overlays overlays')
    (topology hash : String) :
    readHash projections overlays topology hash
      = readHash projections' overlays' topology hash := by
  -- Every option comes from a segment, so only words are looked up.
  have hprojection (segments : List (List Char)) (current : String × String) :
      (segments.map HashOption.classify).foldl (projectionAfter projections) current
        = (segments.map HashOption.classify).foldl (projectionAfter projections') current := by
    rw [List.foldl_map, List.foldl_map]
    exact List.foldl_ext _ _ _ fun current segment _ =>
      hp.projectionAfter_classify current segment
  have hoverlay (segments : List (List Char)) (current : String) :
      (segments.map HashOption.classify).foldl (overlayAfter overlays) current
        = (segments.map HashOption.classify).foldl (overlayAfter overlays') current := by
    rw [List.foldl_map, List.foldl_map]
    exact List.foldl_ext _ _ _ fun current segment _ => ho.overlayAfter_classify current segment
  simp only [readHash_eq, hprojection, hoverlay]

/-- Overlays decide nothing but the overlay. -/
theorem map_withoutOverlay_readHash (projections : P) (overlays : O) (overlays' : O')
    (topology hash : String) :
    (readHash projections overlays topology hash).map Configuration.withoutOverlay
      = (readHash projections overlays' topology hash).map Configuration.withoutOverlay := by
  rw [readHash_eq, readHash_eq, Option.map_map, Option.map_map]
  rfl

/-- Projections decide nothing but the projection and the orientation. -/
theorem map_withoutProjection_readHash (projections : P) (projections' : P') (overlays : O)
    (topology hash : String) :
    (readHash projections overlays topology hash).map Configuration.withoutProjection
      = (readHash projections' overlays topology hash).map Configuration.withoutProjection := by
  rw [readHash_eq, readHash_eq, Option.map_map, Option.map_map]
  rfl

/-- Names decide neither whether a hash matches nor the other fields. -/
theorem map_otherFields_readHash (projections : P) (projections' : P') (overlays : O)
    (overlays' : O') (topology hash : String) :
    (readHash projections overlays topology hash).map
        (fun c => (c.selection, c.showGridPoints, c.topology))
      = (readHash projections' overlays' topology hash).map
        (fun c => (c.selection, c.showGridPoints, c.topology)) := by
  rw [readHash_eq, readHash_eq, Option.map_map, Option.map_map]
  rfl

/-- A reader reads with the names it was made of. -/
theorem HashReader.read_withTopology_ofNames (projections overlays : List String)
    (device : Device) (topology hash : String) :
    ((HashReader.ofNames projections overlays device).withTopology topology).read hash
      = readHash projections overlays topology hash := by
  have hsame (names : List String) : SameWords (NameSet.ofNames names) names :=
    fun _ _ => NameSet.mem_names_ofNames
  exact readHash_eq_of_sameWords (hsame projections) (hsame overlays) topology hash

/-- **How names are held leaves no trace in what is read, and names decide nothing but
their own fields.**  For collections of any kinds, and for a reader made of lists of names:

* the same names, and even the same words, give the same result;
* whether a hash matches depends on no names, nor do the selection, the grid and the topology;
* other overlays change nothing but the overlay;
* other projections change nothing but the projection and the orientation. -/
theorem readHash_knownNames [StoredNames P] [StoredNames P'] [StoredNames O] [StoredNames O']
    (projections : P) (projections' : P') (overlays : O) (overlays' : O')
    (topology hash : String) :
    (SameNames projections projections' → SameNames overlays overlays' →
        readHash projections overlays topology hash
          = readHash projections' overlays' topology hash) ∧
      (SameWords projections projections' → SameWords overlays overlays' →
        readHash projections overlays topology hash
          = readHash projections' overlays' topology hash) ∧
      (∀ (projections overlays : List String) (device : Device),
        ((HashReader.ofNames projections overlays device).withTopology topology).read hash
          = readHash projections overlays topology hash) ∧
      (readHash projections overlays topology hash).isSome
        = (readHash projections' overlays' topology hash).isSome ∧
      (readHash projections overlays topology hash).map
          (fun c => (c.selection, c.showGridPoints, c.topology))
        = (readHash projections' overlays' topology hash).map
          (fun c => (c.selection, c.showGridPoints, c.topology)) ∧
      (readHash projections overlays topology hash).map Configuration.withoutOverlay
        = (readHash projections overlays' topology hash).map Configuration.withoutOverlay ∧
      (readHash projections overlays topology hash).map Configuration.withoutProjection
        = (readHash projections' overlays topology hash).map Configuration.withoutProjection := by
  have hother := map_otherFields_readHash projections projections' overlays overlays' topology hash
  refine ⟨fun hp ho => ?_, fun hp ho => ?_, fun ps os device => ?_, ?_, hother, ?_, ?_⟩
  · exact readHash_eq_of_sameWords hp.sameWords ho.sameWords topology hash
  · exact readHash_eq_of_sameWords hp ho topology hash
  · exact HashReader.read_withTopology_ofNames ps os device topology hash
  · simpa only [Option.isSome_map] using congrArg Option.isSome hother
  · exact map_withoutOverlay_readHash projections overlays overlays' topology hash
  · exact map_withoutProjection_readHash projections projections' overlays topology hash

/-- A list with repetitions and a set, an array and a tree with a name that is no word. -/
theorem readHash_eq_of_containers :
    let hash := "current/wind/surface/level/overlay=off/conic=1,2"
    SameNames ["conic", "atlantis", "conic"] (Std.HashSet.ofList ["atlantis", "conic"]) ∧
      SameWords #["off"] (Std.TreeSet.ofList ["a b", "off"]) ∧
      readHash ["conic", "atlantis", "conic"] #["off"] "/t.json" hash
        = readHash (Std.HashSet.ofList ["atlantis", "conic"]) (Std.TreeSet.ofList ["a b", "off"])
          "/t.json" hash := by
  intro hash
  have hnames : SameNames ["conic", "atlantis", "conic"]
      (Std.HashSet.ofList ["atlantis", "conic"]) := by
    intro name
    simp only [StoredNames.names, id_eq, Std.HashSet.mem_toList, Std.HashSet.mem_ofList,
      List.contains_iff_mem, List.mem_cons, List.not_mem_nil, or_false]
    tauto
  have hwords : SameWords #["off"] (Std.TreeSet.ofList ["a b", "off"]) := by
    intro name hword
    have hblank : name ≠ "a b" := by
      rintro rfl
      exact absurd hword (by decide)
    simp [StoredNames.names, hblank]
  exact ⟨hnames, hwords, (readHash_knownNames _ _ _ _ "/t.json" hash).2.1 hnames.sameWords hwords⟩

end

end GlobeView
