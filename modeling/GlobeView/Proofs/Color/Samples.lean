/-
# Samples of a spectrum

The points that samples are taken at are quotients of naturals, and three steps on the way to one
are rounded: the natural above, the one below, and the quotient.  Each step keeps the order, so
the points are in order, and none is above 1 (`part_mono`, `part_le_one`).  At both ends nothing
is left of the rounding: zero divided by a positive double is zero, and a double divided by
itself is 1 (`part_zero`, `part_self`).  Only a natural of more than 1024 bits would be converted
to an infinity, and the counts that can be asked for have 64 (`Invocation.fits_of_ofArguments`).

So all samples are inside the gamut, which the extended spectrum leaves beyond 1, and its last
sample is white.
-/

import GlobeView.CommandLine.Execution
import GlobeView.Proofs.CommandLine.Given
import GlobeView.Proofs.Number.Plain
import GlobeView.Proofs.Number.Whole
import GlobeView.Proofs.Scale.Fade

namespace GlobeView

open Exact

/-- Positive doubles are determined by what they are worth. -/
theorem Exact.eq_of_toRat_eq {x y : Float} (hx : x.isFinite = true) (hy : y.isFinite = true)
    (hpos : 0 < toRat x) (h : toRat x = toRat y) : x = y := by
  obtain ⟨m, e, hm, hux⟩ := exists_positive hx hpos
  obtain ⟨m', e', hm', huy⟩ := exists_positive hy (h ▸ hpos)
  have hcx := (canonical_of_isFinite hx).1
  have hcy := (canonical_of_isFinite hy).1
  refine eq_of_unpack_eq (hcx.eq_of_abs_value_eq hcy ?_ (congrArg _ h))
  rw [hux, huy]
  rfl

/-! ### Points -/

namespace Sinebow

/-- The point at the front of the part with number `i`, of `n` parts. -/
def part (n i : ℕ) : Float :=
  Float.ofNat i / Float.ofNat n

/-- The points are the fronts of all parts and the end of the last one; there is one part at
least. -/
theorem points_eq (n : ℕ) :
    points n = (List.range (max n 1 + 1)).map (part (max n 1)) := rfl

section

variable {n : ℕ} (hn : n < 2 ^ 64) (hpos : 0 < n)

include hn hpos

/-- A point is rounded three times: the numerator, the denominator, and their quotient. -/
theorem part_worth {i : ℕ} (hi : i ≤ n) : Worth (part n i) (rounded (rounded i / rounded n)) := by
  have hone := one_le_rounded_natCast hpos
  have hbelow := ofNat_worth_rounded n
  have hquotient := div_worth (isFinite_ofNat (hi.trans_lt hn)) (isFinite_ofNat hn)
    (by rw [hbelow.toRat_eq]; positivity)
  rwa [(ofNat_worth_rounded i).toRat_eq, hbelow.toRat_eq] at hquotient

/-- **The points are in order.** -/
theorem part_mono {i j : ℕ} (hij : i ≤ j) (hj : j ≤ n) : part n i ≤ part n j := by
  have hone := one_le_rounded_natCast hpos
  have hlow := part_worth hn hpos (hij.trans hj)
  have hhigh := part_worth hn hpos hj
  have hround := rounded_mono (show (i : ℚ) ≤ j by exact_mod_cast hij)
  rw [le_iff, hlow.toRat_eq, hhigh.toRat_eq]
  refine ⟨hlow.notNaN, hhigh.notNaN, rounded_mono ?_⟩
  gcongr

/-- The first point is 0, -/
theorem part_zero : part n 0 = 0.0 := by
  have hone := one_le_rounded_natCast hpos
  obtain ⟨m, e, hm, hunpack⟩ := exists_positive (isFinite_ofNat hn)
    (by rw [(ofNat_worth_rounded n).toRat_eq]; positivity)
  refine eq_of_unpack_eq ?_
  rw [part, div_eq_packed, hunpack]
  rfl

/-- the last point is 1, -/
theorem part_self : part n n = 1.0 := by
  have hone := one_le_rounded_natCast hpos
  have hself := part_worth hn hpos le_rfl
  rw [div_self (by positivity), rounded_one] at hself
  have hfinite := hself.isFinite (by rw [abs_one]; exact one_lt_limit)
  refine eq_of_toRat_eq hfinite one_finite ?_ (hself.toRat_eq.trans one_worth.toRat_eq.symm)
  rw [hself.toRat_eq]
  exact one_pos

/-- and no point is above it. -/
theorem part_le_one {i : ℕ} (hi : i ≤ n) : part n i ≤ 1.0 :=
  part_self hn hpos ▸ part_mono hn hpos hi le_rfl

end

end Sinebow

/-! ### Samples -/

namespace Command

/-- The spectrum that samples are taken of. -/
def spectrum (trig : Trigonometry) (extended : Bool) : Float → Float → Rgba :=
  if extended then Sinebow.extended trig else Sinebow.color trig

/-- The samples divide `[0, 1]` into `n` parts. -/
structure Divided (trig : Trigonometry) (extended : Bool) (n : ℕ) (alpha : Float)
    (entries : List Sample) : Prop where
  length_eq : entries.length = n + 1
  point : ∀ i (h : i < entries.length), entries[i].point = Float.ofNat i / Float.ofNat n
  ordered : entries.Pairwise fun a b => a.point ≤ b.point
  first : entries.head?.map Sample.point = some 0.0
  last : entries.getLast?.map Sample.point = some 1.0
  color_eq : ∀ e ∈ entries, e.color = spectrum trig extended e.point alpha
  inGamut : ∀ e ∈ entries, e.color.InGamut
  alpha_eq : ∀ e ∈ entries, e.color.alpha = alpha
  white : extended = true →
    entries.getLast?.map Sample.color = some (Sinebow.white.withAlpha alpha)

variable {trig : Trigonometry}

/-- The sample at the point with number `i`, of `n` parts. -/
def sampleAt (trig : Trigonometry) (extended : Bool) (alpha : Float) (n i : ℕ) : Sample :=
  ⟨Sinebow.part n i, spectrum trig extended (Sinebow.part n i) alpha⟩

/-- The samples are taken at the points, in order. -/
theorem samples_eq (trig : Trigonometry) (extended : Bool) (count : ℕ) (alpha : Float) :
    samples trig extended count alpha
      = (List.range (max count 1 + 1)).map (sampleAt trig extended alpha (max count 1)) := by
  rw [samples, Sinebow.points_eq, List.map_map]
  rfl

/-- Both spectra pass the alpha through. -/
theorem alpha_spectrum (trig : Trigonometry) (extended : Bool) (point alpha : Float) :
    (spectrum trig extended point alpha).alpha = alpha := by
  unfold spectrum
  split_ifs
  · exact Sinebow.alpha_extended trig point alpha
  · rfl

section

variable (htrig : trig.Bounded)

include htrig

/-- Up to 1 both spectra are inside the gamut. -/
theorem inGamut_spectrum (extended : Bool) {point : Float} (h : point ≤ 1.0) (alpha : Float) :
    (spectrum trig extended point alpha).InGamut := by
  unfold spectrum
  split_ifs
  · refine Sinebow.inGamut_extended htrig (fun hlt => ?_) alpha
    exact (lt_iff.1 hlt).2.2.not_ge (le_iff.1 h).2.2
  · exact Sinebow.inGamut_color htrig point alpha

/-- **The samples at the points divide `[0, 1]`,** for any number of parts of 64 bits. -/
theorem divided_sampleAt (extended : Bool) {n : ℕ} (hn : n < 2 ^ 64) (hpos : 0 < n)
    (alpha : Float) :
    Divided trig extended n alpha
      ((List.range (n + 1)).map (sampleAt trig extended alpha n)) := by
  have hmem {e : Sample} (he : e ∈ (List.range (n + 1)).map (sampleAt trig extended alpha n)) :
      ∃ i ≤ n, sampleAt trig extended alpha n i = e := by
    obtain ⟨i, hi, heq⟩ := List.mem_map.1 he
    exact ⟨i, Nat.le_of_lt_succ (List.mem_range.1 hi), heq⟩
  -- The last point is exactly one, where the fade has reached white.
  have hlast : ((List.range (n + 1)).map (sampleAt trig extended alpha n)).getLast?
      = some ⟨1.0, spectrum trig extended 1.0 alpha⟩ := by
    rw [List.range_succ, List.map_append, List.map_singleton, List.getLast?_concat, sampleAt,
      Sinebow.part_self hn hpos]
  constructor
  case length_eq => rw [List.length_map, List.length_range]
  case point =>
    intro i h
    rw [List.getElem_map, List.getElem_range]
    rfl
  case ordered =>
    -- Points are rounded quotients by one number, and rounding keeps their order.
    refine List.pairwise_map.2 (List.pairwise_lt_range.imp_of_mem ?_)
    intro i j _ hj hij
    exact Sinebow.part_mono hn hpos hij.le (Nat.le_of_lt_succ (List.mem_range.1 hj))
  case first =>
    rw [List.range_succ_eq_map, List.map_cons, List.head?_cons, Option.map_some, sampleAt,
      Sinebow.part_zero hn hpos]
  case last => rw [hlast, Option.map_some]
  case color_eq =>
    intro e he
    obtain ⟨i, -, rfl⟩ := hmem he
    rfl
  case inGamut =>
    intro e he
    obtain ⟨i, hi, rfl⟩ := hmem he
    -- The gamut asks for samples that are not above one, which the points are not.
    exact inGamut_spectrum htrig extended (Sinebow.part_le_one hn hpos hi) alpha
  case alpha_eq =>
    intro e he
    obtain ⟨i, -, rfl⟩ := hmem he
    exact alpha_spectrum trig extended _ alpha
  case white =>
    rintro rfl
    rw [hlast, Option.map_some, spectrum, if_pos rfl, Sinebow.extended_one htrig]

end

/-- **The samples of a spectrum divide `[0, 1]` into as many parts as are asked for, at least
one,** with a color of the spectrum and its style at each point.  Any count of 64 bits can be asked
for, and of whatever arguments the command is read, its count has no more. -/
theorem run_sinebow (s : Surroundings) (htrig : s.trig.Bounded) :
    (∀ (settings : Settings) (device : Device) (extended : Bool) (count : ℕ) (alpha : Float),
      count < 2 ^ 64 → ∃ entries, Divided s.trig extended (max count 1) alpha entries ∧
        (sinebow extended count alpha).run s settings device
          = always (.array (entries.map fun e => .object [
            ("point", .real e.point),
            ("color", .object [("r", .integer e.color.red.toInt),
              ("g", .integer e.color.green.toInt), ("b", .integer e.color.blue.toInt),
              ("a", .real e.color.alpha)]),
            ("style", .text e.color.toStyle)]))) ∧
      ∀ (arguments : List String) (invocation : Invocation) (extended : Bool) (count : ℕ)
        (alpha : Float), Invocation.ofArguments s.environment arguments = .ok invocation →
          invocation.command = sinebow extended count alpha → count < 2 ^ 64 := by
  refine ⟨fun settings device extended count alpha hcount => ?_,
    fun arguments invocation extended count alpha hread hcommand => ?_⟩
  · -- With no count at all there is one part still.
    have hparts : max count 1 < 2 ^ 64 := by omega
    refine ⟨_, divided_sampleAt htrig extended hparts (by omega) alpha, ?_⟩
    rw [run, samples_eq]
    rfl
  · have hfits := Invocation.fits_of_ofArguments hread
    rwa [hcommand] at hfits

/-- When no part is asked for, white is reached in a single step. -/
theorem run_sinebow_zero :
    let trig : Trigonometry := ⟨fun x => if x == 0.0 then 0.0 else -0.7071067811865475,
      fun x => if x == 0.0 then 1.0 else -0.7071067811865477, fun _ _ => 0.0⟩
    let s : Surroundings := ⟨trig, [], fun _ => none, ⟨0, 0, 0⟩⟩
    trig.Bounded ∧ 0 < 2 ^ 64 ∧ ∃ entries, Divided trig true 1 255.0 entries ∧
      entries.length = 2 ∧
      entries.getLast?.map (fun e => e.color.toStyle) = some "rgba(255, 255, 255, 255)" ∧
      (sinebow true 0 255.0).run s .standard .desktop = always (.array (entries.map fun e =>
        .object [
          ("point", .real e.point),
          ("color", .object [("r", .integer e.color.red.toInt),
            ("g", .integer e.color.green.toInt), ("b", .integer e.color.blue.toInt),
            ("a", .real e.color.alpha)]),
          ("style", .text e.color.toStyle)])) := by
  intro trig s
  have htrig : trig.Bounded := by
    constructor <;> intro x <;> dsimp only [trig] <;> split_ifs <;> exact .inr (by decide)
  have hcount : 0 < 2 ^ 64 := by norm_num
  obtain ⟨entries, hdivided, hrun⟩ :=
    (run_sinebow s htrig).1 .standard .desktop true 0 255.0 hcount
  have hstyle : (Sinebow.white.withAlpha 255.0).toStyle = "rgba(255, 255, 255, 255)" := by
    decide +kernel
  have hwhite := congrArg (Option.map Rgba.toStyle) (hdivided.white rfl)
  rw [Option.map_map, Option.map_some, hstyle] at hwhite
  exact ⟨htrig, hcount, entries, hdivided, hdivided.length_eq, hwhite, hrun⟩

end Command

end GlobeView
