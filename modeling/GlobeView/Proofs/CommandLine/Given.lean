/-
# What is given has the form that is asked for

A value is read in the form of the option it is given to, at once or when the next argument is
read.  So of whatever arguments a command is read, every value it was given is one that the
grammar admits for that option (`Grammar.fits_of_collect`): each argument keeps this, and what
is still pending is waiting for an option of the grammar.

| command | what its numbers are |
| --- | --- |
| `wind-scale` | a step of 32 bits |
| `sinebow` | a count of 64 bits |
-/

import GlobeView.CommandLine.Invocation
import Mathlib.Data.List.Nodup
import Mathlib.Tactic.NormNum

namespace GlobeView

namespace Arguments

/-! ### Values and readings -/

/-- The values of a form. -/
def ValueForm.Admits : ValueForm → Value → Prop
  | .text, .text _ => True
  | .fileName, .text s => s ≠ ""
  | .natural32, .natural n => n < 2 ^ 32
  | .natural64, .natural n => n < 2 ^ 64
  | .double, .double _ => True
  | _, _ => False

/-- What is read in a form is a value of that form. -/
theorem ValueForm.admits_of_read {form : ValueForm} {text : String} {v : Value}
    (h : form.read text = some v) : form.Admits v := by
  -- Only the two forms of naturals have a bound to be checked.
  cases form with
  | text =>
    cases h
    trivial
  | fileName =>
    rw [read] at h
    split_ifs at h with hempty
    cases h
    exact hempty
  | natural32 =>
    obtain ⟨n, hn, rfl⟩ := Option.map_eq_some_iff.1 h
    -- A smaller form of natural is read as an integer, whose range is checked.
    obtain ⟨i, -, hi⟩ := Option.bind_eq_some_iff.1 hn
    split_ifs at hi with hrange
    cases hi
    change i.toNat < 2 ^ 32
    omega
  | natural64 =>
    obtain ⟨n, hn, rfl⟩ := Option.map_eq_some_iff.1 h
    have hle := of_decide_eq_true (Option.filter_eq_some_iff.1 hn).2
    change n < 2 ^ 64
    omega
  | double =>
    obtain ⟨x, -, rfl⟩ := Option.map_eq_some_iff.1 h
    trivial

/-- The grammar has an option of that name for values of that form, or without one a flag. -/
def Grammar.Offers (g : Grammar) (name : String) (form : Option ValueForm) : Prop :=
  ∃ o ∈ g.options, o.name = name ∧ o.value = form

/-- The reading is of an option that the grammar has, or of none. -/
def Reading.IsOffered (g : Grammar) : Reading → Prop
  | .flag name => g.Offers name none
  | .option name form _ => g.Offers name (some form)
  | .optionNext name form => g.Offers name (some form)
  | _ => True

namespace Grammar

variable {g : Grammar}

/-- An option of the grammar is read as itself, with or without a value attached. -/
theorem isOffered_read {o : OptionForm} (ho : o ∈ g.options) (attached : Option (List Char)) :
    (o.read attached).IsOffered g := by
  unfold OptionForm.read
  split
  case h_1 hform => exact ⟨o, ho, rfl, hform⟩
  case h_2 hform => exact ⟨o, ho, rfl, hform⟩
  case h_3 hform => exact ⟨o, ho, rfl, hform⟩
  case h_4 => trivial

/-- A long name is read as an option of the grammar, or as none. -/
theorem isOffered_readName (cs : List Char) : (g.readName cs).IsOffered g := by
  unfold readName
  dsimp only
  split
  · rename_i o ho
    exact isOffered_read (List.mem_of_find?_eq_some ho) _
  · trivial

/-- A letter is read as an option of the grammar, or as none. -/
theorem isOffered_readLetter (cs : List Char) : (g.readLetter cs).IsOffered g := by
  unfold readLetter
  split
  · trivial
  · split
    · rename_i o ho
      exact isOffered_read (List.mem_of_find?_eq_some ho) _
    · trivial

/-- **An argument is read as an option of the grammar, or as none.** -/
theorem isOffered (argument : String) : (g.read argument).IsOffered g := by
  unfold read
  split
  · trivial
  · exact isOffered_readName _
  · exact isOffered_readLetter _
  · split_ifs <;> trivial

end Grammar

/-! ### Steps that may fail -/

/-- A computation of two steps that succeeds has succeeded in both. -/
theorem exists_of_bind_eq_ok {ε α β : Type} {x : Except ε α} {f : α → Except ε β} {b : β}
    (h : x >>= f = .ok b) : ∃ a, x = .ok a ∧ f a = .ok b := by
  cases x with
  | error e => cases h
  | ok a => exact ⟨a, rfl, h⟩

/-- What `orUsage` passes on was there. -/
theorem orUsage_eq_ok {α : Type} {o : Option α} {a : α} (h : orUsage o = .ok a) :
    o = some a := by
  cases o with
  | none => cases h
  | some b =>
    cases h
    rfl

/-! ### What is given -/

/-- Every option that was given is one of the grammar, with a value that it admits, and so is
the option whose value is pending. -/
structure Given.Fits (g : Grammar) (given : Given) : Prop where
  options : ∀ o ∈ given.options, ∃ form, g.Offers o.1 form ∧ Option.Rel ValueForm.Admits form o.2
  pending : ∀ p, given.pending = some p → g.Offers p.name (some p.form)

namespace Given

variable {g : Grammar} {given given' : Given}

/-- Nothing was given yet, so nothing is of a wrong form. -/
theorem fits_empty (g : Grammar) : Given.empty.Fits g where
  options := by simp [Given.empty]
  pending := by simp [Given.empty]

/-- An option of the grammar may be added with a value that it admits. -/
theorem Fits.addOption (h : given.Fits g) {name : String} {form : Option ValueForm}
    {value : Option Value} (hform : g.Offers name form)
    (hvalue : Option.Rel ValueForm.Admits form value)
    (hstep : given.addOption name value = .ok given') : given'.Fits g := by
  rw [Given.addOption] at hstep
  split_ifs at hstep
  cases hstep
  refine ⟨fun o ho => ?_, h.pending⟩
  -- The option is one of those before, or the one that is added.
  rcases List.mem_append.1 ho with ho | ho
  · exact h.options o ho
  · obtain rfl := List.mem_singleton.1 ho
    exact ⟨form, hform, hvalue⟩

/-- A text may be added where it is read in the form of the option. -/
theorem Fits.addValue (h : given.Fits g) {name text : String} {form : ValueForm}
    (hform : g.Offers name (some form)) (hstep : given.addValue name form text = .ok given') :
    given'.Fits g := by
  obtain ⟨v, hv, hstep⟩ := exists_of_bind_eq_ok hstep
  exact h.addOption hform (.some (ValueForm.admits_of_read (orUsage_eq_ok hv))) hstep

/-- The value that was pending is added to its own option. -/
theorem Fits.settle (h : given.Fits g) (hstep : given.settle = .ok given') : given'.Fits g := by
  rw [Given.settle] at hstep
  split at hstep
  · cases hstep
    exact h
  · rename_i p hp
    have hrest : Fits g { given with pending := none } := ⟨h.options, fun _ hnone => nomatch hnone⟩
    exact hrest.addValue (h.pending p hp) hstep

/-- An operand is no option and changes none of them. -/
theorem Fits.addOperand (h : given.Fits g) {text : String}
    (hstep : g.addOperand given text = .ok given') : given'.Fits g := by
  obtain ⟨form, -, hstep⟩ := exists_of_bind_eq_ok hstep
  obtain ⟨v, -, hstep⟩ := exists_of_bind_eq_ok hstep
  cases hstep
  exact ⟨h.options, h.pending⟩

/-- However many operands follow, the options stay as they are. -/
theorem Fits.addOperands (h : given.Fits g) {texts : List String}
    (hstep : texts.foldlM g.addOperand given = .ok given') : given'.Fits g := by
  induction texts generalizing given with
  | nil =>
    cases hstep
    exact h
  | cons text texts ih =>
    obtain ⟨next, hnext, hstep⟩ := exists_of_bind_eq_ok hstep
    exact ih (h.addOperand hnext) hstep

end Given

namespace Grammar

variable {g : Grammar} {given given' : Given}

/-- **Whatever the arguments, what is given has the form that is asked for.** -/
theorem fits_of_collect (h : given.Fits g) {arguments : List String}
    (hstep : g.collect given arguments = .ok given') : given'.Fits g := by
  -- One case for every way in which `collect` goes on after an argument.
  fun_induction Grammar.collect g given arguments with
  | case1 given => exact h.settle hstep
  | case2 given argument rest name hread ih =>
    obtain ⟨settled, hsettled, hstep⟩ := exists_of_bind_eq_ok hstep
    obtain ⟨next, hnext, hstep⟩ := exists_of_bind_eq_ok hstep
    have hoffered := g.isOffered argument
    rw [hread] at hoffered
    exact ih next ((h.settle hsettled).addOption hoffered .none hnext) hstep
  | case3 given argument rest name form value hread ih =>
    obtain ⟨settled, hsettled, hstep⟩ := exists_of_bind_eq_ok hstep
    obtain ⟨next, hnext, hstep⟩ := exists_of_bind_eq_ok hstep
    have hoffered := g.isOffered argument
    rw [hread] at hoffered
    exact ih next ((h.settle hsettled).addValue hoffered hnext) hstep
  | case4 given argument name form hread value rest hvalue ih =>
    obtain ⟨settled, hsettled, hstep⟩ := exists_of_bind_eq_ok hstep
    have hoffered := g.isOffered argument
    rw [hread] at hoffered
    -- The value is still to come, so that only the form of the option is known here.
    refine ih settled ⟨(h.settle hsettled).options, fun p hp => ?_⟩ hstep
    obtain rfl := Option.some.inj hp
    exact hoffered
  | case5 => cases hstep
  | case6 => cases hstep
  | case7 given argument rest hread =>
    obtain ⟨settled, hsettled, hstep⟩ := exists_of_bind_eq_ok hstep
    exact (h.settle hsettled).addOperands hstep
  | case8 given argument rest name hread =>
    cases hstep
    exact ⟨h.options, h.pending⟩
  | case9 given argument rest text hread ih =>
    obtain ⟨settled, hsettled, hstep⟩ := exists_of_bind_eq_ok hstep
    obtain ⟨next, hnext, hstep⟩ := exists_of_bind_eq_ok hstep
    exact ih next ((h.settle hsettled).addOperand hnext) hstep
  | case10 given argument rest reason hread =>
    obtain ⟨settled, -, hstep⟩ := exists_of_bind_eq_ok hstep
    cases hstep

/-- The checks after the last argument leave what was given as it is. -/
theorem fits_of_parse {arguments : List String} (hstep : g.parse arguments = .ok given) :
    given.Fits g := by
  obtain ⟨collected, hcollected, hstep⟩ := exists_of_bind_eq_ok hstep
  have hfits := fits_of_collect (Given.fits_empty g) hcollected
  dsimp only at hstep
  split_ifs at hstep <;> cases hstep
  exact hfits

end Grammar

/-- **The value of an option has its form,** if the grammar names no option twice. -/
theorem Given.Fits.admits {g : Grammar} {given : Given} (h : given.Fits g)
    (hnodup : (g.options.map OptionForm.name).Nodup) {name : String} {form : ValueForm}
    (hform : g.Offers name (some form)) {v : Value} (hv : given.value? name = some v) :
    form.Admits v := by
  obtain ⟨front, rest, hsplit, -⟩ := List.lookup_eq_some_iff.1 (Option.join_eq_some_iff.1 hv)
  have hmem : (name, some v) ∈ given.options := by
    rw [hsplit]
    exact List.mem_append_right _ List.mem_cons_self
  obtain ⟨form', ⟨o', ho', hname', rfl⟩, hadmits⟩ := h.options _ hmem
  obtain ⟨o, ho, hname, hvalue⟩ := hform
  -- The name is that of one option only, so the value was read in the form asked for.
  obtain rfl := List.inj_on_of_nodup_map hnodup ho ho' (hname.trans hname'.symm)
  rw [hvalue] at hadmits
  cases hadmits with
  | some hadmits => exact hadmits

end Arguments

namespace Command

/-- The numbers of a command are of the sizes that are asked for. -/
def Fits : Command → Prop
  | windScale step _ _ => step < 2 ^ 32
  | sinebow _ count _ => count < 2 ^ 64
  | _ => True

end Command

namespace Invocation

open Arguments

/-- The number of an option is of the size of its form, and so is the number without it. -/
theorem natural?_lt {g : Grammar} {given : Given} (h : given.Fits g)
    (hnodup : (g.options.map OptionForm.name).Nodup) {name : String} {form : ValueForm}
    (hform : g.Offers name (some form)) {bound default : ℕ}
    (hbound : ∀ n, form.Admits (.natural n) → n < bound) (hdefault : default < bound) :
    (natural? given name).getD default < bound := by
  -- The number is the default, or was given and then read in its form.
  cases hvalue : natural? given name with
  | none => exact hdefault
  | some n =>
    obtain ⟨v, hv, hn⟩ := Option.bind_eq_some_iff.1 hvalue
    cases v with
    | natural m =>
      obtain rfl := Option.some.inj hn
      exact hbound m (h.admits hnodup hform hv)
    | text s => cases hn
    | double x => cases hn

/-- **Whatever the arguments, the numbers of a command are of the sizes that are asked for.** -/
theorem fits_of_readCommand {name : String} {arguments : List String} {command : Command}
    (h : readCommand name arguments = .ok command) : command.Fits := by
  unfold readCommand at h
  -- One case for every command; only two of them take a count.
  split at h
  · obtain ⟨given, -, h⟩ := exists_of_bind_eq_ok h
    split at h <;> cases h
    trivial
  · obtain ⟨given, -, h⟩ := exists_of_bind_eq_ok h
    cases h
    trivial
  · obtain ⟨given, hgiven, h⟩ := exists_of_bind_eq_ok h
    cases h
    exact natural?_lt (Grammar.fits_of_parse hgiven) (by decide)
      ⟨_, List.mem_cons_self, rfl, rfl⟩ (fun _ hn => hn) (by norm_num)
  · obtain ⟨given, hgiven, h⟩ := exists_of_bind_eq_ok h
    cases h
    exact natural?_lt (Grammar.fits_of_parse hgiven) (by decide)
      ⟨_, List.mem_cons_of_mem _ List.mem_cons_self, rfl, rfl⟩ (fun _ hn => hn) (by norm_num)
  · obtain ⟨given, -, h⟩ := exists_of_bind_eq_ok h
    cases h
    trivial
  · obtain ⟨given, -, h⟩ := exists_of_bind_eq_ok h
    split at h <;> cases h
    trivial
  · split at h <;> cases h
  · cases h

/-- So are those of the command that is carried out. -/
theorem fits_of_ofArguments {environment : Environment} {arguments : List String}
    {invocation : Invocation} (h : ofArguments environment arguments = .ok invocation) :
    invocation.command.Fits := by
  obtain ⟨given, -, h⟩ := exists_of_bind_eq_ok h
  obtain ⟨⟨name, rest⟩, -, h⟩ := exists_of_bind_eq_ok h
  obtain ⟨command, hcommand, h⟩ := exists_of_bind_eq_ok h
  obtain ⟨settled, -, h⟩ := exists_of_bind_eq_ok h
  obtain ⟨file, -, h⟩ := exists_of_bind_eq_ok h
  cases h
  exact fits_of_readCommand hcommand

end Invocation
end GlobeView
