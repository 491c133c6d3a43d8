/-
This file proves when the facts derived from bindings hold. A binding is stored together with the
bound, the class, the value and the range that follow from it and from what was known at that
moment. These entries are not drawn again when something they were drawn from is replaced later.
They hold if every binding that still counts could have been drawn from entries that either stand
until the end or hold anyway: what is drawn from true entries is true, since simplification keeps values
and the analyses of bounds and classes are right.
-/
import IndexAlgebra.Proofs.TrueStates

namespace IndexAlgebra

open Reduction Word

/-! ### Runs -/

/-- A call that tells the analyzer about a variable. -/
inductive Assumption where
  | bind (name : Variable) (binding : Binding) (allowOverride : Bool)
  | bound (name : Variable) (bound : Bound) (allowOverride : Bool)

namespace Analyzer

/-- The answer of a call. -/
def answer (analyzer : Analyzer) : Assumption → Except Fault Analyzer
  | .bind name binding allowOverride => analyzer.bind name binding allowOverride
  | .bound name bound allowOverride => analyzer.updateBound name bound allowOverride

/-- The state after a call. A call that is refused leaves everything as it was. -/
def assume (analyzer : Analyzer) (assumption : Assumption) : Analyzer :=
  match analyzer.answer assumption with
  | .ok next => next
  | .error _ => analyzer

/-- The state after some calls. -/
def assumeAll (analyzer : Analyzer) (assumptions : List Assumption) : Analyzer :=
  assumptions.foldl assume analyzer

/-- The call replaces the entry that the variable has in place of this one, be it by the same. A
binding that changes no more than what it is written as leaves the entries. -/
def Replaces (analyzer : Analyzer) (assumption : Assumption) (name : Variable) (entry : Entry) :
    Prop :=
  (∃ next, analyzer.answer assumption = .ok next) ∧
    match assumption with
    | .bind subject binding allowOverride =>
      subject = name ∧ (analyzer.drawn? subject binding allowOverride).isSome
    | .bound subject _ _ => subject = name ∧ ∃ interval, entry = .bound interval

/-- None of the calls replaces the entry. -/
def Keeps (name : Variable) (entry : Entry) : Analyzer → List Assumption → Prop
  | _, [] => True
  | analyzer, first :: later =>
    ¬analyzer.Replaces first name entry ∧ Keeps name entry (analyzer.assume first) later

end Analyzer

/-! ### What one call does -/

namespace Analyzer

theorem assume_of_ok {analyzer next : Analyzer} {assumption : Assumption}
    (accepted : analyzer.answer assumption = .ok next) : analyzer.assume assumption = next := by
  rw [assume, accepted]

theorem assume_of_error {analyzer : Analyzer} {assumption : Assumption} {fault : Fault}
    (refused : analyzer.answer assumption = .error fault) :
    analyzer.assume assumption = analyzer := by
  rw [assume, refused]

/-- An entry that a call does not replace was there before. -/
theorem has_of_not_replaces {analyzer : Analyzer} {assumption : Assumption} {name : Variable}
    {entry : Entry} (has : (analyzer.assume assumption).known.Has name entry)
    (kept : ¬analyzer.Replaces assumption name entry) : analyzer.known.Has name entry := by
  cases answered : analyzer.answer assumption with
  | error fault => rwa [assume_of_error answered] at has
  | ok next =>
    rw [assume_of_ok answered] at has
    cases assumption with
    | bind subject binding allowOverride =>
      rcases bind_cases answered with ⟨derived, draws, -, rfl⟩ | ⟨-, rfl | ⟨-, rfl⟩⟩
      · rw [has_withConsequences] at has
        split at has
        next same => exact absurd ⟨⟨_, answered⟩, same.symm, by simp [draws]⟩ kept
        next => exact has
      · exact has
      · cases entry <;> exact has
    | bound subject interval allowOverride =>
      rw [updateBound_eq_ok answered] at has
      rcases has_withBound has with ⟨same, isBound⟩ | had
      · exact absurd ⟨⟨_, answered⟩, same.symm, interval, isBound⟩ kept
      · exact had

/-- An entry that a call replaces follows from its binding, or is its bound. -/
theorem cases_of_replaces {analyzer : Analyzer} {assumption : Assumption} {name : Variable}
    {entry : Entry} (has : (analyzer.assume assumption).known.Has name entry)
    (replaced : analyzer.Replaces assumption name entry) :
    (∃ binding allowOverride derived, assumption = .bind name binding allowOverride ∧
      analyzer.drawn? name binding allowOverride = some binding.drawn ∧
      analyzer.consequences binding.drawn = .ok derived ∧ derived.Has entry ∧
      (analyzer.assume assumption).known.bindings.find? name = some binding) ∨
    ∃ interval allowOverride, assumption = .bound name interval allowOverride ∧
      entry = .bound interval := by
  obtain ⟨⟨next, answered⟩, replaced⟩ := replaced
  rw [assume_of_ok answered] at has
  cases assumption with
  | bind subject binding allowOverride =>
    obtain ⟨rfl, draws⟩ := replaced
    rcases bind_cases answered with ⟨derived, drawn, isDerived, rfl⟩ | ⟨drawn, -⟩
    · rw [has_withConsequences, if_pos rfl] at has
      refine Or.inl ⟨binding, allowOverride, derived, rfl, drawn, isDerived, has, ?_⟩
      rw [assume_of_ok answered]
      simp [withConsequences, withBinding, Table.find?_insert]
    · simp [drawn] at draws
  | bound subject interval allowOverride =>
    obtain ⟨rfl, other, rfl⟩ := replaced
    rw [updateBound_eq_ok answered] at has
    have stored : some interval = some other := by
      simpa [Knowledge.Has, withBound, Table.find?_insert] using has
    exact Or.inr ⟨interval, allowOverride, rfl, by rw [Option.some.inj stored]⟩

/-- A call that replaces no entry of a bound variable leaves what was drawn. -/
theorem drawn_of_not_replaces {analyzer : Analyzer} {assumption : Assumption} {name : Variable}
    {entry : Entry} {binding : Binding} (found : analyzer.known.bindings.find? name = some binding)
    (kept : ¬analyzer.Replaces assumption name entry) :
    ∃ other, (analyzer.assume assumption).known.bindings.find? name = some other ∧
      other.drawn = binding.drawn := by
  cases answered : analyzer.answer assumption with
  | error fault => exact ⟨binding, by rwa [assume_of_error answered], rfl⟩
  | ok next =>
    rw [assume_of_ok answered]
    cases assumption with
    | bound subject interval allowOverride =>
      rw [updateBound_eq_ok answered]
      exact ⟨binding, found, rfl⟩
    | bind subject written allowOverride =>
      by_cases same : subject = name
      · subst same
        rcases bind_cases answered with ⟨derived, draws, -, -⟩ | ⟨-, rfl | ⟨already, rfl⟩⟩
        · exact absurd ⟨⟨_, answered⟩, rfl, by simp [draws]⟩ kept
        · exact ⟨binding, found, rfl⟩
        · have isDrawn : binding = written.drawn := Option.some.inj (found.symm.trans already)
          refine ⟨written, by simp [withBinding, Table.find?_insert], ?_⟩
          rw [isDrawn, Binding.drawn_drawn]
      · have other : name ≠ subject := Ne.symm same
        rcases bind_cases answered with ⟨derived, -, -, rfl⟩ | ⟨-, rfl | ⟨-, rfl⟩⟩
        · exact ⟨binding, by simpa [withConsequences, withBinding, Table.find?_insert, other], rfl⟩
        · exact ⟨binding, found, rfl⟩
        · exact ⟨binding, by simpa [withBinding, Table.find?_insert, other], rfl⟩

/-- While an entry of a bound variable is kept, the variable stays bound to what was drawn. -/
theorem drawn_of_keeps {name : Variable} {entry : Entry} {analyzer : Analyzer}
    {later : List Assumption} {binding : Binding}
    (found : analyzer.known.bindings.find? name = some binding)
    (keeps : Keeps name entry analyzer later) :
    ∃ other, (analyzer.assumeAll later).known.bindings.find? name = some other ∧
      other.drawn = binding.drawn := by
  induction later generalizing analyzer binding with
  | nil => exact ⟨binding, found, rfl⟩
  | cons first later inductionHypothesis =>
    obtain ⟨kept, keeps⟩ := keeps
    obtain ⟨second, isSecond, sameDrawn⟩ := drawn_of_not_replaces found kept
    obtain ⟨last, isLast, lastDrawn⟩ := inductionHypothesis isSecond keeps
    exact ⟨last, isLast, lastDrawn.trans sameDrawn⟩

end Analyzer

/-! ### Assumptions that still count -/

/-- The values of the variables satisfy every binding of the state a run ends in, and every bound
that a call of the run gave and no later call replaced. -/
structure Analyzer.Satisfied (env : Environment) (start : Analyzer)
    (assumptions : List Assumption) : Prop where
  bindings : ∀ name binding,
    (start.assumeAll assumptions).known.bindings.find? name = some binding →
    binding.Holds env name
  bounds : ∀ earlier later name bound allowOverride,
    assumptions = earlier ++ .bound name bound allowOverride :: later →
    let before := start.assumeAll earlier
    let assumption := Assumption.bound name bound allowOverride
    before.Replaces assumption name (.bound bound) →
    Analyzer.Keeps name (.bound bound) (before.assume assumption) later →
    (Entry.bound bound).Holds env name

/-! ### What bindings are drawn from -/

namespace Analyzer

/-- What stands for a variable is a regular expression of its type, the variable has a value, and the
classes are regular. -/
structure Orderly (env : Environment) (analyzer : Analyzer) : Prop where
  values : ∀ name value, analyzer.known.values.find? name = some value →
    value.Regular ∧ value.dtype = name.dtype ∧ ∃ found, env name = some found
  classes : analyzer.known.ClassesRegular

/-- A state is true if it is made of entries that hold. -/
theorem Orderly.trueIn {env : Environment} {analyzer : Analyzer} (orderly : analyzer.Orderly env)
    (typed : env.Typed) (noGlobals : analyzer.known.globals = []) (noFacts : analyzer.known.facts = [])
    (holds : ∀ name entry, analyzer.known.Has name entry → entry.Holds env name) :
    analyzer.TrueIn env := by
  refine ⟨Knowledge.trueIn_of_parts typed (fun name bound => holds name (.bound bound))
    (fun name residues has =>
      ⟨orderly.classes.entries name residues has, holds name (.congruence residues) has⟩)
    (by simp [noGlobals]) (by simp [noFacts]), fun name value has => ?_⟩
  obtain ⟨regular, isType, found, isFound⟩ := orderly.values name value has
  exact ⟨regular, isType,
    (Expr.evalExact_of_eval (holds name (.value value) has found isFound)).trans isFound.symm⟩

/-- What a call draws from the binding of a variable could be drawn from entries alone that are kept by
this call and the later ones, or hold without them. -/
def Grounded (env : Environment) (analyzer : Analyzer) (name : Variable) (binding : Binding)
    (laterOrNow : List Assumption) : Prop :=
  ∃ grounds : Analyzer, grounds.known.globals = [] ∧ grounds.known.facts = [] ∧
    grounds.Orderly env ∧ grounds.consequences binding = analyzer.consequences binding ∧
    (∀ name entry, grounds.known.Has name entry → entry.Holds env name ∨
      analyzer.known.Has name entry ∧ Keeps name entry analyzer laterOrNow) ∧
    (grounds.TrueIn env → grounds.Draws env name binding)

variable {env : Environment} {start : Analyzer} {assumptions : List Assumption}

/-- One call preserves that the entries hold which the later calls keep. -/
theorem Satisfied.holds_assume (envTyped : env.Typed) (satisfied : Satisfied env start assumptions)
    {earlier later : List Assumption} {assumption : Assumption}
    (run : assumptions = earlier ++ assumption :: later)
    (grounded : ∀ name binding allowOverride entry,
      assumption = .bind name binding allowOverride →
      (start.assumeAll earlier).Replaces assumption name entry →
      Keeps name entry ((start.assumeAll earlier).assume assumption) later →
      (start.assumeAll earlier).Grounded env name binding.drawn (assumption :: later))
    (holds : ∀ name entry, (start.assumeAll earlier).known.Has name entry →
      Keeps name entry (start.assumeAll earlier) (assumption :: later) → entry.Holds env name)
    {name : Variable} {entry : Entry}
    (has : ((start.assumeAll earlier).assume assumption).known.Has name entry)
    (keeps : Keeps name entry ((start.assumeAll earlier).assume assumption) later) :
    entry.Holds env name := by
  by_cases replaced : (start.assumeAll earlier).Replaces assumption name entry
  · rcases cases_of_replaces has replaced with
      ⟨binding, allowOverride, derived, rfl, -, draws, isDerived, bound⟩ |
      ⟨interval, allowOverride, rfl, rfl⟩
    · obtain ⟨grounds, noGlobals, noFacts, orderly, same, entries, drawn⟩ :=
        grounded name binding allowOverride entry rfl replaced keeps
      have trueIn : grounds.TrueIn env := by
        refine orderly.trueIn envTyped noGlobals noFacts ?_
        intro other otherEntry hasOther
        rcases entries other otherEntry hasOther with already | ⟨had, kept⟩
        · exact already
        · exact holds other otherEntry had kept
      obtain ⟨last, isLast, sameDrawn⟩ := drawn_of_keeps bound keeps
      have ends : (start.assumeAll assumptions).known.bindings.find? name = some last := by
        rw [run, assumeAll, List.foldl_append]
        exact isLast
      have binds : binding.drawn.Holds env name := by
        rw [← sameDrawn]
        exact (satisfied.bindings name last ends).drawn
      exact (drawn trueIn).holds trueIn binds (same.trans draws) isDerived
    · exact satisfied.bounds earlier later name interval allowOverride run replaced keeps
  · exact holds name entry (has_of_not_replaces has replaced) ⟨replaced, keeps⟩

end Analyzer

end IndexAlgebra
