/-
This file proves that everything that is known is true wherever the operations hold that it comes from. A
binding holds if its variable has the value that it says, a bound if the variable lies in it, a mark if
the expression is not negative, and a scope if its condition is true. One such operation leads from a
true state to a true one, and so do all of them, one after the other. Simplification in a true state
keeps the value of an expression.
-/
import IndexAlgebra.Proofs.DrawnEntries
import IndexAlgebra.Proofs.ScopeStack

namespace IndexAlgebra

open IndexAlgebra.Expr Reduction Word

variable {env : Environment} {known next : Knowledge} {cond part expr target : Expr}

/-! ### True facts -/

/-- What the fact says of the values that are read is so, in the form in which it is relied on. -/
def Fact.TrueIn (env : Environment) : Fact → Prop
  | .bound target interval => ∀ number, target.Reads env number → interval.contains number = true
  | .congruence target residues => residues.Regular ∧
    ∀ number, target.Reads env number → residues.contains number = true
  | .truth cond => cond.Regular ∧ cond.evalExact env = some (.bool true)

namespace Knowledge

theorem TrueIn.facts (trueIn : known.TrueIn env) : ∀ fact ∈ known.facts, fact.TrueIn env
  | .bound target bound, member => trueIn.bounds.facts target bound member
  | .congruence target residues, member =>
    ⟨trueIn.classesRegular.facts target residues member,
      trueIn.classes.facts target residues member⟩
  | .truth cond, member => trueIn.truths cond (List.mem_filterMap.mpr ⟨_, member, rfl⟩)

/-- Knowledge is true if the entries, the marks and the facts that it is made of are. -/
theorem trueIn_of_parts (typed : env.Typed)
    (bounds : ∀ name bound, next.bounds.find? name = some bound → (Entry.bound bound).Holds env name)
    (classes : ∀ name residues, next.congruences.find? name = some residues →
      residues.Regular ∧ (Entry.congruence residues).Holds env name)
    (globals : ∀ target bound, (target, bound) ∈ next.globals →
      ∀ number, target.Reads env number → bound.contains number = true)
    (facts : ∀ fact ∈ next.facts, fact.TrueIn env) : next.TrueIn env where
  typed := typed
  bounds := ⟨bounds, globals, fun _ _ => facts _⟩
  classes := ⟨fun name residues found => (classes name residues found).2,
    fun _ _ member => (facts _ member).2⟩
  classesRegular := ⟨fun name residues found => (classes name residues found).1,
    fun _ _ member => (facts _ member).1⟩
  truths cond member := by
    obtain ⟨fact, isFact, equal⟩ := List.mem_filterMap.mp member
    cases fact <;> cases equal
    exact facts _ isFact

theorem TrueIn.entries (trueIn : known.TrueIn env) (name : Variable) (residues : Congruence)
    (found : known.congruences.find? name = some residues) :
    residues.Regular ∧ (Entry.congruence residues).Holds env name :=
  ⟨trueIn.classesRegular.entries name residues found, trueIn.classes.entries name residues found⟩

/-- True knowledge stays true where the facts of scopes are replaced by true ones. -/
theorem TrueIn.withFacts (trueIn : known.TrueIn env) {facts : List Fact} (scopes : List Scope)
    (areTrue : ∀ fact ∈ facts, fact.TrueIn env) : { known with facts, scopes }.TrueIn env :=
  trueIn_of_parts trueIn.typed trueIn.bounds.bounds trueIn.entries trueIn.bounds.globals areTrue

end Knowledge

/-! ### Facts of a true condition -/

theorem Expr.Regular.conjunct (regular : cond.Regular) (member : part ∈ cond.conjuncts) :
    part.Regular :=
  of_mem_conjuncts Expr.Regular
    (fun _ _ _ regular => ⟨regular.child (by simp [children]), regular.child (by simp [children])⟩)
    regular member

theorem Expr.regular_of_asCongruence? (regular : part.Regular) {residues : Congruence}
    (states : part.asCongruence? = some (target, residues)) : residues.Regular := by
  obtain ⟨dtype, lhs, rhs, inner, op, divisorType, divisor, remainder, rfl, -, rfl, sides⟩ :=
    remainder_of_asCongruence? states
  have ofTerm {term : Expr} (isTerm : term = binary inner op target (intConst divisorType divisor))
      (regular : term.Regular) : (Congruence.ofInts divisor remainder).Regular := by
    subst isTerm
    have isConst : (intConst divisorType divisor).Regular := regular.child (by simp [children])
    have typed := isConst.typed
    rw [WellTyped] at typed
    exact Congruence.regular_ofInts (Bound.word_of_fits isConst.notFloat typed.2.2.2) remainder
  rcases sides with ⟨isTerm, -⟩ | ⟨isTerm, -⟩
  · exact ofTerm isTerm (regular.child (by simp [children]))
  · exact ofTerm isTerm (regular.child (by simp [children]))

/-- Every fact that a part of a true condition states is true. -/
theorem Expr.HoldsInside.trueIn (holds : cond.HoldsInside env) (regular : cond.Regular)
    (kinded : env.Kinded) (isPart : part ∈ cond.conjuncts) {fact : Fact}
    (states : fact ∈ Fact.ofConjunct part) : fact.TrueIn env := by
  have isTrue := (holds.typed.isTrue kinded holds.isTrue).conjunct kinded.laned isPart
  have ofFact := Fact.holds_of_mem_ofConjunct kinded.laned isTrue states
  cases fact with
  | bound target bound => exact (holds.liesIn kinded isPart states).contains
  | congruence target residues =>
    have isClass : part.asCongruence? = some (target, residues) := by
      simpa [Fact.ofConjunct] using states
    refine ⟨regular_of_asCongruence? (regular.conjunct isPart) isClass, fun number reads => ?_⟩
    obtain ⟨found, evaluated, contains⟩ := ofFact
    obtain ⟨value, isValue, member⟩ := reads
    cases evaluated.symm.trans isValue
    rw [Value.ints_int, List.mem_singleton] at member
    exact member ▸ contains
  | truth cond =>
    have isPart' : cond = part := by
      have stated := states
      simp only [Fact.ofConjunct, List.mem_append, Option.mem_toList, Option.map_eq_some_iff] at stated
      rcases stated with (⟨_, -, equal⟩ | ⟨_, -, equal⟩) | isTruth
      · cases equal
      · cases equal
      · obtain ⟨-, equal⟩ := Option.ite_none_left_eq_some.mp isTruth
        cases equal
        rfl
    subst isPart'
    exact ⟨regular.conjunct isPart, evalExact_of_eval ofFact⟩

/-! ### One operation -/

namespace Analyzer

variable {analyzer : Analyzer} {name : Variable} {binding : Binding} {bound : Bound}
  {derived : Consequences}

/-- What an operation says is so, and what is drawn from it is drawn from forms that are clear. Nothing is
asked of a binding that changes no more than what it is written as. -/
def Operation.Holds (env : Environment) (analyzer : Analyzer) : Operation → Prop
  | .bind name binding allowOverride =>
    (analyzer.drawn? name binding allowOverride).isSome →
      binding.Holds env name ∧ analyzer.Draws env name binding.drawn
  | .updateBound name bound _ => (Entry.bound bound).Holds env name
  | .markNonNegative expr => ∀ number, expr.Reads env number → 0 ≤ number
  | .enterScope cond? => ∀ cond, cond? = some cond →
    cond.Regular ∧ cond.eval env = some (.bool true) ∧ cond.StaysInside env ∧
      analyzer.Simplifies env (analyzer.known.isolate cond)
  | .exitScope _ | .exitThrough _ => True

/-- What follows from a binding is stored in a true state if it is true. -/
theorem TrueIn.withConsequences (trueIn : analyzer.TrueIn env)
    (holds : ∀ entry, derived.Has entry → entry.Holds env name)
    (regular : ∀ residues, derived.congruence = some residues → residues.Regular)
    (stands : ∀ value, derived.value = some value →
      value.Regular ∧ value.dtype = name.dtype ∧ value.evalExact env = env name) :
    (analyzer.withConsequences name binding derived).TrueIn env := by
  have cases (other : Variable) (entry : Entry)
      (has : (analyzer.withConsequences name binding derived).known.Has other entry) :
      (other = name ∧ derived.Has entry) ∨ analyzer.known.Has other entry := by
    rw [has_withConsequences] at has
    split at has
    next same => exact .inl ⟨same, has⟩
    next => exact .inr has
  refine ⟨Knowledge.trueIn_of_parts trueIn.known.typed (fun other interval has => ?_)
    (fun other residues has => ?_) trueIn.known.bounds.globals trueIn.known.facts,
    fun other value has => ?_⟩
  · rcases cases other (.bound interval) has with ⟨rfl, isDerived⟩ | before
    · exact holds _ isDerived
    · exact trueIn.known.bounds.bounds other interval before
  · rcases cases other (.congruence residues) has with ⟨rfl, isDerived⟩ | before
    · exact ⟨regular residues isDerived, holds _ isDerived⟩
    · exact trueIn.known.entries other residues before
  · rcases cases other (.value value) has with ⟨rfl, isDerived⟩ | before
    · exact stands value isDerived
    · exact trueIn.values other value before

/-- What is known is true whatever the bindings are written as, since they are only read for names. -/
theorem TrueIn.withBinding (trueIn : analyzer.TrueIn env) :
    (analyzer.withBinding name binding).TrueIn env :=
  ⟨Knowledge.trueIn_of_parts trueIn.known.typed trueIn.known.bounds.bounds trueIn.known.entries
    trueIn.known.bounds.globals trueIn.known.facts, trueIn.values⟩

/-- A binding that holds leads from a true state to a true one. -/
theorem TrueIn.bind (trueIn : analyzer.TrueIn env) {allowOverride : Bool} {next : Analyzer}
    (answer : analyzer.bind name binding allowOverride = .ok next)
    (holds : (Operation.bind name binding allowOverride).Holds env analyzer) : next.TrueIn env := by
  rcases bind_cases answer with ⟨derived, drawn, derives, rfl⟩ | ⟨-, rfl | ⟨-, rfl⟩⟩
  · obtain ⟨binds, draws⟩ := holds (by rw [drawn]; rfl)
    exact trueIn.withConsequences (fun _ => draws.holds trueIn binds.drawn derives)
      (fun _ => regular_of_consequences trueIn.known.classesRegular derives)
      (fun _ => draws.stands trueIn binds.drawn derives)
  · exact trueIn
  · exact trueIn.withBinding

theorem TrueIn.withBound (trueIn : analyzer.TrueIn env) (holds : (Entry.bound bound).Holds env name) :
    (analyzer.withBound name bound).TrueIn env := by
  refine ⟨Knowledge.trueIn_of_parts trueIn.known.typed (fun other interval has => ?_)
    trueIn.known.entries trueIn.known.bounds.globals trueIn.known.facts, trueIn.values⟩
  have hasEntry : (analyzer.withBound name bound).known.Has other (.bound interval) := has
  rcases has_withBound hasEntry with ⟨rfl, equal⟩ | before
  · cases equal
    exact holds
  · exact trueIn.known.bounds.bounds other interval before

theorem TrueIn.markNonNegative (trueIn : analyzer.TrueIn env)
    (holds : ∀ number, expr.Reads env number → 0 ≤ number) :
    (analyzer.markNonNegative expr).TrueIn env := by
  unfold Analyzer.markNonNegative
  split
  next => exact trueIn
  next =>
    refine ⟨Knowledge.trueIn_of_parts trueIn.known.typed trueIn.known.bounds.bounds
      trueIn.known.entries (fun target interval member => ?_) trueIn.known.facts, trueIn.values⟩
    rcases List.mem_append.mp member with before | isNew
    · exact trueIn.known.bounds.globals target interval before
    · obtain ⟨rfl, rfl⟩ := Prod.mk.inj (List.mem_singleton.mp isNew)
      exact fun number reads =>
        Bound.contains_iff.mpr ⟨Limit.finite_le_finite.mpr (holds number reads), Limit.le_posInf _⟩

/-- A scope whose condition is true leads from a true state to a true one. -/
theorem TrueIn.enterScope (trueIn : analyzer.TrueIn env) {cond? : Option Expr}
    (holds : (Operation.enterScope cond?).Holds env analyzer) :
    (analyzer.enterScope cond?).2.TrueIn env := by
  refine ⟨trueIn.known.withFacts _ fun fact member => ?_, trueIn.values⟩
  rcases List.mem_append.mp member with before | inScope
  · exact trueIn.known.facts fact before
  cases cond? with
  | none => cases inScope
  | some cond =>
    obtain ⟨regular, isTrue, inside, simplifies⟩ := holds cond rfl
    have isolated : (analyzer.known.isolate cond).HoldsInside env :=
      (⟨regular.typed, isTrue, inside⟩ : cond.HoldsInside env).isolate analyzer.known
    have reduced : (analyzer.reduce (analyzer.known.isolate cond)).HoldsInside env :=
      ⟨simplifies.measured.regular.typed,
        simplifies.eval_reduce trueIn (evalExact_of_eval isolated.isTrue), simplifies.measured.inside⟩
    obtain ⟨part, isPart, states⟩ := List.mem_flatMap.mp inScope
    rw [List.mem_eraseDups, List.mem_filter, List.mem_append] at isPart
    rcases isPart.1 with written | simplified
    · exact isolated.trueIn simplifies.regular trueIn.known.typed.kinded written states
    · exact reduced.trueIn simplifies.measured.regular trueIn.known.typed.kinded simplified states

theorem TrueIn.exitThrough (trueIn : analyzer.TrueIn env) (token : Nat) :
    (analyzer.exitThrough token).TrueIn env := by
  unfold Analyzer.exitThrough Knowledge.leaveScope
  split
  next => exact trueIn
  next =>
    exact ⟨trueIn.known.withFacts _ fun fact member =>
      trueIn.known.facts fact (List.mem_of_mem_take member), trueIn.values⟩

/-- An operation that holds leads from a true state to a true one. One that is refused changes nothing. -/
theorem TrueIn.after (trueIn : analyzer.TrueIn env) {operation : Operation}
    (holds : (∃ next, analyzer.attempt operation = .ok next) → operation.Holds env analyzer) :
    (analyzer.after operation).TrueIn env := by
  unfold Analyzer.after
  cases answer : analyzer.attempt operation with
  | error fault => exact trueIn
  | ok next =>
    have holds := holds ⟨next, answer⟩
    dsimp only
    cases operation with
    | bind name binding allowOverride => exact trueIn.bind answer holds
    | updateBound name bound allowOverride =>
      rw [updateBound_eq_ok answer]
      exact trueIn.withBound holds
    | markNonNegative expr =>
      cases answer
      exact trueIn.markNonNegative holds
    | enterScope cond? =>
      cases answer
      exact trueIn.enterScope holds
    | exitScope token =>
      rw [exitThrough_of_exitScope answer]
      exact trueIn.exitThrough token
    | exitThrough token =>
      cases answer
      exact trueIn.exitThrough token

/-! ### All operations -/

/-- Every operation that is accepted holds in the state that it is called in. -/
def AllHold (env : Environment) : Analyzer → List Operation → Prop
  | _, [] => True
  | analyzer, operation :: later =>
    ((∃ next, analyzer.attempt operation = .ok next) → operation.Holds env analyzer) ∧
      AllHold env (analyzer.after operation) later

theorem trueIn_start (typed : env.Typed) (limits : Limits) : ({ limits } : Analyzer).TrueIn env :=
  ⟨Knowledge.trueIn_of_parts typed (fun _ _ found => by cases found) (fun _ _ found => by cases found)
    (fun _ _ member => by cases member) (fun _ member => by cases member),
    fun _ _ found => by cases found⟩

/-- Operations that hold lead from a true state to a true one. -/
theorem TrueIn.afterAll (trueIn : analyzer.TrueIn env) {operations : List Operation}
    (hold : AllHold env analyzer operations) : (analyzer.afterAll operations).TrueIn env := by
  induction operations generalizing analyzer with
  | nil => exact trueIn
  | cons operation later inductionHypothesis =>
    exact inductionHypothesis (trueIn.after hold.1) hold.2

end Analyzer

end IndexAlgebra
