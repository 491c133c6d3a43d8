/-
This file proves that bounds which some assignment satisfies leave no bound empty. Whatever is recorded
about an expression has a value in the assignment, and the bound that is inferred contains that value.
Only the variables with known names count for this, so the bindings around the expression do not matter.
Entering a scope keeps an assignment in which the condition and its simplified form are true.
-/
import IndexAlgebra.Proofs.ImpliedFacts
import IndexAlgebra.Proofs.Narrowing
import IndexAlgebra.Proofs.Scopes

namespace IndexAlgebra

open Word

/-! ### Assignments -/

/-- Every integer that is computed on the way to the value of the expression is strictly between the ends
that stand for the infinities. -/
def Expr.StaysInside (env : Environment) (expr : Expr) : Prop :=
  ∀ value, expr.Computes env value → ∀ number ∈ value.ints, Inside number

/-- The expression has a value, and the integers on the way to it stay inside the ends. -/
structure Expr.SettlesInside (env : Environment) (expr : Expr) : Prop where
  evaluated : ∃ value, expr.eval env = some value
  inside : expr.StaysInside env

/-- The expression has a value with every integer in the bound. -/
structure Expr.LiesIn (env : Environment) (expr : Expr) (bound : Bound) : Prop where
  settles : expr.SettlesInside env
  contains : ∀ number, expr.Reads env number → bound.contains number = true

/-- The assignment satisfies everything that is recorded about bounds. -/
structure Knowledge.SatisfiedBy (known : Knowledge) (env : Environment) : Prop where
  typed : env.Typed
  bounds : ∀ name bound, known.bounds.find? name = some bound → name.expr.LiesIn env bound
  globals : ∀ target bound, (target, bound) ∈ known.globals → target.LiesIn env bound
  facts : ∀ target bound, .bound target bound ∈ known.facts → target.LiesIn env bound

section

variable {env : Environment} {expr : Expr} {result : Value}

/-- A node whose operands are all evaluated stays inside if they do and its value does. -/
theorem Expr.staysInside_of_children (strict : expr.isStrict = true)
    (isResult : expr.eval env = some result) (inside : ∀ number ∈ result.ints, Inside number)
    (operands : ∀ child ∈ expr.children, child.StaysInside env) : expr.StaysInside env := by
  intro value computed
  rcases (computes_iff strict).mp computed with isValue | ⟨child, isChild, computed⟩
  · cases isResult.symm.trans isValue
    exact inside
  · exact operands child isChild value computed

theorem Expr.staysInside_letIn {dtype : DataType} {name : Variable} {value body : Expr} {first : Value}
    (isFirst : value.eval env = some first) (ofValue : value.StaysInside env)
    (ofBody : body.StaysInside (env.set name first)) :
    (Expr.letIn dtype name value body).StaysInside env := by
  intro other computed
  cases computed with
  | result isResult =>
    obtain ⟨_, isValue, isBody⟩ := evaluate_letIn_eq_some.mp isResult
    cases isFirst.symm.trans isValue
    exact ofBody other (.result isBody)
  | child strict => contradiction
  | letValue computed => exact ofValue other computed
  | letBody isValue computed =>
    cases isFirst.symm.trans isValue
    exact ofBody other computed

end

/-- A typed value without floating-point lanes has an integer. -/
theorem Expr.exists_reads {env : Environment} {expr : Expr} {value : Value} (typed : expr.WellTyped)
    (notFloat : expr.dtype.isFloat = false) (kinded : env.Kinded)
    (isValue : expr.eval env = some value) : ∃ number, expr.Reads env number := by
  obtain ⟨lanes, rfl, length, ofKind⟩ := evaluate_kinded typed kinded isValue
  have some : 1 ≤ lanes.length := length ▸ typed.valid.2.2.1
  obtain ⟨lane, member⟩ := List.exists_mem_of_length_pos some
  obtain ⟨number, inLane⟩ : ∃ number, number ∈ lane.ints := by
    have ofKind := ofKind lane member
    cases lane with
    | int number => exact ⟨number, by simp⟩
    | bool truth => exact ⟨truth.toNat, by simp⟩
    | float number => exact absurd (notFloat.symm.trans ofKind) Bool.false_ne_true
    | vector lanes => exact ofKind.elim
  exact ⟨number, _, isValue, Value.mem_ints_ofLanes.mpr ⟨lane, member, inLane⟩⟩

namespace Knowledge

variable {known : Knowledge} {env : Environment} {expr : Expr} {bound : Bound}

theorem SatisfiedBy.holds (satisfied : known.SatisfiedBy env) : known.BoundsHold env :=
  ⟨fun name bound found value isValue number member =>
      (satisfied.bounds name bound found).contains number ⟨value, isValue, member⟩,
    fun target bound isGlobal => (satisfied.globals target bound isGlobal).contains,
    fun target bound isFact => (satisfied.facts target bound isFact).contains⟩

/-! ### What is recorded -/

/-- Where a recorded bound comes from. -/
theorem cases_of_mem_recordedBounds (member : bound ∈ known.recordedBounds expr) :
    (∃ dtype name, expr = .var dtype name ∧ known.bounds.find? name = some bound) ∨
      (expr, bound) ∈ known.globals ∨ .bound expr bound ∈ known.facts := by
  simp only [recordedBounds, List.mem_append, List.mem_filterMap] at member
  rcases member with (isEntry | ⟨⟨target, other⟩, isGlobal, equal⟩) | ⟨fact, isFact, equal⟩
  · rw [entries, Option.mem_toList] at isEntry
    obtain ⟨name, isName, found⟩ := Option.bind_eq_some_iff.mp isEntry
    cases expr <;> cases isName
    exact .inl ⟨_, _, rfl, found⟩
  · rw [Option.ite_none_right_eq_some, Option.some.injEq] at equal
    obtain ⟨rfl, rfl⟩ := equal
    exact .inr (.inl isGlobal)
  · cases fact with
    | bound target other =>
      rw [Option.ite_none_right_eq_some, Option.some.injEq] at equal
      obtain ⟨rfl, rfl⟩ := equal
      exact .inr (.inr isFact)
    | congruence | truth => contradiction

/-- The free variables of an expression that something is recorded about have known names. -/
theorem name_mem_names_of_recorded (member : bound ∈ known.recordedBounds expr) {name : Variable}
    (free : name ∈ expr.freeOccurrences) : name.name ∈ known.names := by
  rcases cases_of_mem_recordedBounds member with ⟨dtype, other, rfl, found⟩ | isGlobal | isFact
  · rw [List.mem_singleton.mp free]
    exact name_mem_names_of_bounds found
  · exact name_mem_names_of_target (.inl (List.mem_map_of_mem isGlobal)) free
  · exact name_mem_names_of_target (.inr (List.mem_map_of_mem isFact)) free

theorem SatisfiedBy.settles (satisfied : known.SatisfiedBy env) (typed : expr.WellTyped)
    (member : bound ∈ known.recordedBounds expr) : expr.SettlesInside env := by
  rcases cases_of_mem_recordedBounds member with ⟨dtype, name, rfl, found⟩ | isGlobal | isFact
  · rw [Expr.WellTyped] at typed
    rw [typed.1]
    exact (satisfied.bounds name bound found).settles
  · exact (satisfied.globals expr bound isGlobal).settles
  · exact (satisfied.facts expr bound isFact).settles

/-! ### Known variables -/

/-- The values of the variables with known names. -/
def visible (known : Knowledge) (env : Environment) : Environment :=
  fun name => if name.name ∈ known.names then env name else none

theorem visible_of_mem {name : Variable} (isKnown : name.name ∈ known.names) :
    known.visible env name = env name := if_pos isKnown

theorem eval_visible (named : ∀ name ∈ expr.freeOccurrences, name.name ∈ known.names) :
    expr.eval (known.visible env) = expr.eval env :=
  Expr.evaluate_congr fun name free => visible_of_mem (named name free)

theorem SatisfiedBy.holds_visible (satisfied : known.SatisfiedBy env) :
    known.BoundsHold (known.visible env) := by
  have sameValue : ∀ target, target ∈ known.globals.map Prod.fst ∨
      target ∈ known.facts.map Fact.target → target.eval (known.visible env) = target.eval env :=
    fun _ isTarget => eval_visible fun name => name_mem_names_of_target isTarget
  refine ⟨fun name bound found value isValue => ?_, ?_, ?_⟩
  · exact satisfied.holds.bounds name bound found value (Option.ite_none_right_eq_some.mp isValue).2
  · rintro target bound isGlobal number ⟨value, isValue, member⟩
    rw [sameValue target (.inl (List.mem_map_of_mem isGlobal))] at isValue
    exact satisfied.holds.globals target bound isGlobal number ⟨value, isValue, member⟩
  · rintro target bound isFact number ⟨value, isValue, member⟩
    rw [sameValue target (.inr (List.mem_map_of_mem isFact))] at isValue
    exact satisfied.holds.facts target bound isFact number ⟨value, isValue, member⟩

theorem SatisfiedBy.covers_visible (satisfied : known.SatisfiedBy env) {locals : Table Bound}
    (hides : known.Hides locals) : known.Covers (known.visible env) locals := by
  have typed : (known.visible env).Typed := fun name value isValue =>
    satisfied.typed name value (Option.ite_none_right_eq_some.mp isValue).2
  have covers := covers_nil typed satisfied.holds_visible
  refine ⟨covers.kinded, fun name value isValue number member inside => ?_, covers.holds⟩
  rw [hides name (Option.ite_none_right_eq_some.mp isValue).1]
  exact covers.bounded name value isValue number member inside

/-- Knowledge that an assignment satisfies leaves no bound empty about which something is recorded. -/
theorem SatisfiedBy.consistent (satisfied : known.SatisfiedBy env) : known.Consistent := by
  intro expr locals isolates hides recorded
  obtain ⟨bound, member⟩ := List.exists_mem_of_ne_nil _ recorded
  have named : ∀ name ∈ expr.freeOccurrences, name.name ∈ known.names :=
    fun name => name_mem_names_of_recorded member
  have integral : expr.Integral := isolates.integral expr expr.self_mem_postOrder recorded
  have notFloat : expr.dtype.isFloat = false := (Expr.integral_iff.mp integral).1
  have settles := satisfied.settles isolates.typed member
  obtain ⟨value, isValue⟩ := settles.evaluated
  obtain ⟨number, result, isResult, inResult⟩ :=
    Expr.exists_reads isolates.typed notFloat satisfied.typed.kinded isValue
  have same : expr.eval (known.visible env) = expr.eval env := eval_visible named
  rw [← same] at isResult
  have admits : known.Admits (known.visible env) expr := by
    refine ⟨isolates.typed, integral, isolates.apart, fun value computed => ?_⟩
    have related : Expr.Renamed id expr expr := .refl expr fun _ _ => rfl
    exact settles.inside value
      (related.computes (fun name free => visible_of_mem (named name free)) computed)
  exact Bound.ordered_of_contains
    (boundSound known expr (satisfied.covers_visible hides) admits ⟨result, isResult, inResult⟩)

end Knowledge

/-! ### True conditions -/

/-- The condition is true, and the integers that are computed for it stay inside the ends. -/
structure Expr.HoldsInside (env : Environment) (cond : Expr) : Prop where
  typed : cond.WellTyped
  isTrue : cond.eval env = some (.bool true)
  inside : cond.StaysInside env

section

variable {env : Environment} {cond part target : Expr} {bound : Bound}

/-- A condition that is renamed apart is as true as before. -/
theorem Expr.HoldsInside.isolate (holds : cond.HoldsInside env) (known : Knowledge) :
    (known.isolate cond).HoldsInside env := by
  have related := known.isolate_renamed holds.typed.namesTyped
  refine ⟨related.wellTyped (fun _ _ => rfl) holds.typed, ?_, fun value computed => ?_⟩
  · exact (related.evaluate_eq fun _ _ => rfl).trans holds.isTrue
  · exact holds.inside value (related.computes (fun _ _ => rfl) computed)

/-- A condition computes what its parts compute. -/
theorem Expr.computes_of_conjunct (member : part ∈ cond.conjuncts) {value : Value}
    (computed : part.Computes env value) : cond.Computes env value := by
  refine of_mem_conjuncts (fun part => ∀ value, part.Computes env value → cond.Computes env value)
    (fun dtype lhs rhs whole => ?_) (fun _ computed => computed) member value computed
  exact ⟨fun value computed => whole value (.child rfl (by simp [children]) computed),
    fun value computed => whole value (.child rfl (by simp [children]) computed)⟩

/-- A comparison with a constant computes what the other operand computes. -/
theorem Reduction.Conditions.computes_of_asRange? (isRange : asRange? cond = some (target, bound))
    {value : Value} (computed : target.Computes env value) : cond.Computes env value := by
  obtain ⟨dtype, op, lhs, rhs, flipped, constant, rfl, -, -, -, -, -, sides⟩ :=
    comparison_of_asRange? isRange
  rcases sides with ⟨rfl, -⟩ | ⟨rfl, -⟩
  · exact .child rfl (by simp [Expr.children]) computed
  · exact .child rfl (by simp [Expr.children]) computed

/-- The expression that a part of a true condition bounds lies in the bound. -/
theorem Expr.HoldsInside.liesIn (holds : cond.HoldsInside env) (kinded : env.Kinded)
    (isPart : part ∈ cond.conjuncts) (states : .bound target bound ∈ Fact.ofConjunct part) :
    target.LiesIn env bound := by
  have isTrue := (holds.typed.isTrue kinded holds.isTrue).conjunct kinded.laned isPart
  have isRange : Reduction.Conditions.asRange? part = some (target, bound) := by
    simpa [Fact.ofConjunct] using states
  have inside : target.StaysInside env :=
    fun value computed => holds.inside value
      (computes_of_conjunct isPart (Reduction.Conditions.computes_of_asRange? isRange computed))
  obtain ⟨number, isNumber, contains⟩ := isTrue.holds_bound kinded.laned isRange
  refine ⟨⟨⟨_, isNumber⟩, inside⟩, ?_⟩
  rintro other ⟨value, isValue, member⟩
  cases isNumber.symm.trans isValue
  rw [Value.ints_int, List.mem_singleton] at member
  subst member
  exact contains (inside _ (.result isNumber) other (by simp))

end

/-- An assignment that satisfies what is known outside, and in which the condition and its simplified
form are true, satisfies what is known in the scope of the condition. -/
theorem Analyzer.satisfiedBy_enterScope {analyzer : Analyzer} {env : Environment} {cond : Expr}
    (satisfied : analyzer.known.SatisfiedBy env) (holds : cond.HoldsInside env)
    (reduced : (analyzer.reduce (analyzer.known.isolate cond)).HoldsInside env) :
    (analyzer.enterScope (some cond)).2.known.SatisfiedBy env := by
  refine ⟨satisfied.typed, satisfied.bounds, satisfied.globals, fun target bound member => ?_⟩
  rcases List.mem_append.mp member with before | inScope
  · exact satisfied.facts target bound before
  · obtain ⟨part, isPart, states⟩ := List.mem_flatMap.mp inScope
    rw [List.mem_eraseDups, List.mem_filter, List.mem_append] at isPart
    rcases isPart.1 with written | simplified
    · exact (holds.isolate analyzer.known).liesIn satisfied.typed.kinded written states
    · exact reduced.liesIn satisfied.typed.kinded simplified states

end IndexAlgebra
