/-
This file says when everything that is known is true in an environment, and what may be relied on then.
The bound and the class of an expression are found for the values that it has where everything it
computes fits its type and lies strictly between the ends that stand for the infinities. The exact value
of an expression that does not compute within these may be any other. What is found for an expression is
therefore relied on where its exact value is computed within them, and a condition is taken for a range
where the range tells it.
-/
import IndexAlgebra.Proofs.Exact.Truths
import IndexAlgebra.Proofs.InferredCongruence
import IndexAlgebra.Proofs.Satisfaction

namespace IndexAlgebra

open IndexAlgebra.Expr Word

variable {known : Knowledge} {env inner : Environment} {expr cond : Expr}

/-! ### Measured expressions -/

/-- The exact value of the expression is the value that it has, and the integers on the way to it stay
inside the ends that stand for the infinities. -/
structure Expr.Measured (env : Environment) (expr : Expr) : Prop where
  regular : expr.Regular
  checked : ∀ value, expr.evalExact env = some value → expr.eval env = some value
  inside : expr.StaysInside env

/-- An integer in the exact value of a measured expression is one that it reads. -/
theorem Expr.Measured.reads (measured : expr.Measured env) {index : Nat} {number : Int}
    (isNumber : expr.valueIn .unbounded env index = some number) : expr.Reads env number := by
  obtain ⟨value, evaluated, lane, isLane, isInt⟩ := valueIn_eq_some.mp isNumber
  have isChecked : expr.valueIn .checked env index = some number :=
    valueIn_eq_some.mpr ⟨value, measured.checked value evaluated, lane, isLane, isInt⟩
  exact reads_of_valueAt isChecked

/-- A leaf with a value is measured if the integers of the value are inside the ends. -/
theorem Expr.Measured.of_leaf (regular : expr.Regular) (strict : expr.isStrict = true)
    (leaf : expr.children = []) {value : Value} (isExact : expr.evalExact env = some value)
    (isValue : expr.eval env = some value) (inside : ∀ number ∈ value.ints, Inside number) :
    expr.Measured env where
  regular := regular
  checked other isOther := Option.some.inj (isOther.symm.trans isExact) ▸ isValue
  inside := staysInside_of_children strict isValue inside fun child isChild => by
    rw [leaf] at isChild
    cases isChild

/-- The class of the expression is made right: of the operations on classes and of the bounds that it is
made with. -/
def Knowledge.Classes (known : Knowledge) (env : Environment) (expr : Expr) : Prop :=
  ∀ inner locals part, known.Consults env [] (known.isolate expr) inner locals part →
    known.SoundAt inner locals part

/-- The class of a constant or a variable is made of nothing else. -/
theorem Knowledge.soundAt_of_leaf (leaf : expr.isConst = true ∨ ∃ name : Variable, expr = name.expr)
    {locals : Table Congruence} {part : Expr}
    (consults : known.Consults env [] expr inner locals part) : known.SoundAt inner locals part := by
  have none : known.consulted [] expr = [] ∧ known.operations [] expr = [] ∧
      known.bounded [] expr = [] := by
    rcases leaf with isConst | ⟨name, rfl⟩
    · cases expr <;> first | exact ⟨rfl, rfl, rfl⟩ | cases isConst
    · exact ⟨rfl, rfl, rfl⟩
  cases consults with
  | self =>
    refine ⟨fun op left right member => ?_, fun operand member => ?_⟩
    · rw [none.2.1] at member
      cases member
    · rw [none.2.2] at member
      cases member
  | operand _ isOperand =>
    rw [none.1] at isOperand
    cases isOperand
  | letValue | letBody | taken | refused =>
    rcases leaf with isConst | ⟨name, equal⟩
    · cases isConst
    · cases equal

theorem Knowledge.classes_of_leaf (leaf : expr.isConst = true ∨ ∃ name : Variable, expr = name.expr) :
    known.Classes env expr := by
  have noLet : expr.hasLet = false := by
    rcases leaf with isConst | ⟨name, rfl⟩
    · cases expr <;> first | rfl | cases isConst
    · rfl
  intro inner locals part consults
  rw [known.isolate_of_hasLet noLet] at consults
  exact soundAt_of_leaf leaf consults

open Classical in
/-- What is known of the expressions that are measured and of the conditions that are told by a range. -/
noncomputable def Knowledge.measured (known : Knowledge) (env : Environment) : Evidence where
  bound expr := if expr.Measured env then known.inferBound expr else .everything
  congruence expr :=
    if expr.Measured env ∧ known.Classes env expr then known.inferCongruence expr else .everything
  range cond :=
    if cond.WellTyped ∧ Reduction.Conditions.ReadsAsRange .unbounded env cond then
      Reduction.Conditions.asRange? cond
    else none
  truths := known.truths

namespace Knowledge

/-! ### True knowledge -/

/-- Everything that is known is true in the environment. -/
structure TrueIn (known : Knowledge) (env : Environment) : Prop where
  typed : env.Typed
  bounds : known.BoundsHold env
  classes : known.ClassesHold env
  classesRegular : known.ClassesRegular
  truths : ∀ cond ∈ known.truths, cond.Regular ∧ cond.evalExact env = some (.bool true)

/-- What is found for measured expressions is true of their exact values. -/
theorem TrueIn.reliable (trueIn : known.TrueIn env) : (known.measured env).Reliable .unbounded env where
  bound expr index number isNumber := by
    simp only [measured]
    split
    next measured =>
      obtain ⟨value, evaluated, member⟩ := measured.reads isNumber
      exact inferBound_contains measured.regular.typed measured.regular.integral trueIn.typed
        trueIn.bounds evaluated measured.inside number member
    next => exact Bound.contains_everything number
  congruence expr index number isNumber := by
    simp only [measured]
    split
    next measured =>
      obtain ⟨measured, classes⟩ := measured
      obtain ⟨value, evaluated, member⟩ := measured.reads isNumber
      exact inferCongruence_contains measured.regular.typed measured.regular.integral trueIn.typed
        trueIn.classesRegular trueIn.classes classes evaluated number member
    next => exact Congruence.contains_everything number
  range {cond x range} isRange := by
    simp only [measured, Option.ite_none_right_eq_some] at isRange
    obtain ⟨⟨typed, reads⟩, isRange⟩ := isRange
    exact reads.toldByRange typed trueIn.typed.kinded isRange
  truths := trueIn.truths

/-! ### Other environments -/

/-- The environments give the same value to every variable with a known name. -/
def Agrees (known : Knowledge) (env inner : Environment) : Prop :=
  ∀ name : Variable, name.name ∈ known.names → inner name = env name

theorem Agrees.evaluate_eq (agrees : known.Agrees env inner) (check : RangeCheck) {target : Expr}
    (isTarget : target ∈ known.globals.map Prod.fst ∨ target ∈ known.facts.map Fact.target) :
    target.evaluate check inner = target.evaluate check env :=
  evaluate_congr fun name free => agrees name (name_mem_names_of_target isTarget free)

theorem Agrees.reads (agrees : known.Agrees env inner) {target : Expr}
    (isTarget : target ∈ known.globals.map Prod.fst ∨ target ∈ known.facts.map Fact.target)
    {number : Int} (reads : target.Reads inner number) : target.Reads env number := by
  obtain ⟨value, evaluated, member⟩ := reads
  exact ⟨value, (agrees.evaluate_eq .checked isTarget).symm.trans evaluated, member⟩

/-- What is known stays true where the variables with known names keep their values. -/
theorem TrueIn.of_agrees (trueIn : known.TrueIn env) (agrees : known.Agrees env inner)
    (typed : inner.Typed) : known.TrueIn inner where
  typed := typed
  bounds :=
    { bounds := fun name bound found value isValue =>
        trueIn.bounds.bounds name bound found value
          ((agrees name (name_mem_names_of_bounds found)).symm.trans isValue)
      globals := fun target bound isGlobal number reads =>
        trueIn.bounds.globals target bound isGlobal number
          (agrees.reads (.inl (List.mem_map_of_mem isGlobal)) reads)
      facts := fun target bound isFact number reads =>
        trueIn.bounds.facts target bound isFact number
          (agrees.reads (.inr (List.mem_map_of_mem isFact)) reads) }
  classes :=
    { entries := fun name congruence found value isValue =>
        trueIn.classes.entries name congruence found value
          ((agrees name (name_mem_names_of_congruences found)).symm.trans isValue)
      facts := fun target congruence isFact number reads =>
        trueIn.classes.facts target congruence isFact number
          (agrees.reads (.inr (List.mem_map_of_mem isFact)) reads) }
  classesRegular := trueIn.classesRegular
  truths cond isTruth := by
    obtain ⟨regular, isTrue⟩ := trueIn.truths cond isTruth
    obtain ⟨fact, isFact, equal⟩ := List.mem_filterMap.mp isTruth
    cases fact with
    | truth target =>
      cases equal
      exact ⟨regular, (agrees.evaluate_eq .unbounded (.inr (List.mem_map_of_mem isFact))).trans isTrue⟩
    | bound | congruence => cases equal

end Knowledge

/-! ### Bindings inside an expression -/

/-- A binding inside an expression binds a variable that nothing is known about, to a value that the
variable may have. -/
def Expr.BindsApart (known : Knowledge) (env : Environment) : Expr → Prop
  | letIn _ name value _ => name.name ∉ known.names ∧
    ∀ bound, value.evalExact env = some bound →
      bound.HasType name.dtype ∧ (name.nonNegative = true → ∀ number ∈ bound.ints, 0 ≤ number)
  | _ => True

theorem Knowledge.TrueIn.letting (trueIn : known.TrueIn env) {dtype : DataType} {name : Variable}
    {value body : Expr} (binds : (letIn dtype name value body).BindsApart known env) :
    known.TrueIn (env.letting name value) := by
  obtain ⟨apart, ofType⟩ := binds
  have agrees : known.Agrees env (env.letting name value) := by
    intro other isKnown
    refine if_neg ?_
    rintro rfl
    exact apart isKnown
  refine trueIn.of_agrees agrees ?_
  intro other found isFound
  rw [Environment.letting] at isFound
  split at isFound
  next same =>
    subst same
    exact ofType found isFound
  next => exact trueIn.typed other found isFound

/-- What is known stays true where the operands of a node are evaluated. -/
theorem Expr.Enters.trueIn {child : Expr} (enters : Enters env expr child inner)
    (binds : expr.BindsApart known env) (trueIn : known.TrueIn env) : known.TrueIn inner := by
  cases enters with
  | operand | bound => exact trueIn
  | body => exact trueIn.letting binds

end IndexAlgebra
