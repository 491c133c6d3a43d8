/-
This file proves that what is drawn from a binding is true. A value is stored as it is simplified, with
the bound and the class of that; a range gives the bound from its first value to its last. These entries
are true where the binding holds and what they are drawn from is true, since simplification keeps values
and the analyses of bounds and classes are right about them.
-/
import IndexAlgebra.Proofs.Entries
import IndexAlgebra.Proofs.Soundness

namespace IndexAlgebra

open IndexAlgebra.Expr Reduction

variable {env : Environment} {first extent last expr sum : Expr} {least length number : Int}

/-! ### The last value of a range -/

namespace Expr

theorem lanes_of_eval_int (typed : expr.WellTyped) (kinded : env.Kinded)
    (evaluated : expr.eval env = some (.int number)) : expr.lanes = 1 := by
  obtain ⟨lanes, made, length, -⟩ := evaluate_kinded typed kinded evaluated
  rw [(Value.isLane_int number).eq_singleton made.symm] at length
  exact length.symm

theorem hasLane_of_eval_int (evaluated : expr.eval env = some (.int number)) :
    HasLane env expr (.int number) := by
  refine ⟨.int number, 1, evaluated, ?_⟩
  rw [(Value.isLane_int number).toLanes]
  exact List.mem_singleton_self _

/-- A sum of two integers, of which one may take the type of the other, has the sum of their values. -/
theorem evalExact_of_sum (builds : binary? .add first extent = some sum) (regular : sum.Regular)
    (kinded : env.Kinded) (isLeast : first.eval env = some (.int least))
    (isLength : extent.eval env = some (.int length)) :
    sum.lanes = 1 ∧ sum.evalExact env = some (.int (least + length)) := by
  obtain ⟨same, rfl, -⟩ := binary?_unify builds
  have isLeft : (unify first extent).1.Regular := regular.child (by simp [children])
  have isRight : (unify first extent).2.Regular := regular.child (by simp [children])
  have scalar : (unify first extent).1.lanes = 1 := by
    rcases unify_cases first extent with unified | ⟨retyped, -, unified⟩ | ⟨retyped, -, unified⟩ <;>
      rw [unified] at isLeft isRight same ⊢
    · exact lanes_of_eval_int isLeft.typed kinded isLeast
    · exact lanes_of_eval_int isLeft.typed kinded isLeast
    · exact (congrArg DataType.lanes same).trans (lanes_of_eval_int isRight.typed kinded isLength)
  obtain ⟨leftValue, rightValue⟩ := eval_unify isLeft.typed isRight.typed scalar same kinded
    (hasLane_of_eval_int isLeast) (hasLane_of_eval_int isLength)
    (rfl : Scalar.binary? .checked .int32 .lt (.int least) (.int length) = _)
  have isInteger : (unify first extent).1.dtype.isInteger = true :=
    isLeft.isInteger_or_isBool.resolve_right fun isBool => regular.not_mixesTruths ⟨rfl, isBool⟩
  refine ⟨scalar, ?_⟩
  exact evalExact_binary (evalExact_of_eval leftValue) (evalExact_of_eval rightValue) isInteger
    (same ▸ isInteger) scalar

/-- A difference of an integer and one, which takes the type of the integer. -/
theorem evalExact_of_predecessor (builds : binary? .sub sum (.ofIndex 1) = some last)
    (regular : last.Regular) (scalar : sum.lanes = 1) (notConst : ∀ dtype, sum.retype? dtype = none)
    (evaluated : sum.evalExact env = some (.int number)) :
    last.evalExact env = some (.int (number - 1)) := by
  obtain ⟨same, rfl, -⟩ := binary?_unify builds
  have isLeft : (unify sum (.ofIndex 1)).1.Regular := regular.child (by simp [children])
  have isInteger : (unify sum (.ofIndex 1)).1.dtype.isInteger = true :=
    isLeft.isInteger_or_isBool.resolve_right fun isBool => regular.not_mixesTruths ⟨rfl, isBool⟩
  have one : (ofIndex 1).eval env = some (.int 1) := rfl
  obtain ⟨isSum, isOne⟩ : (unify sum (.ofIndex 1)).1 = sum ∧
      (unify sum (.ofIndex 1)).2.evalExact env = some (.int 1) := by
    rcases unify_cases sum (.ofIndex 1) with unified | ⟨retyped, retypes, unified⟩ |
      ⟨retyped, retypes, unified⟩ <;> rw [unified] at isInteger ⊢
    · exact ⟨rfl, evalExact_of_eval one⟩
    · rcases eval_of_retype? scalar retypes (hasLane_of_eval_int one) with
        isOne | ⟨isFloat, -⟩
      · exact ⟨rfl, evalExact_of_eval isOne⟩
      · cases (DataType.isFloat_of_isInteger isInteger).symm.trans isFloat
    · cases (notConst _).symm.trans retypes
  have isScalar : (unify sum (.ofIndex 1)).1.lanes = 1 := by rwa [isSum]
  exact evalExact_binary (by rwa [isSum]) isOne isInteger (same ▸ isInteger) isScalar

end Expr

theorem Analyzer.evalExact_lastOfRange (isLast : Analyzer.lastOfRange first extent = .ok last)
    (regular : last.Regular) (kinded : env.Kinded) (isLeast : first.eval env = some (.int least))
    (isLength : extent.eval env = some (.int length)) :
    last.evalExact env = some (.int (least + length - 1)) := by
  obtain ⟨sum, isSum, isLast⟩ := bind_eq_ok_iff.mp isLast
  have sumBuilds : binary? .add first extent = some sum := by rw [binary?, isSum]; rfl
  have builds : binary? .sub sum (.ofIndex 1) = some last := by rw [binary?, isLast]; rfl
  have notConst : ∀ dtype, sum.retype? dtype = none := by
    obtain ⟨-, rfl, -⟩ := binary?_unify sumBuilds
    exact fun _ => rfl
  have isChild : sum ∈ last.children := by
    obtain ⟨-, rfl, -⟩ := binary?_unify builds
    rcases unify_cases sum (.ofIndex 1) with unified | ⟨retyped, -, unified⟩ |
      ⟨retyped, retypes, unified⟩
    · simp [unified, children]
    · simp [unified, children]
    · cases (notConst _).symm.trans retypes
  obtain ⟨scalar, evaluated⟩ :=
    evalExact_of_sum sumBuilds (regular.child isChild) kinded isLeast isLength
  exact evalExact_of_predecessor builds regular scalar notConst evaluated

/-! ### True states -/

namespace Analyzer

variable {analyzer : Analyzer} {name : Variable} {binding : Binding} {derived : Consequences}
  {entry : Entry} {result : Value}

/-- Everything that is known in the state is true, and what stands for a variable has its value. -/
structure TrueIn (analyzer : Analyzer) (env : Environment) : Prop where
  known : analyzer.known.TrueIn env
  values : analyzer.ValuesHold env

/-- Every form that is met while the state simplifies the expression is clear, and what the expression is
simplified to is measured. -/
structure Simplifies (env : Environment) (analyzer : Analyzer) (expr : Expr) : Prop where
  regular : expr.Regular
  clear : AllClear analyzer.known env (analyzer.prepare expr)
  measured : (analyzer.reduce expr).Measured env

theorem Simplifies.simplified (simplifies : analyzer.Simplifies env expr) (trueIn : analyzer.TrueIn env) :
    Simplified env expr (analyzer.reduce expr) :=
  trueIn.values.simplified_reduce trueIn.known simplifies.regular simplifies.clear

theorem Simplifies.eval_reduce (simplifies : analyzer.Simplifies env expr)
    (trueIn : analyzer.TrueIn env) (evaluated : expr.evalExact env = some result) :
    (analyzer.reduce expr).eval env = some result :=
  simplifies.measured.checked result ((simplifies.simplified trueIn).keeps.evaluates result evaluated)

theorem Simplifies.inBound (simplifies : analyzer.Simplifies env expr) (trueIn : analyzer.TrueIn env)
    (evaluated : expr.evalExact env = some result) :
    ∀ number ∈ result.ints, (analyzer.known.inferBound (analyzer.reduce expr)).contains number = true :=
  Knowledge.inferBound_contains simplifies.measured.regular.typed simplifies.measured.regular.integral
    trueIn.known.typed trueIn.known.bounds (simplifies.eval_reduce trueIn evaluated)
    simplifies.measured.inside

/-- What is drawn from the binding of a variable is drawn from forms that are clear and expressions that
are measured. A value has the type of the variable, and its class is made right. -/
def Draws (env : Environment) (analyzer : Analyzer) (name : Variable) : Binding → Prop
  | .value expr => expr.dtype = name.dtype ∧ analyzer.Simplifies env expr ∧
    analyzer.known.Classes env (analyzer.reduce expr)
  | .range first extent => first.Regular ∧ first.StaysInside env ∧
    AllClear analyzer.known env (analyzer.prepare first) ∧
    ∀ last, lastOfRange first extent = .ok last → analyzer.Simplifies env last

theorem exists_lastOfRange (derives : analyzer.consequences (.range first extent) = .ok derived) :
    ∃ last, lastOfRange first extent = .ok last ∧
      derived = ⟨⟨(analyzer.known.inferBound first).lower,
          (analyzer.known.inferBound (analyzer.reduce last)).upper⟩,
        none, none, some (.between (analyzer.reduce first) (analyzer.reduce last))⟩ := by
  obtain ⟨last, made, -⟩ := bind_eq_ok_iff.mp derives
  rw [analyzer.consequences_range made] at derives
  exact ⟨last, made, (Except.ok.inj derives).symm⟩

theorem Draws.holds_value (draws : analyzer.Draws env name (.value expr)) (trueIn : analyzer.TrueIn env)
    (binds : (Binding.value expr).Holds env name)
    (derives : analyzer.consequences (.value expr) = .ok derived) (has : derived.Has entry) :
    entry.Holds env name := by
  intro value isValue
  obtain ⟨-, simplifies, classes⟩ := draws
  obtain ⟨other, isOther, evaluated⟩ := binds
  cases isValue.symm.trans isOther
  have isExact := evalExact_of_eval evaluated
  have reduced := simplifies.eval_reduce trueIn isExact
  have inBound := simplifies.inBound trueIn isExact
  have inClass := Knowledge.inferCongruence_contains simplifies.measured.regular.typed
    simplifies.measured.regular.integral trueIn.known.typed trueIn.known.classesRegular
    trueIn.known.classes classes reduced
  rw [consequences_value] at derives
  generalize analyzer.known.inferBound (analyzer.reduce expr) = bound at inBound derives
  generalize analyzer.known.inferCongruence (analyzer.reduce expr) = residues at inClass derives
  cases derives
  cases entry with
  | bound interval =>
    cases has
    exact inBound
  | congruence residues =>
    cases has
    exact inClass
  | value expr =>
    cases has
    exact reduced
  | range interval => cases has

theorem Draws.holds_range (draws : analyzer.Draws env name (.range first extent))
    (trueIn : analyzer.TrueIn env) (binds : (Binding.range first extent).Holds env name)
    (derives : analyzer.consequences (.range first extent) = .ok derived) (has : derived.Has entry) :
    entry.Holds env name := by
  intro value isValue
  obtain ⟨isFirst, inside, clear, isLast⟩ := draws
  obtain ⟨number, least, length, isNumber, isLeast, isLength, above, below⟩ := binds
  cases isValue.symm.trans isNumber
  obtain ⟨last, made, rfl⟩ := exists_lastOfRange derives
  have simplifies := isLast last made
  have isGreatest : last.evalExact env = some (.int (least + length - 1)) :=
    evalExact_lastOfRange made simplifies.regular trueIn.known.typed.kinded isLeast isLength
  cases entry with
  | bound interval =>
    cases has
    intro other isOther
    obtain rfl : other = number := by simpa using isOther
    have low := Bound.contains_iff.mp <| Knowledge.inferBound_contains isFirst.typed isFirst.integral
      trueIn.known.typed trueIn.known.bounds isLeast inside least (by simp)
    have high := Bound.contains_iff.mp <| simplifies.inBound trueIn isGreatest (least + length - 1)
      (by simp)
    exact Bound.contains_iff.mpr ⟨Limit.le_trans low.1 (Limit.finite_le_finite.mpr above),
      Limit.le_trans (Limit.finite_le_finite.mpr (by omega)) high.2⟩
  | congruence residues => cases has
  | value expr => cases has
  | range interval =>
    cases has
    intro other isOther
    cases isOther
    have reducedFirst : (analyzer.reduce first).evalExact env = some (.int least) :=
      (trueIn.values.simplified_reduce trueIn.known isFirst clear).keeps.evaluates _
        (evalExact_of_eval isLeast)
    have reducedLast := simplifies.eval_reduce trueIn isGreatest
    refine ⟨fun lower isLower least' isLeast' => ?_, fun upper isUpper greatest isGreatest => ?_⟩
    · cases isLower
      cases (evalExact_of_eval isLeast').symm.trans reducedFirst
      exact above
    · cases isUpper
      cases isGreatest.symm.trans reducedLast
      omega

/-- What follows from a binding that holds is true in a true state. -/
theorem Draws.holds (draws : analyzer.Draws env name binding) (trueIn : analyzer.TrueIn env)
    (binds : binding.Holds env name) (derives : analyzer.consequences binding = .ok derived)
    (has : derived.Has entry) : entry.Holds env name := by
  cases binding with
  | value expr => exact draws.holds_value trueIn binds derives has
  | range first extent => exact draws.holds_range trueIn binds derives has

/-- What stands for a variable after a binding that holds has the value of the variable. -/
theorem Draws.stands (draws : analyzer.Draws env name binding) (trueIn : analyzer.TrueIn env)
    (binds : binding.Holds env name) (derives : analyzer.consequences binding = .ok derived)
    {value : Expr} (has : derived.value = some value) :
    value.Regular ∧ value.dtype = name.dtype ∧ value.evalExact env = env name := by
  cases binding with
  | value expr =>
    obtain ⟨isType, simplifies, -⟩ := draws
    obtain ⟨found, isFound, evaluated⟩ := binds
    have simplified := simplifies.simplified trueIn
    cases derives
    cases has
    exact ⟨simplified.regular, simplified.keeps.isType.trans isType,
      (simplified.keeps.evaluates found (evalExact_of_eval evaluated)).trans isFound.symm⟩
  | range first extent =>
    obtain ⟨last, -, rfl⟩ := exists_lastOfRange derives
    cases has

/-- The class that follows from a binding is regular. -/
theorem regular_of_consequences (regular : analyzer.known.ClassesRegular)
    (derives : analyzer.consequences binding = .ok derived) {congruence : Congruence}
    (has : derived.congruence = some congruence) : congruence.Regular := by
  cases binding with
  | value expr =>
    cases derives
    cases has
    exact Knowledge.regular_congruenceWithin regular fun _ _ found => by cases found
  | range first extent =>
    obtain ⟨last, -, rfl⟩ := exists_lastOfRange derives
    cases has

end Analyzer

end IndexAlgebra
