/-
This file says what an expression means over the integers of arithmetic. Its exact value counts if
every conversion on the way to it is one of integers that fit the type they are converted from. The
meaning does not depend on the names of bound variables, nor on more than the values of the free
ones.
-/
import IndexAlgebra.Proofs.Bound
import IndexAlgebra.Proofs.ExactValues
import IndexAlgebra.Proofs.Lanes

namespace IndexAlgebra

/-- On the integers of arithmetic an arithmetic operator gives the integer that it gives in a lane. -/
theorem Scalar.binaryInt?_unbounded {op : BinaryOp} (arithmetic : op.opClass = .arithmetic)
    (dtype : DataType) (left right : Int) :
    binaryInt? .unbounded dtype op left right = (op.onLane left right).map .int := by
  cases op <;> try contradiction
  case add | sub | mul | min | max => rfl
  case truncDiv | truncMod | floorDiv | floorMod =>
    by_cases zero : right = 0 <;> simp [binaryInt?, BinaryOp.onLane, RangeCheck.unbounded, zero]

namespace Expr

/-- Every integer that is converted on the way to the value fits the type it is converted from. -/
def CastsFit (env : Environment) (expr : Expr) : Prop :=
  ∀ inner dtype operand value, Visits .unbounded env expr inner (cast dtype operand) →
    operand.evalExact inner = some value → ∀ number ∈ value.ints, operand.dtype.fits number = true

/-- The expression has the exact value, and nothing is converted on the way that does not fit the
type it is converted from. -/
structure Means (env : Environment) (expr : Expr) (value : Value) : Prop where
  evaluates : expr.evalExact env = some value
  castsFit : expr.CastsFit env

variable {env : Environment} {expr : Expr} {value : Value}

theorem Means.unique {other : Value} (means : expr.Means env value) (means' : expr.Means env other) :
    value = other := by
  have equal := means'.evaluates
  rw [means.evaluates] at equal
  exact Option.some.inj equal

/-! ### Names -/

/-- A renamed expression means what the original means. -/
theorem Renamed.means {image : Variable → Variable} {env' : Environment} {renamed : Expr}
    (related : Renamed image expr renamed)
    (agree : ∀ name ∈ expr.freeOccurrences, env' (image name) = env name)
    (means : expr.Means env value) : renamed.Means env' value := by
  refine ⟨(related.evaluate_eq agree).trans means.evaluates, ?_⟩
  intro inner' dtype operand' result visits' evaluated number member
  obtain ⟨image', inner, part, visits, same, agreePart⟩ := related.visits agree visits'
  cases same with
  | cast _ operand =>
    rw [evalExact, operand.evaluate_eq agreePart] at evaluated
    rw [operand.dtype_eq]
    exact means.castsFit inner dtype _ result visits evaluated number member

/-- What an expression means depends on the values of its free variables alone. -/
theorem Means.congr {env' : Environment} (means : expr.Means env value)
    (agree : ∀ name ∈ expr.freeOccurrences, env' name = env name) : expr.Means env' value := by
  have self : Renamed id expr expr := .refl expr fun _ _ => rfl
  exact self.means agree means

/-! ### Parts -/

/-- An operand that is always evaluated means its exact value. -/
theorem Means.child {child : Expr} {result : Value} (means : expr.Means env value)
    (strict : expr.isStrict = true) (isChild : child ∈ expr.children)
    (evaluated : child.evalExact env = some result) : child.Means env result :=
  ⟨evaluated, fun inner dtype operand converted visits =>
    means.castsFit inner dtype operand converted (.child strict isChild visits)⟩

theorem Means.exists_letIn {dtype : DataType} {name : Variable} {bound body : Expr}
    (means : (letIn dtype name bound body).Means env value) :
    ∃ first, bound.Means env first ∧ body.Means (env.set name first) value := by
  obtain ⟨first, isFirst, isValue⟩ := evaluate_letIn_eq_some.mp means.evaluates
  exact ⟨first,
    ⟨isFirst, fun _ _ _ _ visits => means.castsFit _ _ _ _ (.letValue visits)⟩,
    ⟨isValue, fun _ _ _ _ visits => means.castsFit _ _ _ _ (.letBody isFirst visits)⟩⟩

/-- Some lane of what the expression means is the integer. -/
def MeansLane (env : Environment) (expr : Expr) (number : Int) : Prop :=
  ∃ value, expr.Means env value ∧ number ∈ value.ints

theorem MeansLane.readsUnder {number : Int} (means : expr.MeansLane env number) :
    ReadsUnder .unbounded env expr number := by
  obtain ⟨value, means, member⟩ := means
  exact ⟨value, means.evaluates, member⟩

/-- A lane of an operand that is always evaluated is a lane of what the operand means. -/
theorem MeansLane.child {child : Expr} {number read : Int} (means : expr.MeansLane env number)
    (strict : expr.isStrict = true) (isChild : child ∈ expr.children)
    (reads : ReadsUnder .unbounded env child read) : child.MeansLane env read := by
  obtain ⟨value, means, -⟩ := means
  obtain ⟨result, evaluated, member⟩ := reads
  exact ⟨result, means.child strict isChild evaluated, member⟩

/-- What is converted fits the type that it is converted from. -/
theorem MeansLane.fits_of_cast {dtype : DataType} {operand : Expr} {number read : Int}
    (means : (cast dtype operand).MeansLane env number)
    (reads : ReadsUnder .unbounded env operand read) : operand.dtype.fits read = true := by
  obtain ⟨value, means, -⟩ := means
  obtain ⟨converted, isConverted, member⟩ := reads
  exact means.castsFit env dtype operand converted .self isConverted read member

/-! ### Nodes -/

theorem castsFit_of_isLeaf (isLeaf : expr.children = [])
    (notCast : ∀ dtype value, expr ≠ cast dtype value) : expr.CastsFit env := by
  intro inner target operand result visits
  cases visits with
  | self => exact absurd rfl (notCast target operand)
  | child _ isChild =>
    rw [isLeaf] at isChild
    exact absurd isChild List.not_mem_nil
  | letValue | letBody | condition | taken | refused => cases isLeaf

theorem castsFit_cast {dtype : DataType} {operand : Expr} (castsFit : operand.CastsFit env)
    (fits : ∀ value, operand.evalExact env = some value → ∀ number ∈ value.ints,
      operand.dtype.fits number = true) : (cast dtype operand).CastsFit env := by
  intro inner target operand' result visits
  cases visits with
  | self => exact fits result
  | child _ isChild visits =>
    rw [children, List.mem_singleton] at isChild
    subst isChild
    exact castsFit inner target operand' result visits

theorem means_intConst (dtype : DataType) (number : Int) :
    (intConst dtype number).Means env (.int number) :=
  ⟨rfl, castsFit_of_isLeaf rfl fun _ _ => Expr.noConfusion⟩

theorem means_var (dtype : DataType) {name : Variable} (isValue : env name = some value) :
    (var dtype name).Means env value :=
  ⟨isValue, castsFit_of_isLeaf rfl fun _ _ => Expr.noConfusion⟩

/-- An arithmetic operator on scalar integers means what it gives in a lane. -/
theorem means_binary {op : BinaryOp} {lhs rhs : Expr} {left right number : Int}
    (arithmetic : op.opClass = .arithmetic) (isLeft : lhs.Means env (.int left))
    (isRight : rhs.Means env (.int right)) (leftInteger : lhs.dtype.isInteger = true)
    (rightInteger : rhs.dtype.isInteger = true) {dtype : DataType} (scalar : dtype.lanes = 1)
    (computed : op.onLane left right = some number) :
    (binary dtype op lhs rhs).Means env (.int number) := by
  constructor
  · rw [evalExact, evaluate_binary_scalar scalar isLeft.evaluates isRight.evaluates
      (DataType.isFloat_of_isInteger leftInteger) (DataType.isFloat_of_isInteger rightInteger)]
    rw [Scalar.binary?, Scalar.binaryInt?_unbounded arithmetic, computed]
    rfl
  · intro inner target operand result visits
    cases visits with
    | child _ isChild visits =>
      simp only [children, List.mem_cons, List.not_mem_nil, or_false] at isChild
      rcases isChild with rfl | rfl
      · exact isLeft.castsFit inner target operand result visits
      · exact isRight.castsFit inner target operand result visits

/-- A scalar integer that fits its type stays the same when it is converted to an integer type that
can hold it. -/
theorem means_cast {dtype : DataType} {operand : Expr} {number : Int}
    (means : operand.Means env (.int number)) (isInteger : dtype.isInteger = true)
    (someBits : 1 ≤ dtype.bits) (scalar : dtype.lanes = 1)
    (fits : operand.dtype.fits number = true) (holds : dtype.fits number = true) :
    (cast dtype operand).Means env (.int number) := by
  have kept : (if 64 ≤ dtype.bits then number else Scalar.wrap dtype number) = number := by
    split
    next => rfl
    next narrow => exact Bound.wrap_of_fits isInteger someBits narrow holds
  constructor
  · refine evaluate_cast_eq_some.mpr ⟨.int number, [.int number], means.evaluates, ?_, rfl⟩
    have notBool : dtype.element.isBool = false :=
      Bool.eq_false_iff.mpr fun isBool =>
        absurd (DataType.isInteger_of_isBool isBool) (by simp [isInteger])
    have notFloat : dtype.element.isFloat = false := DataType.isFloat_of_isInteger isInteger
    have converted : Scalar.cast? .unbounded dtype.element (.int number) = some (.int number) := by
      rw [Scalar.cast?, if_neg (by simp [notBool]), if_neg (by simp [notFloat])]
      exact congrArg (fun result => some (Value.int result)) kept
    rw [scalar]
    show [Value.int number].mapM (Scalar.cast? .unbounded dtype.element) = some [.int number]
    rw [List.mapM_cons, converted]
    rfl
  · refine castsFit_cast means.castsFit fun result evaluated other member => ?_
    rw [means.evaluates] at evaluated
    cases evaluated
    rw [Value.ints_int, List.mem_singleton] at member
    rwa [member]

end Expr

end IndexAlgebra
