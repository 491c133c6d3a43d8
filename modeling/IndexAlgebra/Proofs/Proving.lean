/-
This file proves that a condition with a proof by symbolic ranges is not false. A proof asks for
reductions, canonical forms, bounds and intervals of the expressions on its way, and it is right if
the answers are right about exact values. The end of an interval stays on its side of the difference
however often the variables in it are replaced by the ends of their own ranges.
-/
import IndexAlgebra.Analyzer.Proving
import IndexAlgebra.Proofs.Bound
import IndexAlgebra.Proofs.ExactValues
import IndexAlgebra.Proofs.Lanes
import IndexAlgebra.Proofs.RuleForms
import IndexAlgebra.Proofs.TypePreservation

namespace IndexAlgebra

/-- Every end of the interval has an exact value, and the integer lies between them. -/
structure Interval.EnclosesExactly (interval : Interval) (env : Environment) (number : Int) : Prop where
  lower : ∀ expr, interval.lower = some expr →
    ∃ least, expr.evalExact env = some (.int least) ∧ least ≤ number
  upper : ∀ expr, interval.upper = some expr →
    ∃ greatest, expr.evalExact env = some (.int greatest) ∧ number ≤ greatest

theorem Interval.enclosesExactly_between {env : Environment} {lower upper : Expr}
    {least greatest number : Int} (isLeast : lower.evalExact env = some (.int least))
    (isGreatest : upper.evalExact env = some (.int greatest)) (low : least ≤ number)
    (high : number ≤ greatest) : (between lower upper).EnclosesExactly env number :=
  ⟨fun _ isLower => Option.some.inj isLower ▸ ⟨least, isLeast, low⟩,
    fun _ isUpper => Option.some.inj isUpper ▸ ⟨greatest, isGreatest, high⟩⟩

namespace Analyzer

/-! ### What a proof asks -/

/-- An expression whose reduction, canonical form, bound, or interval over the ranges of variables
is asked for. -/
inductive Question where
  | reduction (expr : Expr)
  | canonicalForm (expr : Expr)
  | bound (expr : Expr)
  | interval (expr : Expr)
  deriving DecidableEq

/-- The canonical form that proofs look at. -/
def normal (analyzer : Analyzer) (expr : Expr) : Expr :=
  analyzer.canonical analyzer.limits.defaultSimplifySteps expr

/-- Every variable with a range lies within its range. -/
def RangesHold (analyzer : Analyzer) (env : Environment) : Prop :=
  ∀ name interval, analyzer.known.ranges.find? name = some interval →
    ∀ number, env name = some (.int number) → interval.EnclosesExactly env number

/-- The answer to the question is right about exact values. -/
def Answers (analyzer : Analyzer) (env : Environment) : Question → Prop
  | .reduction expr => ∀ value, expr.evalExact env = some value →
    (analyzer.reduce expr).evalExact env = some value
  | .canonicalForm expr => ∀ value, expr.evalExact env = some value →
    (analyzer.normal expr).evalExact env = some value
  | .bound expr => ∀ value, expr.evalExact env = some value →
    ∀ number ∈ value.ints, (analyzer.known.inferBound expr).contains number = true
  | .interval expr => analyzer.RangesHold env → ∀ number, expr.evalExact env = some (.int number) →
    (analyzer.inferInterval analyzer.known.ranges expr).EnclosesExactly env number

/-- What is asked about one end of an interval: the intervals of the ends that replace it, and the
bound of the canonical form of the last one. -/
def endQuestions (analyzer : Analyzer) (side : Interval → Option Expr) : Nat → Expr → List Question
  | 0, expr => [.canonicalForm expr, .bound (analyzer.normal expr)]
  | rounds + 1, expr =>
    if expr.mentions.any fun name => (analyzer.known.ranges.find? name).isSome then
      .interval expr ::
        (side (analyzer.inferInterval analyzer.known.ranges expr)).toList.flatMap
          (endQuestions analyzer side rounds)
    else [.canonicalForm expr, .bound (analyzer.normal expr)]

/-- The ends of the interval of a difference that decide about a comparison. -/
def sidesOf : BinaryOp → List (Interval → Option Expr)
  | .lt | .le => [Interval.upper]
  | .gt | .ge => [Interval.lower]
  | .eq | .ne => [Interval.upper, Interval.lower]
  | _ => []

/-- What is asked about a condition in canonical form. -/
def symbolicQuestions (analyzer : Analyzer) : Expr → List Question
  | .binary _ op lhs rhs =>
    if op = .and ∨ op = .or then symbolicQuestions analyzer lhs ++ symbolicQuestions analyzer rhs
    else if op.isComparison && lhs.dtype.isInteger && lhs.dtype.isScalar then
      (Expr.binary? .sub lhs rhs).toList.flatMap fun difference =>
        let reduced := analyzer.reduce difference
        [.reduction difference, .interval reduced] ++ (sidesOf op).flatMap fun side =>
          (side (analyzer.inferInterval analyzer.known.ranges reduced)).toList.flatMap
            (analyzer.endQuestions side analyzer.limits.maxRecursionDepth)
    else []
  | _ => []

/-- What is asked to prove a condition. -/
def questions (analyzer : Analyzer) (cond : Expr) : List Question :=
  let simplified := analyzer.reduce cond
  [.reduction cond, .bound simplified, .canonicalForm simplified] ++
    analyzer.symbolicQuestions (analyzer.normal simplified)

/-! ### Ends of intervals -/

section

variable {analyzer : Analyzer} {env : Environment}

/-- A side of intervals, whose ends stand in a relation to every integer that the interval
encloses. -/
structure IsSide (side : Interval → Option Expr) (beyond : Int → Int → Prop) : Prop where
  refl : ∀ number, beyond number number
  trans : ∀ first second third, beyond first second → beyond second third → beyond first third
  encloses : ∀ {env : Environment} {interval : Interval} {number : Int} {expr : Expr},
    interval.EnclosesExactly env number → side interval = some expr →
    ∃ last, expr.evalExact env = some (.int last) ∧ beyond number last

theorem isSide_upper : IsSide Interval.upper (· ≤ ·) where
  refl := Int.le_refl
  trans _ _ _ := Int.le_trans
  encloses encloses isEnd := encloses.upper _ isEnd

theorem isSide_lower : IsSide Interval.lower (· ≥ ·) where
  refl := Int.le_refl
  trans _ _ _ isFirst isSecond := Int.le_trans isSecond isFirst
  encloses encloses isEnd := encloses.lower _ isEnd

variable {side : Interval → Option Expr} {beyond : Int → Int → Prop}

/-- Replacing variables by the ends of their ranges moves an end away, if it gives an end. -/
theorem expandEnd?_sound (isSide : IsSide side beyond) (ranges : analyzer.RangesHold env)
    {rounds : Nat} {expr expanded : Expr} {number : Int}
    (answers : ∀ question ∈ analyzer.endQuestions side rounds expr, analyzer.Answers env question)
    (isValue : expr.evalExact env = some (.int number))
    (expands : analyzer.expandEnd? side rounds expr = some expanded) :
    (∃ last, expanded.evalExact env = some (.int last) ∧ beyond number last) ∧
      analyzer.Answers env (.canonicalForm expanded) ∧
      analyzer.Answers env (.bound (analyzer.normal expanded)) := by
  induction rounds generalizing expr number with
  | zero =>
    rw [expandEnd?, Option.some.injEq] at expands
    subst expands
    exact ⟨⟨number, isValue, isSide.refl number⟩, answers _ (by simp [endQuestions]),
      answers _ (by simp [endQuestions])⟩
  | succ rounds inductionHypothesis =>
    rw [expandEnd?] at expands
    rw [endQuestions] at answers
    split at expands
    next mentions =>
      rw [if_pos mentions] at answers
      split at expands
      next next isEnd =>
        rw [isEnd] at answers
        obtain ⟨middle, isMiddle, first⟩ :=
          isSide.encloses (answers _ List.mem_cons_self ranges number isValue) isEnd
        obtain ⟨⟨last, isLast, second⟩, answered⟩ := inductionHypothesis
          (fun question member => answers question (List.mem_cons_of_mem _ (by simpa using member)))
          isMiddle expands
        exact ⟨⟨last, isLast, isSide.trans _ _ _ first second⟩, answered⟩
      next => cases expands
    next fixed =>
      rw [if_neg fixed] at answers
      cases expands
      exact ⟨⟨number, isValue, isSide.refl number⟩, answers _ (by simp), answers _ (by simp)⟩

/-- An end that passes a test of its bound has a value beyond the enclosed integer that the bound
contains. -/
theorem exists_of_endSatisfies (isSide : IsSide side beyond) (ranges : analyzer.RangesHold env)
    {interval : Interval} {number : Int} {test : Bound → Bool}
    (encloses : interval.EnclosesExactly env number)
    (answers : ∀ question ∈ (side interval).toList.flatMap
      (analyzer.endQuestions side analyzer.limits.maxRecursionDepth),
        analyzer.Answers env question)
    (satisfied : analyzer.endSatisfies side interval test = true) :
    ∃ last bound, beyond number last ∧ Bound.contains bound last = true ∧ test bound = true := by
  unfold endSatisfies at satisfied
  dsimp only at satisfied
  split at satisfied
  next expanded found =>
    obtain ⟨expr, isEnd, expands⟩ := Option.bind_eq_some_iff.mp found
    rw [isEnd] at answers
    obtain ⟨first, isFirst, isBeyond⟩ := isSide.encloses encloses isEnd
    obtain ⟨⟨last, isLast, further⟩, canonicalAnswer, boundAnswer⟩ :=
      expandEnd?_sound isSide ranges (fun question member => answers question (by simpa using member))
        isFirst expands
    exact ⟨last, _, isSide.trans _ _ _ isBeyond further,
      boundAnswer _ (canonicalAnswer _ isLast) last (by simp), satisfied⟩
  next => cases satisfied

/-- The interval of a difference decides only comparisons that hold. -/
theorem intervalProves_sound (ranges : analyzer.RangesHold env) {op : BinaryOp}
    {interval : Interval} {left right : Int} (encloses : interval.EnclosesExactly env (left - right))
    (answers : ∀ question ∈ (sidesOf op).flatMap (fun side => (side interval).toList.flatMap
      (analyzer.endQuestions side analyzer.limits.maxRecursionDepth)),
        analyzer.Answers env question)
    (proves : analyzer.intervalProves op interval = true) : op.onLane left right = some 1 := by
  have upper (isUpper : Interval.upper ∈ sidesOf op) {test : Bound → Bool}
      (satisfied : analyzer.endSatisfies Interval.upper interval test = true) :
      ∃ last bound, left - right ≤ last ∧ Bound.contains bound last = true ∧ test bound = true :=
    exists_of_endSatisfies isSide_upper ranges encloses (fun question member =>
      answers question (List.mem_flatMap.mpr ⟨_, isUpper, member⟩)) satisfied
  have lower (isLower : Interval.lower ∈ sidesOf op) {test : Bound → Bool}
      (satisfied : analyzer.endSatisfies Interval.lower interval test = true) :
      ∃ last bound, left - right ≥ last ∧ Bound.contains bound last = true ∧ test bound = true :=
    exists_of_endSatisfies isSide_lower ranges encloses (fun question member =>
      answers question (List.mem_flatMap.mpr ⟨_, isLower, member⟩)) satisfied
  have holds {truth : Prop} [Decidable truth] (isTrue : truth) :
      some ((decide truth).toNat : Int) = some 1 := by
    rw [decide_eq_true isTrue]
    rfl
  unfold intervalProves at proves
  cases op <;> dsimp only at proves
  case lt =>
    obtain ⟨last, bound, ordered, member, test⟩ := upper (by simp [sidesOf]) proves
    have negative := Bound.neg_of_isNegative test member
    exact holds (by omega)
  case le =>
    obtain ⟨last, bound, ordered, member, test⟩ := upper (by simp [sidesOf]) proves
    have nonpos := Bound.nonpos_of_isNonPositive test member
    exact holds (by omega)
  case gt =>
    obtain ⟨last, bound, ordered, member, test⟩ := lower (by simp [sidesOf]) proves
    have positive := Bound.pos_of_isPositive test member
    exact holds (by omega)
  case ge =>
    obtain ⟨last, bound, ordered, member, test⟩ := lower (by simp [sidesOf]) proves
    have nonneg := Bound.nonneg_of_isNonNegative test member
    exact holds (by omega)
  case eq =>
    obtain ⟨isUpper, isLower⟩ := Bool.and_eq_true_iff.mp proves
    obtain ⟨last, bound, ordered, member, test⟩ := upper (by simp [sidesOf]) isUpper
    obtain ⟨last', bound', ordered', member', test'⟩ := lower (by simp [sidesOf]) isLower
    have nonpos := Bound.nonpos_of_isNonPositive test member
    have nonneg := Bound.nonneg_of_isNonNegative test' member'
    exact holds (by omega)
  case ne =>
    rcases Bool.or_eq_true_iff.mp proves with isUpper | isLower
    · obtain ⟨last, bound, ordered, member, test⟩ := upper (by simp [sidesOf]) isUpper
      have negative := Bound.neg_of_isNegative test member
      exact holds (by omega)
    · obtain ⟨last, bound, ordered, member, test⟩ := lower (by simp [sidesOf]) isLower
      have positive := Bound.pos_of_isPositive test member
      exact holds (by omega)
  all_goals cases proves

/-! ### Conditions -/

/-- The operands of a logical node that has a scalar value are truth values. -/
theorem exists_of_logical {op : BinaryOp} (logical : op = .and ∨ op = .or) {dtype : DataType}
    {lhs rhs : Expr} {truth : Bool} (tells : (Expr.binary dtype op lhs rhs).TellsKinds)
    (kinded : env.Kinded)
    (evaluated : (Expr.binary dtype op lhs rhs).evalExact env = some (.bool truth)) :
    ∃ left right, lhs.evalExact env = some (.bool left) ∧ rhs.evalExact env = some (.bool right) ∧
      truth = if op = .and then left && right else left || right := by
  have one : dtype.lanes = 1 :=
    (tells.kinded kinded evaluated).lanes_eq_one fun _ => Value.noConfusion
  have isLeft : lhs.TellsKinds := tells.child (by simp [Expr.children])
  have isRight : rhs.TellsKinds := tells.child (by simp [Expr.children])
  have coherent := tells.coherent
  rw [Expr.Coherent] at coherent
  obtain ⟨-, -, same, rfl, -⟩ := coherent
  have scalar : lhs.dtype.lanes = 1 := by
    rcases logical with rfl | rfl <;> exact one
  obtain ⟨left, right, lanes, leftValue, rightValue, -, -⟩ :=
    Expr.evaluate_binary_eq_some.mp evaluated
  have leftKind := (isLeft.kinded kinded leftValue).ofKind scalar
  have rightKind := (isRight.kinded kinded rightValue).ofKind (same ▸ scalar)
  rw [Expr.evalExact, Expr.evaluate_binary_scalar one leftValue rightValue leftKind rightKind]
    at evaluated
  rcases logical with rfl | rfl <;> cases left <;> cases right <;> cases evaluated <;>
    exact ⟨_, _, leftValue, rightValue, rfl⟩

/-- A comparison of scalar integers compares two exact values. -/
theorem exists_of_comparison {op : BinaryOp} (comparison : op.isComparison = true)
    {dtype : DataType} {lhs rhs : Expr} {value : Value}
    (isInteger : lhs.dtype.isInteger = true) (scalar : lhs.dtype.isScalar = true)
    (tells : (Expr.binary dtype op lhs rhs).TellsKinds) (kinded : env.Kinded)
    (evaluated : (Expr.binary dtype op lhs rhs).evalExact env = some value) :
    ∃ left right, lhs.evalExact env = some (.int left) ∧ rhs.evalExact env = some (.int right) ∧
      Scalar.binaryInt? .unbounded lhs.dtype.element op left right = some value := by
  have isLeft : lhs.TellsKinds := tells.child (by simp [Expr.children])
  have isRight : rhs.TellsKinds := tells.child (by simp [Expr.children])
  have coherent := tells.coherent
  rw [Expr.Coherent] at coherent
  obtain ⟨-, -, same, rfl, -⟩ := coherent
  have one := Expr.lanes_eq_one_of_isScalar scalar
  obtain ⟨left, right, lanes, leftValue, rightValue, -, -⟩ :=
    Expr.evaluate_binary_eq_some.mp evaluated
  have leftKinded := isLeft.kinded kinded leftValue
  have rightKinded := isRight.kinded kinded rightValue
  rw [← same] at rightKinded
  obtain ⟨left, rfl⟩ := leftKinded.exists_int isInteger one
  obtain ⟨right, rfl⟩ := rightKinded.exists_int isInteger one
  refine ⟨left, right, leftValue, rightValue, ?_⟩
  rwa [Expr.evalExact, Expr.evaluate_binary_scalar (by rw [Expr.binaryType, if_pos comparison]; exact one)
    leftValue rightValue (leftKinded.ofKind one) (same ▸ rightKinded.ofKind one)] at evaluated

/-- The difference of two integers has their difference as exact value. -/
theorem evalExact_difference {lhs rhs difference : Expr} {left right : Int}
    (same : lhs.dtype = rhs.dtype) (scalar : lhs.dtype.isScalar = true)
    (isInteger : lhs.dtype.isInteger = true)
    (builds : Expr.binary? .sub lhs rhs = some difference)
    (isLeft : lhs.evalExact env = some (.int left))
    (isRight : rhs.evalExact env = some (.int right)) :
    difference.evalExact env = some (.int (left - right)) := by
  have notFloat := DataType.isFloat_of_isInteger isInteger
  obtain ⟨rfl, -⟩ := Expr.binary?_eq_some same builds
  have one : (Expr.binaryType .sub lhs.dtype).lanes = 1 := Expr.lanes_eq_one_of_isScalar scalar
  rw [Expr.evalExact, Expr.evaluate_binary_scalar one isLeft isRight notFloat (same ▸ notFloat)]
  rfl

/-- The truth value of a comparison is the one that it has in a lane. -/
theorem onLane_of_comparison {op : BinaryOp} {dtype : DataType} {left right : Int} {truth : Bool}
    (computed : Scalar.binaryInt? .unbounded dtype op left right = some (.bool truth)) :
    op.onLane left right = some truth.toNat := by
  unfold Scalar.binaryInt? at computed
  cases op <;>
    simp only [RangeCheck.unbounded, Option.map_some, Option.ite_none_left_eq_some,
      Option.some.injEq, reduceCtorEq, and_false, Value.bool.injEq] at computed <;>
    exact congrArg (fun truth : Bool => some (truth.toNat : Int)) computed

/-- A comparison that the interval of its difference proves is not false. -/
theorem comparison_sound (ranges : analyzer.RangesHold env) (kinded : env.Kinded) {op : BinaryOp}
    {dtype : DataType} {lhs rhs : Expr} (tells : (Expr.binary dtype op lhs rhs).TellsKinds)
    (notLogical : ¬(op = .and ∨ op = .or))
    (answers : ∀ question ∈ analyzer.symbolicQuestions (.binary dtype op lhs rhs),
      analyzer.Answers env question)
    (proves : analyzer.provesSymbolically (.binary dtype op lhs rhs) = true) :
    (Expr.binary dtype op lhs rhs).evalExact env ≠ some (.bool false) := by
  intro isFalse
  obtain ⟨notAnd, notOr⟩ := not_or.mp notLogical
  rw [provesSymbolically, if_neg notAnd, if_neg notOr] at proves
  rw [symbolicQuestions, if_neg notLogical] at answers
  split at proves
  next compares =>
    rw [if_pos compares] at answers
    simp only [Bool.and_eq_true] at compares
    obtain ⟨⟨comparison, isInteger⟩, scalar⟩ := compares
    split at proves
    next difference builds =>
      rw [builds, Option.toList_some, List.flatMap_cons, List.flatMap_nil, List.append_nil]
        at answers
      obtain ⟨left, right, leftValue, rightValue, computed⟩ :=
        exists_of_comparison comparison isInteger scalar tells kinded isFalse
      have coherent := tells.coherent
      rw [Expr.Coherent] at coherent
      have isDifference := evalExact_difference coherent.2.2.1 scalar isInteger builds leftValue
        rightValue
      have isReduced := answers (.reduction difference) (by simp) _ isDifference
      have encloses := answers (.interval (analyzer.reduce difference)) (by simp) ranges _ isReduced
      have holds := intervalProves_sound ranges encloses (fun question member =>
        answers question (List.mem_append_right _ member)) proves
      rw [onLane_of_comparison computed] at holds
      cases holds
    next => cases proves
  next => cases proves

/-- A condition that symbolic ranges prove is not false. -/
theorem provesSymbolically_sound (ranges : analyzer.RangesHold env) (kinded : env.Kinded)
    {cond : Expr} (tells : cond.TellsKinds)
    (answers : ∀ question ∈ analyzer.symbolicQuestions cond, analyzer.Answers env question)
    (proves : analyzer.provesSymbolically cond = true) :
    cond.evalExact env ≠ some (.bool false) := by
  induction cond using Expr.childrenInduction with
  | step cond inductionHypothesis =>
    cases cond with
    | binary dtype op lhs rhs =>
      by_cases logical : op = .and ∨ op = .or
      · have isLhs : lhs ∈ (Expr.binary dtype op lhs rhs).children := by simp [Expr.children]
        have isRhs : rhs ∈ (Expr.binary dtype op lhs rhs).children := by simp [Expr.children]
        rw [symbolicQuestions, if_pos logical] at answers
        have ofLeft := inductionHypothesis lhs isLhs (tells.child isLhs)
          fun question member => answers question (List.mem_append_left _ member)
        have ofRight := inductionHypothesis rhs isRhs (tells.child isRhs)
          fun question member => answers question (List.mem_append_right _ member)
        intro isFalse
        obtain ⟨left, right, leftValue, rightValue, truth⟩ :=
          exists_of_logical logical tells kinded isFalse
        have isLeft (provesLeft : analyzer.provesSymbolically lhs = true) : left = true :=
          Bool.of_not_eq_false fun isFalse => ofLeft provesLeft (isFalse ▸ leftValue)
        have isRight (provesRight : analyzer.provesSymbolically rhs = true) : right = true :=
          Bool.of_not_eq_false fun isFalse => ofRight provesRight (isFalse ▸ rightValue)
        rw [provesSymbolically] at proves
        rcases logical with rfl | rfl
        · rw [if_pos rfl, Bool.and_eq_true] at proves
          rw [isLeft proves.1, isRight proves.2] at truth
          cases truth
        · rw [if_neg (by decide), if_pos rfl, Bool.or_eq_true] at proves
          rw [if_neg (by decide)] at truth
          rcases proves with provesLeft | provesRight
          · rw [isLeft provesLeft] at truth
            cases truth
          · rw [isRight provesRight, Bool.or_true] at truth
            cases truth
      · exact comparison_sound ranges kinded tells logical answers proves
    | _ => cases proves

end

/-- An expression that is a truth constant has its value. -/
theorem eq_of_asBool? {env : Environment} {expr : Expr} {truth other : Bool}
    (isConst : expr.asBool? = some truth) (evaluated : expr.evalExact env = some (.bool other)) :
    truth = other := by
  cases expr <;> cases isConst
  cases evaluated
  rfl

/-- A condition that is proved is not false, if the types of its canonical form tell the kinds of lanes. -/
theorem evalExact_ne_false_of_canProve {analyzer : Analyzer} {env : Environment} {cond : Expr}
    (kinded : env.Kinded) (ranges : analyzer.RangesHold env)
    (tells : (analyzer.normal (analyzer.reduce cond)).TellsKinds)
    (answers : ∀ question ∈ analyzer.questions cond, analyzer.Answers env question)
    (proves : analyzer.canProve cond .symbolic = true) : cond.evalExact env ≠ some (.bool false) := by
  intro isFalse
  have isReduced := answers (.reduction cond) (by simp [questions]) _ isFalse
  unfold canProve at proves
  dsimp only at proves
  split at proves
  next truth isConst =>
    rw [proves] at isConst
    exact absurd (eq_of_asBool? isConst isReduced) (by decide)
  next =>
    split at proves
    next positive =>
      have member := answers (.bound (analyzer.reduce cond)) (by simp [questions]) _ isReduced 0
        (by simp)
      have low := (Bound.contains_iff.mp member).1
      have high := (Bool.and_eq_true_iff.mp positive).2
      generalize (analyzer.known.inferBound (analyzer.reduce cond)).lower = lower at low high
      cases lower with
      | negInf => exact absurd high (by decide)
      | posInf => exact Limit.not_posInf_le_finite 0 low
      | finite least =>
        have atMost := Limit.finite_le_finite.mp low
        have atLeast : 1 ≤ least := of_decide_eq_true high
        omega
    next =>
      have isNormal := answers (.canonicalForm (analyzer.reduce cond)) (by simp [questions]) _
        isReduced
      rcases Bool.or_eq_true_iff.mp proves with isConst | symbolic
      · exact absurd (eq_of_asBool? (beq_iff_eq.mp isConst) isNormal) (by decide)
      · exact provesSymbolically_sound ranges kinded tells (fun question member =>
          answers question (List.mem_append_right _ member)) symbolic isNormal

/-- **Proofs by symbolic ranges are sound.** If the reductions, canonical forms, bounds and
intervals that a proof asks for are right about exact values, the canonical form is typed as the
builders type it, and every variable with a range lies within it, a condition that is proved does
not evaluate to false, neither exactly nor with every integer in the range of its type. -/
theorem canProve_sound {analyzer : Analyzer} {env : Environment} {cond : Expr} (kinded : env.Kinded)
    (ranges : analyzer.RangesHold env)
    (typed : (analyzer.normal (analyzer.reduce cond)).WellTyped)
    (answers : ∀ question ∈ analyzer.questions cond, analyzer.Answers env question)
    (proves : analyzer.canProve cond .symbolic = true) :
    cond.evalExact env ≠ some (.bool false) ∧ cond.eval env ≠ some (.bool false) := by
  have notFalse := evalExact_ne_false_of_canProve kinded ranges typed.tellsKinds answers proves
  exact ⟨notFalse, fun isFalse => notFalse (Expr.evalExact_of_eval isFalse)⟩

/-- With `i` from zero to `j` and `j` from zero to nine, `i < 10` is proved through the range of
`j`. -/
theorem canProve_sound_chain :
    let first : Variable := ⟨"i", .int32, false⟩
    let second : Variable := ⟨"j", .int32, false⟩
    let number := fun value => Expr.intConst .int32 value
    let ranges : Table Interval :=
      [(first, .between (number 0) second.expr), (second, .between (number 0) (number 9))]
    let analyzer : Analyzer := { known := { ranges } }
    let cond := Expr.binary .bool .lt first.expr (number 10)
    let env := (Environment.empty.set first (.int 3)).set second (.int 5)
    analyzer.canProve cond .symbolic = true ∧ cond.eval env ≠ some (.bool false) := by
  intro first second number ranges analyzer cond env
  have proved : analyzer.canProve cond .symbolic = true := by decide +kernel
  have asked : analyzer.questions cond =
      [.reduction cond, .bound cond, .canonicalForm cond,
        .reduction (.binary .int32 .sub first.expr (number 10)),
        .interval (.binary .int32 .sub first.expr (number 10)),
        .interval (.binary .int32 .sub second.expr (number 10)), .canonicalForm (number (-1)),
        .bound (number (-1))] := by decide +kernel
  refine ⟨proved, (canProve_sound ?_ ?_ ?_ ?_ proved).2⟩
  · intro name value isValue
    rcases Environment.cases_of_set_set isValue with ⟨rfl, rfl⟩ | ⟨rfl, rfl⟩ <;>
      exact Value.kinded_int _ rfl rfl
  · intro name interval found value isValue
    rcases Environment.cases_of_set_set isValue with ⟨rfl, equal⟩ | ⟨rfl, equal⟩ <;> cases equal <;>
      cases found
    · exact Interval.enclosesExactly_between rfl rfl (by decide) (by decide)
    · exact Interval.enclosesExactly_between rfl rfl (by decide) (by decide)
  · have isNormal : analyzer.normal (analyzer.reduce cond) = cond := by decide +kernel
    rw [isNormal]
    decide
  · rw [asked]
    simp only [List.forall_mem_cons, List.not_mem_nil, IsEmpty.forall_iff, implies_true, and_true,
      Answers]
    refine ⟨fun value isValue => ?_, fun value isValue single member => ?_,
      fun value isValue => ?_, fun value isValue => ?_, fun _ single isValue => ?_,
      fun _ single isValue => ?_, fun value isValue => ?_, fun value isValue single member => ?_⟩
    · rwa [show analyzer.reduce cond = cond by decide +kernel]
    · cases isValue.symm.trans (show cond.evalExact env = some (.bool true) from rfl)
      rw [Value.ints_bool, List.mem_singleton] at member
      subst member
      decide +kernel
    · rwa [show analyzer.normal cond = cond by decide +kernel]
    · rwa [show analyzer.reduce (.binary .int32 .sub first.expr (number 10)) =
        .binary .int32 .sub first.expr (number 10) by decide +kernel]
    · cases isValue.symm.trans (show _ = some (.int (-7)) from rfl)
      rw [show analyzer.inferInterval ranges (.binary .int32 .sub first.expr (number 10)) =
        .between (number (-10)) (.binary .int32 .sub second.expr (number 10)) by decide +kernel]
      exact Interval.enclosesExactly_between rfl rfl (by decide) (by decide)
    · cases isValue.symm.trans (show _ = some (.int (-5)) from rfl)
      rw [show analyzer.inferInterval ranges (.binary .int32 .sub second.expr (number 10)) =
        .between (number (-10)) (number (-1)) by decide +kernel]
      exact Interval.enclosesExactly_between rfl rfl (by decide) (by decide)
    · rwa [show analyzer.normal (number (-1)) = number (-1) by decide +kernel]
    · cases isValue.symm.trans (show _ = some (.int (-1)) from rfl)
      rw [Value.ints_int, List.mem_singleton] at member
      subst member
      decide +kernel

/-- Simplification keeps the types of a coherent condition, if the values that stand for variables have the
types of these. What is left to ask of its canonical form is that shuffles and operations on bits keep the
kinds of lanes, of which coherence says nothing. -/
theorem canProve_sound_of_coherent {analyzer : Analyzer} {env : Environment} {cond : Expr}
    (kinded : env.Kinded) (ranges : analyzer.RangesHold env) (values : analyzer.ValuesTyped)
    (coherent : cond.Coherent)
    (keeps : ∀ node ∈ (analyzer.normal (analyzer.reduce cond)).postOrder, node.KeepsLanes Value.OfKind)
    (answers : ∀ question ∈ analyzer.questions cond, analyzer.Answers env question)
    (proves : analyzer.canProve cond .symbolic = true) :
    cond.evalExact env ≠ some (.bool false) ∧ cond.eval env ≠ some (.bool false) := by
  have isNormal : (analyzer.normal (analyzer.reduce cond)).HasType cond.dtype :=
    values.canonical _ _ _ (values.reduce cond _ coherent.hasType)
  have notFalse := evalExact_ne_false_of_canProve kinded ranges ⟨isNormal.coherent, keeps⟩ answers proves
  exact ⟨notFalse, fun isFalse => notFalse (Expr.evalExact_of_eval isFalse)⟩

end Analyzer

end IndexAlgebra
