/-
This file proves that flattening keeps exact values, where the quotients that it asks for are exact and
the bounds that it asks for contain exact values. The functions that flatten call each other with less
fuel each time. What they keep with some fuel they keep with more, since every step builds on parts that
stand for the values of the original parts. That is shown for a setting whose answers are all right, and
it holds of one that answers alike where it is asked.
-/
import IndexAlgebra.Analyzer.Canonical
import IndexAlgebra.Proofs.FlatteningQueries
import IndexAlgebra.Proofs.Replacement
import IndexAlgebra.Proofs.SumComparison

namespace IndexAlgebra

variable {names : List Variable} {env : Environment} {dtype : DataType}
  {among : Environment → Prop} {value : Environment → Int}

namespace Expr

/-! ### Operands of scalar integers -/

/-- A well-typed expression stands for its exact value where it has one. -/
theorem Within.stands (index : dtype.IsIndex) {expr : Expr} (within : expr.Within names dtype)
    (extend : ∀ inner, among inner → env.Extends names inner)
    (defined : ∀ inner, among inner → ∃ value, expr.evalExact inner = some value) :
    expr.Stands names dtype among fun inner => expr.intAt inner := by
  refine ⟨within, fun inner isAmong => ?_⟩
  obtain ⟨value, evaluated⟩ := defined inner isAmong
  have kinded := evaluate_kinded within.typed (extend inner isAmong).kinded evaluated
  rw [within.dtype_eq] at kinded
  obtain ⟨number, rfl⟩ := kinded.exists_int index.isInteger index.scalar
  rw [intAt_eq evaluated, evaluated]

/-- The operands of a binary node of scalar integers stand for integers where the node has an exact
value, and the operator gives the value of the node. -/
theorem Within.operands {result : DataType} {op : BinaryOp} {lhs rhs : Expr}
    (within : (Expr.binary result op lhs rhs).Within names result) (index : lhs.dtype.IsIndex)
    (extend : ∀ inner, among inner → env.Extends names inner)
    (defined : ∀ inner, among inner →
      ∃ value, (Expr.binary result op lhs rhs).evalExact inner = some value) :
    lhs.Stands names lhs.dtype among (fun inner => lhs.intAt inner) ∧
      rhs.Stands names lhs.dtype among (fun inner => rhs.intAt inner) ∧
      ∀ inner, among inner → (Expr.binary result op lhs rhs).evalExact inner =
        Scalar.binaryInt? .unbounded lhs.dtype.element op (lhs.intAt inner) (rhs.intAt inner) := by
  have typed := within.typed
  rw [WellTyped] at typed
  obtain ⟨-, -, same, isResult, -⟩ := typed
  have evaluated : ∀ inner, among inner →
      ∃ left right, lhs.evalExact inner = some left ∧ rhs.evalExact inner = some right := by
    intro inner isAmong
    obtain ⟨value, isValue⟩ := defined inner isAmong
    obtain ⟨left, right, -, isLeft, isRight, -⟩ := evaluate_binary_eq_some.mp isValue
    exact ⟨left, right, isLeft, isRight⟩
  have leftWithin : lhs.Within names lhs.dtype := within.child List.mem_cons_self
  have rightWithin : rhs.Within names rhs.dtype :=
    within.child (List.mem_cons_of_mem _ List.mem_cons_self)
  rw [← same] at rightWithin
  have isLeft := leftWithin.stands index extend fun inner isAmong =>
    (evaluated inner isAmong).imp fun _ found => found.choose_spec.1
  have isRight := rightWithin.stands index extend fun inner isAmong =>
    (evaluated inner isAmong).choose_spec.imp fun _ found => found.2
  refine ⟨isLeft, isRight, fun inner isAmong => ?_⟩
  have scalar : result.lanes = 1 := by
    rw [isResult, binaryType]
    split <;> exact index.scalar
  exact evalExact_binary (isLeft.evaluates inner isAmong) (isRight.evaluates inner isAmong)
    index.isInteger (same ▸ index.isInteger) scalar

/-- The operands of an arithmetic node that stands for an integer stand for integers that the
operator gives it of. -/
theorem Stands.operands (index : dtype.IsIndex) {op : BinaryOp} (arithmetic : op.opClass = .arithmetic)
    {lhs rhs : Expr} (isExpr : (Expr.binary dtype op lhs rhs).Stands names dtype among value)
    (extend : ∀ inner, among inner → env.Extends names inner) :
    lhs.Stands names dtype among (fun inner => lhs.intAt inner) ∧
      rhs.Stands names dtype among (fun inner => rhs.intAt inner) ∧
      ∀ inner, among inner → op.onLane (lhs.intAt inner) (rhs.intAt inner) = some (value inner) := by
  have typed := isExpr.within.typed
  rw [WellTyped, binaryType_of_arithmetic arithmetic] at typed
  have isType : dtype = lhs.dtype := typed.2.2.2.1
  obtain ⟨isLeft, isRight, computes⟩ := isExpr.within.operands (isType ▸ index) extend
    fun inner isAmong => ⟨_, isExpr.evaluates inner isAmong⟩
  rw [← isType] at isLeft isRight
  refine ⟨isLeft, isRight, fun inner isAmong => ?_⟩
  have computed := computes inner isAmong
  rw [isExpr.evaluates inner isAmong, Scalar.binaryInt?_unbounded arithmetic] at computed
  obtain ⟨number, isNumber, equal⟩ := Option.map_eq_some_iff.mp computed.symm
  cases equal
  exact isNumber

/-- What keeps its exact value stands for what it stood for. -/
theorem Stands.of_keeps {expr result : Expr} (isExpr : expr.Stands names dtype among value)
    (extend : ∀ inner, among inner → env.Extends names inner) (kept : expr.Keeps names env result) :
    result.Stands names dtype among value :=
  ⟨isExpr.within.dtype_eq ▸ kept.within, fun inner isAmong =>
    kept.evaluates inner (extend inner isAmong) _ (isExpr.evaluates inner isAmong)⟩

end Expr

namespace Flattening

/-! ### One step -/

/-- The division of sums is exact, and bounds contain the exact values of expressions in every
environment that differs in the given variables alone. -/
structure Setting.Right (names : List Variable) (env : Environment) (setting : Setting) : Prop where
  divide : setting.divide.Exact
  bound : SumForm.BoundedIn (env.Extends names) setting.bound

/-- With this much fuel, whatever has a result keeps exact values. -/
structure Sound (names : List Variable) (env : Environment) (setting : Setting) (fuel : Nat) :
    Prop where
  flatten : ∀ expr result, expr.Within names expr.dtype →
    flatten? setting fuel expr = some result → expr.Keeps names env result
  flattenChildren : ∀ expr result, expr.Within names expr.dtype →
    flattenChildren? setting fuel expr = some result → expr.Keeps names env result
  sumOf : ∀ dtype among value expr sum, dtype.IsIndex →
    (∀ inner, among inner → env.Extends names inner) → expr.Stands names dtype among value →
    sumOf? setting fuel expr = some sum → sum.Stands names dtype among value
  binarySum : ∀ dtype among value op lhs rhs sum, dtype.IsIndex →
    (∀ inner, among inner → env.Extends names inner) →
    (Expr.binary dtype op lhs rhs).Stands names dtype among value →
    binarySum? setting fuel op lhs rhs = some (some sum) → sum.Stands names dtype among value
  recombine : ∀ dtype among value sum result, dtype.IsIndex →
    (∀ inner, among inner → env.Extends names inner) → sum.Stands names dtype among value →
    recombine? setting fuel sum = some (some result) → result.Stands names dtype among value

variable {setting : Setting} {fuel : Nat}

theorem sound_zero : Sound names env setting 0 where
  flatten _ _ _ flattened := by cases flattened
  flattenChildren _ _ _ flattened := by cases flattened
  sumOf _ _ _ _ _ _ _ _ isSum := by cases isSum
  binarySum _ _ _ _ _ _ _ _ _ _ isSum := by cases isSum
  recombine _ _ _ _ _ _ _ _ recombined := by cases recombined

theorem Sound.flattenChildren_succ (sound : Sound names env setting fuel) {expr result : Expr}
    (within : expr.Within names expr.dtype)
    (flattened : flattenChildren? setting (fuel + 1) expr = some result) :
    expr.Keeps names env result := by
  obtain ⟨children, areChildren, rfl⟩ := Option.map_eq_some_iff.mp flattened
  have related := (List.forall₂_and_left expr.children children).mpr
    ⟨fun child isChild => within.child isChild, forall₂_of_mapM areChildren⟩
  exact Expr.keeps_withChildren within (related.imp fun child result found =>
    sound.flatten child result found.1 found.2)

/-- What is no sum is an atom with its operands flattened. -/
theorem Sound.leaf (sound : Sound names env setting fuel) {expr : Expr}
    (extend : ∀ inner, among inner → env.Extends names inner)
    (isExpr : expr.Stands names dtype among value) {result : SumForm}
    (isLeaf : (flattenChildren? setting fuel expr).map .ofLeaf = some result) :
    result.Stands names dtype among value := by
  obtain ⟨leaf, flattened, rfl⟩ := Option.map_eq_some_iff.mp isLeaf
  have within := isExpr.within
  rw [← isExpr.within.dtype_eq] at within
  have stands := isExpr.of_keeps extend (sound.flattenChildren expr leaf within flattened)
  have isAtom : (Atom.leaf leaf).Within names dtype :=
    ⟨stands.within, fun _ _ _ equal => by cases equal⟩
  rw [SumForm.ofLeaf, stands.within.dtype_eq]
  exact (SumForm.stands_ofAtom isAtom fun inner isAmong => ⟨_, stands.evaluates inner isAmong⟩).congr
    fun inner isAmong => Expr.intAt_eq (stands.evaluates inner isAmong)

theorem Sound.sumOf_succ (sound : Sound names env setting fuel) (index : dtype.IsIndex)
    (extend : ∀ inner, among inner → env.Extends names inner) {expr : Expr}
    (isExpr : expr.Stands names dtype among value) {result : SumForm}
    (isSum : sumOf? setting (fuel + 1) expr = some result) :
    result.Stands names dtype among value := by
  have isIndex : dtype.isInteger && dtype.isScalar := by
    simp [index.isInteger, DataType.isScalar, index.scalar]
  have isType := isExpr.within.dtype_eq
  unfold sumOf? at isSum
  split at isSum
  next dtype' number =>
    rw [Expr.dtype] at isType
    subst isType
    rw [if_pos isIndex] at isSum
    cases isSum
    refine (SumForm.stands_ofInt number).congr fun inner isAmong => ?_
    cases isExpr.evaluates inner isAmong
    rfl
  next dtype' op lhs rhs =>
    rw [Expr.dtype] at isType
    subst isType
    rw [if_pos isIndex] at isSum
    obtain ⟨sum?, isSum?, isSum⟩ := Option.bind_eq_some_iff.mp isSum
    split at isSum
    next sum =>
      have stands := sound.binarySum _ _ _ op lhs rhs sum index extend isExpr isSum?
      obtain ⟨recombined?, isRecombined, isSum⟩ := Option.bind_eq_some_iff.mp isSum
      split at isSum
      next =>
        cases isSum
        exact sound.recombine _ _ _ sum _ index extend stands isRecombined
      next => exact sound.leaf extend isExpr isSum
    next => exact sound.leaf extend isExpr isSum
  next => exact sound.leaf extend isExpr isSum

theorem Sound.binarySum_succ (sound : Sound names env setting fuel)
    (right : setting.Right names env) (index : dtype.IsIndex)
    (extend : ∀ inner, among inner → env.Extends names inner) {op : BinaryOp} {lhs rhs : Expr}
    (isExpr : (Expr.binary dtype op lhs rhs).Stands names dtype among value) {result : SumForm}
    (isSum : binarySum? setting (fuel + 1) op lhs rhs = some (some result)) :
    result.Stands names dtype among value := by
  -- the sum forms of both operands, for the operators that are computed on sum forms
  have operands (arithmetic : op.opClass = .arithmetic) {compute : SumForm → SumForm → Option SumForm}
      (computed : ((sumOf? setting fuel lhs).bind fun left =>
        (sumOf? setting fuel rhs).bind fun right => some (compute left right)) = some (some result)) :
      ∃ left right, compute left right = some result ∧
        left.Stands names dtype among (fun inner => lhs.intAt inner) ∧
        right.Stands names dtype among (fun inner => rhs.intAt inner) := by
    obtain ⟨isLeft, isRight, -⟩ := isExpr.operands index arithmetic extend
    obtain ⟨left, leftSum, computed⟩ := Option.bind_eq_some_iff.mp computed
    obtain ⟨right, rightSum, equal⟩ := Option.bind_eq_some_iff.mp computed
    exact ⟨left, right, Option.some.inj equal,
      sound.sumOf _ _ _ lhs left index extend isLeft leftSum,
      sound.sumOf _ _ _ rhs right index extend isRight rightSum⟩
  unfold binarySum? at isSum
  split at isSum
  next =>
    obtain ⟨-, -, computes⟩ := isExpr.operands index rfl extend
    obtain ⟨left, right, added, isLeft, isRight⟩ := operands rfl isSum
    exact (isLeft.add isRight added).congr fun inner isAmong =>
      Option.some.inj (computes inner isAmong)
  next =>
    obtain ⟨-, -, computes⟩ := isExpr.operands index rfl extend
    obtain ⟨left, right, subtracted, isLeft, isRight⟩ := operands rfl isSum
    exact (isLeft.sub isRight subtracted).congr fun inner isAmong =>
      Option.some.inj (computes inner isAmong)
  next =>
    obtain ⟨-, -, computes⟩ := isExpr.operands index rfl extend
    obtain ⟨left, right, multiplied, isLeft, isRight⟩ := operands rfl isSum
    exact (isLeft.mul isRight multiplied).congr fun inner isAmong =>
      Option.some.inj (computes inner isAmong)
  next =>
    split at isSum
    next kind divisor isKind isDivisor =>
      split at isSum
      next => cases isSum
      next nonzero =>
        obtain ⟨dividend, dividendSum, equal⟩ := Option.bind_eq_some_iff.mp isSum
        obtain rfl := Split.op_of_ofOp? isKind
        obtain ⟨isLeft, isRight, computes⟩ := isExpr.operands index kind.opClass_op extend
        have isConst : rhs = .intConst dtype divisor := by
          have isType := isRight.within.dtype_eq
          cases rhs <;> cases isDivisor
          rw [← isType]
          rfl
        subst isConst
        have typed := isRight.within.typed
        rw [Expr.WellTyped] at typed
        have stands := sound.sumOf _ _ _ lhs dividend index extend isLeft dividendSum
        refine (stands.split index right.divide (fun inner isAmong => right.bound inner
          (extend inner isAmong)) nonzero typed.2.2.2 (Option.some.inj equal)).congr
          fun inner isAmong => ?_
        have computed := computes inner isAmong
        rw [show Expr.intAt inner (.intConst dtype divisor) = divisor from rfl,
          kind.onLane_op nonzero] at computed
        exact Option.some.inj computed
    next => cases isSum

theorem Sound.recombine_succ (sound : Sound names env setting fuel) (index : dtype.IsIndex)
    (extend : ∀ inner, among inner → env.Extends names inner) {sum result : SumForm}
    (isSum : sum.Stands names dtype among value)
    (recombined : recombine? setting (fuel + 1) sum = some (some result)) :
    result.Stands names dtype among value := by
  unfold recombine? at recombined
  split at recombined
  next =>
    cases recombined
    exact isSum
  next pair found =>
    obtain ⟨isDividend, isRest⟩ := isSum.withoutPair found
    obtain ⟨dividend, dividendSum, recombined⟩ := Option.bind_eq_some_iff.mp recombined
    split at recombined
    next together isSome =>
      obtain ⟨multiple, scaled, added⟩ := Option.bind_eq_some_iff.mp isSome
      have stands := sound.sumOf _ _ _ _ dividend index extend isDividend dividendSum
      refine sound.recombine _ _ _ together _ index extend ?_ recombined
      exact (isRest.add (stands.scale scaled) added).congr fun inner _ => sub_add_cancel _ _
    next => cases recombined

theorem Sound.flatten_succ (sound : Sound names env setting fuel) (right : setting.Right names env)
    {expr result : Expr} (within : expr.Within names expr.dtype)
    (flattened : flatten? setting (fuel + 1) expr = some result) : expr.Keeps names env result := by
  -- the environments in which the expression has an exact value
  let among (inner : Environment) : Prop :=
    env.Extends names inner ∧ ∃ value, expr.evalExact inner = some value
  have extend : ∀ inner, among inner → env.Extends names inner := fun _ isAmong => isAmong.1
  unfold flatten? at flattened
  split at flattened
  next dtype op lhs rhs =>
    replace within : (Expr.binary dtype op lhs rhs).Within names dtype := within
    have typed := within.typed
    rw [Expr.WellTyped] at typed
    split at flattened
    next isComparison =>
      simp only [isScalarComparison, Bool.and_eq_true] at isComparison
      have comparison : op.opClass = .comparison := by
        simpa [BinaryOp.isComparison] using isComparison.1.1
      have index : lhs.dtype.IsIndex :=
        ⟨typed.1.valid, isComparison.1.2, Expr.lanes_eq_one_of_isScalar isComparison.2⟩
      obtain ⟨isLeft, isRight, computes⟩ := within.operands index extend fun _ isAmong => isAmong.2
      obtain ⟨left, leftSum, flattened⟩ := Option.bind_eq_some_iff.mp flattened
      obtain ⟨right', rightSum, flattened⟩ := Option.bind_eq_some_iff.mp flattened
      split at flattened
      next rebuilt isSome =>
        cases flattened
        obtain ⟨difference, subtracted, compared⟩ := Option.bind_eq_some_iff.mp isSome
        have decides := ((sound.sumOf _ _ _ lhs left index extend isLeft leftSum).sub
          (sound.sumOf _ _ _ rhs right' index extend isRight rightSum) subtracted).comparison index
            right.divide compared
        have isBool : dtype = .bool := by
          rw [typed.2.2.2.1, Expr.binaryType, if_pos isComparison.1.1, index.scalar]
          rfl
        refine ⟨isBool ▸ decides.within, fun inner isInner value evaluated => ?_⟩
        have isAmong : among inner := ⟨isInner, value, evaluated⟩
        rw [decides.evaluates inner isAmong, ← evaluated, computes inner isAmong,
          Scalar.binaryInt?_comparison comparison, BinaryOp.compares_sub]
      next => exact sound.flattenChildren _ result within flattened
    next =>
      split at flattened
      next isScalarSum =>
        simp only [Flattening.isScalarSum, Bool.and_eq_true] at isScalarSum
        have index : dtype.IsIndex := ⟨within.typed.valid, isScalarSum.1.1,
          Expr.lanes_eq_one_of_isScalar isScalarSum.1.2⟩
        have isExpr := within.stands index extend fun _ isAmong => isAmong.2
        obtain ⟨sum, isSum, flattened⟩ := Option.bind_eq_some_iff.mp flattened
        split at flattened
        next rebuilt isSome =>
          cases flattened
          have stands := (sound.sumOf _ _ _ _ sum index extend isExpr isSum).expr index isSome
          refine ⟨stands.within, fun inner isInner value evaluated => ?_⟩
          have isAmong : among inner := ⟨isInner, value, evaluated⟩
          rw [stands.evaluates inner isAmong, ← evaluated, isExpr.evaluates inner isAmong]
        next => exact sound.flattenChildren _ result within flattened
      next => exact sound.flattenChildren _ result within flattened
  next => exact sound.flattenChildren _ result within flattened

/-! ### Every depth of the recursion -/

/-- Flattening keeps exact values with any fuel. -/
theorem Setting.Right.sound (right : setting.Right names env) (fuel : Nat) :
    Sound names env setting fuel := by
  induction fuel with
  | zero => exact sound_zero
  | succ fuel sound =>
    exact {
      flatten := fun expr result within => sound.flatten_succ right within
      flattenChildren := fun expr result within => sound.flattenChildren_succ within
      sumOf := fun dtype among value expr sum index extend isExpr =>
        sound.sumOf_succ index extend isExpr
      binarySum := fun dtype among value op lhs rhs sum index extend isExpr =>
        sound.binarySum_succ right index extend isExpr
      recombine := fun dtype among value sum result index extend isSum =>
        sound.recombine_succ index extend isSum }

/-! ### Right answers -/

/-- The answer is right: the quotient is exact, or the bound contains the exact values that the
expression has in every environment that differs in the given variables alone. -/
def Setting.RightAt (names : List Variable) (env : Environment) (setting : Setting) : Query → Prop
  | .quotient sum divisor =>
    ∀ quotient, setting.divide sum divisor = some quotient → sum.IsQuotient divisor quotient
  | .bound expr =>
    ∀ inner number, env.Extends names inner → expr.WellTyped →
      expr.evalExact inner = some (.int number) → (setting.bound expr).contains number

/-- The answer is right whatever the environment: the quotient is exact, or the bound contains
everything. -/
def Setting.isRightAt (setting : Setting) : Query → Bool
  | .quotient sum divisor =>
    (setting.divide sum divisor).all fun quotient => sum.IsQuotient divisor quotient
  | .bound expr => setting.bound expr = .everything

theorem Setting.rightAt_of_isRightAt {query : Query} (right : setting.isRightAt query = true) :
    setting.RightAt names env query := by
  cases query with
  | quotient sum divisor =>
    intro quotient divided
    simpa [isRightAt, divided] using right
  | bound expr =>
    intro inner number _ _ _
    rw [of_decide_eq_true right]
    exact Bound.contains_everything number

open Classical in
/-- The setting with the answers that are right, and with no quotient or the bound that contains
everything for the others. -/
noncomputable def Setting.righted (names : List Variable) (env : Environment) (setting : Setting) :
    Setting where
  bound expr := if setting.RightAt names env (.bound expr) then setting.bound expr else .everything
  divide sum divisor := (setting.divide sum divisor).filter fun quotient =>
    sum.IsQuotient divisor quotient
  maxTerms := setting.maxTerms

theorem Setting.right_righted : (setting.righted names env).Right names env where
  divide _ _ _ divided := of_decide_eq_true (Option.filter_eq_some_iff.mp divided).2
  bound inner isInner expr number typed evaluated := by
    unfold righted
    dsimp only
    split
    next right => exact right inner number isInner typed evaluated
    next => exact Bound.contains_everything number

theorem Setting.RightAt.sameAt {query : Query} (right : setting.RightAt names env query) :
    (setting.righted names env).SameAt setting query := by
  cases query with
  | quotient sum divisor =>
    unfold Setting.SameAt Setting.righted
    dsimp only
    cases divided : setting.divide sum divisor with
    | none => rfl
    | some quotient => exact if_pos (decide_eq_true (right quotient divided))
  | bound expr => exact if_pos right

theorem Setting.determined_righted (fuel : Nat) :
    Determined setting (setting.righted names env) fuel :=
  determined (show (setting.righted names env).maxTerms = setting.maxTerms from rfl) fuel

/-- An expression that is flattened with right answers keeps its exact value. -/
theorem keeps_of_rightAt {fuel : Nat} {expr result : Expr} (within : expr.Within names expr.dtype)
    (right : ∀ query ∈ flattenQueries setting fuel expr, setting.RightAt names env query)
    (flattened : flatten? setting fuel expr = some result) : expr.Keeps names env result := by
  rw [← (Setting.determined_righted fuel).flatten expr fun query member =>
    (right query member).sameAt] at flattened
  exact (Setting.right_righted.sound fuel).flatten expr result within flattened

/-- The expression that flattening gives has the exact value of the original, if the answers are right
with the fuel that is enough. -/
theorem evalExact_flatten {expr : Expr} {result : Value} (typed : expr.WellTyped) (kinded : env.Kinded)
    (right : ∀ query ∈ flattenQueries setting (fuelFor setting expr) expr,
      setting.RightAt expr.binders env query)
    (evaluated : expr.evalExact env = some result) :
    (flatten setting expr).evalExact env = some result := by
  unfold flatten
  cases flattened : flatten? setting (fuelFor setting expr) expr with
  | none => exact evaluated
  | some result' =>
    exact (keeps_of_rightAt ⟨typed, rfl, fun _ member => member⟩ right flattened).evaluates env
      (.refl kinded) result evaluated

end Flattening

/-- The sum is made of well-typed atoms that have exact values, and it has the value. -/
def SumForm.EvaluatesTo (names : List Variable) (dtype : DataType) (env : Environment)
    (number : Int) (sum : SumForm) : Prop :=
  sum.Stands names dtype (fun inner => inner = env) fun _ => number

namespace Flattening

/-- A well-typed expression that is flattened keeps its exact value, if the quotients and bounds that are
asked for on the way are right. A sum form has the value of its expression, a quotient or remainder of a
sum is that of its value, a sum put together again has the value of the sum, and a comparison of a
difference with zero keeps its truth, each if the answers to what it asks are right. All answers are, if
each quotient that is given is exact and each bound contains the exact values of its expression. -/
theorem flatten_exact {setting : Setting} {expr : Expr} {env : Environment}
    (typed : expr.WellTyped) (kinded : env.Kinded) :
    ((∀ query ∈ flattenQueries setting (fuelFor setting expr) expr,
        setting.RightAt expr.binders env query) →
      ∀ value, expr.evalExact env = some value →
        (flatten setting expr).evalExact env = some value) ∧
    (∀ fuel sum number, expr.dtype.isInteger = true → expr.dtype.lanes = 1 →
      (∀ query ∈ sumQueries setting fuel expr, setting.RightAt expr.binders env query) →
      sumOf? setting fuel expr = some sum → expr.evalExact env = some (.int number) →
      sum.EvaluatesTo expr.binders expr.dtype env number) ∧
    ∀ dtype sum number, dtype.IsIndex → sum.EvaluatesTo expr.binders dtype env number →
      (∀ kind divisor result, divisor ≠ 0 → dtype.fits divisor = true →
        (∀ query ∈ splitQueries setting kind divisor sum, setting.RightAt expr.binders env query) →
        sum.split? setting.divide setting.bound kind divisor = some result →
        result.EvaluatesTo expr.binders dtype env (kind.apply number divisor)) ∧
      (∀ fuel result,
        (∀ query ∈ recombineQueries setting fuel sum, setting.RightAt expr.binders env query) →
        recombine? setting fuel sum = some (some result) →
        result.EvaluatesTo expr.binders dtype env number) ∧
      ∀ op built,
        (∀ query ∈ comparisonQueries op sum, setting.RightAt expr.binders env query) →
        sum.comparison? setting.divide op = some built →
        built.evalExact env = some (.bool (op.compares number 0)) := by
  have within : expr.Within expr.binders expr.dtype := ⟨typed, rfl, fun _ member => member⟩
  have extend : ∀ inner, inner = env → env.Extends expr.binders inner := by
    rintro _ rfl
    exact .refl kinded
  have righted : (setting.righted expr.binders env).Right expr.binders env := Setting.right_righted
  have same {queries : List Query} (right : ∀ query ∈ queries, setting.RightAt expr.binders env query) :
      ∀ query ∈ queries, (setting.righted expr.binders env).SameAt setting query :=
    fun query member => (right query member).sameAt
  refine ⟨fun right _ => evalExact_flatten typed kinded right,
    fun fuel sum number isInteger scalar right isSum evaluated => ?_,
    fun dtype sum number index isSum => ⟨fun kind divisor result nonzero fits right divided => ?_,
      fun fuel result right recombined => ?_, fun op built right compared => ?_⟩⟩
  · rw [← (Setting.determined_righted fuel).sumOf expr (same right)] at isSum
    refine (righted.sound fuel).sumOf _ _ _ expr sum ⟨typed.valid, isInteger, scalar⟩ extend
      ⟨within, ?_⟩ isSum
    rintro _ rfl
    exact evaluated
  · rw [← split?_congr (same right)] at divided
    exact isSum.split index righted.divide
      (fun inner isAmong => righted.bound inner (extend inner isAmong)) nonzero fits divided
  · rw [← (Setting.determined_righted fuel).recombine sum (same right)] at recombined
    exact (righted.sound fuel).recombine _ _ _ sum result index extend isSum recombined
  · rw [← comparison?_congr (same right)] at compared
    exact (isSum.comparison index righted.divide compared).evaluates env rfl

/-- A quotient and its remainder are put together: the sum of `x` and `y` by eight times eight, `y`
and the remainder are `x + 2 * y`. -/
theorem flatten_exact_remainder :
    let first : Variable := ⟨"x", .int32, false⟩
    let second : Variable := ⟨"y", .int32, false⟩
    let node := Expr.binary .int32
    let eight := Expr.intConst .int32 8
    let expr := node .add
      (node .add (node .mul (node .floorDiv (node .add first.expr second.expr) eight) eight)
        second.expr)
      (node .floorMod (node .add second.expr first.expr) eight)
    let setting := ({} : Analyzer).flattening
    let env := (Environment.empty.set first (.int 3)).set second (.int 5)
    (∀ query ∈ flattenQueries setting (fuelFor setting expr) expr,
      setting.RightAt expr.binders env query) ∧
      flatten setting expr = node .add first.expr (node .mul second.expr (.intConst .int32 2)) ∧
      (flatten setting expr).evalExact env = some (.int 13) := by
  intro first second node eight expr setting env
  have kinded : env.Kinded := by
    intro name value isValue
    obtain ⟨rfl, rfl⟩ | ⟨rfl, rfl⟩ := Environment.cases_of_set_set isValue
    · exact Value.kinded_int 5 rfl rfl
    · exact Value.kinded_int 3 rfl rfl
  have isRight : ∀ query ∈ flattenQueries setting (fuelFor setting expr) expr,
      setting.isRightAt query = true := by
    decide +kernel
  have right : ∀ query ∈ flattenQueries setting (fuelFor setting expr) expr,
      setting.RightAt expr.binders env query :=
    fun query member => Setting.rightAt_of_isRightAt (isRight query member)
  exact ⟨right, by decide +kernel, (flatten_exact (by decide) kinded).1 right (.int 13) rfl⟩

end Flattening

namespace Analyzer

/-- An analyzer that flattens an expression keeps its exact value, if what it divides is divided exactly
and what it bounds lies in the bounds. -/
theorem evalExact_flatten {analyzer : Analyzer} {expr : Expr} {value : Value} (typed : expr.WellTyped)
    (kinded : env.Kinded)
    (right : ∀ query ∈ Flattening.flattenQueries analyzer.flattening
        (Flattening.fuelFor analyzer.flattening expr) expr,
      analyzer.flattening.RightAt expr.binders env query)
    (evaluated : expr.evalExact env = some value) :
    (analyzer.flatten expr).evalExact env = some value :=
  Flattening.evalExact_flatten typed kinded right evaluated

end Analyzer

end IndexAlgebra
