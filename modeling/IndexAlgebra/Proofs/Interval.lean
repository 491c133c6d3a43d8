/-
This file proves that the operations on symbolic intervals surround what the operators give. Every
end is a scalar integer with a meaning of its own, and each operator combines the ends on the sides
that it should, so that an end of the result needs only the ends that it is built from to be right.
Right analyses are assumed: ends keep their meaning when they are simplified, and lie within their
bounds.
-/
import IndexAlgebra.Analyzer.Intervals
import IndexAlgebra.Proofs.Meaning
import IndexAlgebra.Proofs.RuleForms

namespace IndexAlgebra

/-! ### Ends -/

namespace Expr

variable {env : Environment}

/-- The expression is a scalar of integer type that means the integer. -/
structure IsEnd (env : Environment) (expr : Expr) (number : Int) : Prop where
  means : expr.Means env (.int number)
  isInteger : expr.dtype.isInteger = true
  scalar : expr.dtype.lanes = 1

theorem IsEnd.unique {expr : Expr} {number other : Int} (isEnd : expr.IsEnd env number)
    (isEnd' : expr.IsEnd env other) : number = other :=
  Value.int.inj (isEnd.means.unique isEnd'.means)

/-- The constant of the type of an end is an end. -/
theorem isEnd_ofInt {dtype : DataType} (isInteger : dtype.isInteger = true) (scalar : dtype.lanes = 1)
    (number : Int) : (ofInt dtype number).IsEnd env number := by
  rw [ofInt_of_scalar scalar isInteger]
  exact ⟨means_intConst dtype number, isInteger, scalar⟩

theorem IsEnd.retype? {dtype : DataType} {expr retyped : Expr} {number : Int}
    (isEnd : expr.IsEnd env number) (isInteger : dtype.isInteger = true) (scalar : dtype.lanes = 1)
    (retypes : expr.retype? dtype = some retyped) : retyped.IsEnd env number := by
  have notFloat := DataType.isFloat_of_isInteger isInteger
  cases expr with
  | intConst own value =>
    have same : value = number := Value.int.inj (Option.some.inj isEnd.means.evaluates)
    rw [Expr.retype?, retypeScalar?, Option.ite_none_right_eq_some, Option.some.injEq] at retypes
    · obtain ⟨-, rfl⟩ := retypes
      exact same ▸ isEnd_ofInt isInteger scalar value
    · exact fun _ _ _ => Expr.noConfusion
  | floatConst own value => cases isEnd.means.evaluates
  | broadcast own value count =>
    obtain ⟨operand, -, equal⟩ := evaluate_broadcast_eq_some.mp isEnd.means.evaluates
    cases equal
  | _ => cases retypes

/-- Operands that are given one type stay the ends that they are. -/
theorem isEnd_unify {lhs rhs : Expr} {left right : Int} (isLeft : lhs.IsEnd env left)
    (isRight : rhs.IsEnd env right) :
    (unify lhs rhs).1.IsEnd env left ∧ (unify lhs rhs).2.IsEnd env right := by
  have retypedLeft :
      let operands := ((Expr.retype? rhs.dtype lhs).map fun lhs => (lhs, rhs)).getD (lhs, rhs)
      operands.1.IsEnd env left ∧ operands.2.IsEnd env right := by
    cases retypes : Expr.retype? rhs.dtype lhs with
    | none => exact ⟨isLeft, isRight⟩
    | some retyped => exact ⟨isLeft.retype? isRight.isInteger isRight.scalar retypes, isRight⟩
  unfold unify
  dsimp only
  split
  next => exact ⟨isLeft, isRight⟩
  next =>
    split
    next retyped retypes =>
      split
      next => exact ⟨isLeft, isRight.retype? isLeft.isInteger isLeft.scalar retypes⟩
      next => exact retypedLeft
    next => exact retypedLeft

/-- An arithmetic operator on two ends builds an end. -/
theorem IsEnd.binary? {op : BinaryOp} {lhs rhs built : Expr} {left right number : Int}
    (arithmetic : op.opClass = .arithmetic) (isLeft : lhs.IsEnd env left)
    (isRight : rhs.IsEnd env right) (computed : op.onLane left right = some number)
    (builds : binary? op lhs rhs = some built) : built.IsEnd env number := by
  obtain ⟨-, rfl, -⟩ := binary?_unify builds
  obtain ⟨left', right'⟩ := isEnd_unify isLeft isRight
  have isType : binaryType op (unify lhs rhs).1.dtype = (unify lhs rhs).1.dtype :=
    binaryType_of_arithmetic arithmetic
  rw [isType]
  exact ⟨means_binary arithmetic left'.means right'.means left'.isInteger right'.isInteger
    left'.scalar computed, left'.isInteger, left'.scalar⟩

end Expr

/-! ### Intervals around a number -/

/-- If the end is there, it means an integer with the property. -/
def EndHolds (env : Environment) (end? : Option Expr) (holds : Int → Prop) : Prop :=
  ∀ expr, end? = some expr → ∃ number, expr.IsEnd env number ∧ holds number

theorem EndHolds.mono {env : Environment} {end? : Option Expr} {first second : Int → Prop}
    (isEnd : EndHolds env end? first) (weaker : ∀ number, first number → second number) :
    EndHolds env end? second := fun expr isSome =>
  let ⟨number, means, holds⟩ := isEnd expr isSome
  ⟨number, means, weaker number holds⟩

theorem endHolds_none (env : Environment) (holds : Int → Prop) : EndHolds env none holds :=
  fun _ isSome => nomatch isSome

theorem endHolds_some {env : Environment} {expr : Expr} {number : Int} {holds : Int → Prop}
    (isEnd : expr.IsEnd env number) (isTrue : holds number) : EndHolds env (some expr) holds :=
  fun _ isSome => Option.some.inj isSome ▸ ⟨number, isEnd, isTrue⟩

namespace Interval

/-- Every end that the interval has is one, and the integer is between them. -/
structure Surrounds (interval : Interval) (env : Environment) (number : Int) : Prop where
  lower : EndHolds env interval.lower (· ≤ number)
  upper : EndHolds env interval.upper (number ≤ ·)

variable {env : Environment} {interval left right : Interval} {number first second : Int}

theorem surrounds_everything (env : Environment) (number : Int) : everything.Surrounds env number :=
  ⟨endHolds_none env _, endHolds_none env _⟩

theorem surrounds_between {lower upper : Expr} {least greatest : Int}
    (isLower : lower.IsEnd env least) (isUpper : upper.IsEnd env greatest) (low : least ≤ number)
    (high : number ≤ greatest) : (between lower upper).Surrounds env number :=
  ⟨endHolds_some isLower low, endHolds_some isUpper high⟩

theorem surrounds_point {expr : Expr} (isEnd : expr.IsEnd env number) :
    (point expr).Surrounds env number :=
  surrounds_between isEnd isEnd (Int.le_refl number) (Int.le_refl number)

/-- The only integer that a point surrounds is the one that it means. -/
theorem Surrounds.isEnd {expr : Expr} (surrounds : interval.Surrounds env number)
    (isPoint : interval.asPoint? = some expr) : expr.IsEnd env number := by
  obtain ⟨lower, upper⟩ := interval
  unfold asPoint? at isPoint
  split at isPoint
  next low high isLower isUpper =>
    rw [Option.ite_none_right_eq_some, Option.some.injEq] at isPoint
    obtain ⟨rfl, rfl⟩ := isPoint
    obtain ⟨least, isLeast, atLeast⟩ := surrounds.lower low isLower
    obtain ⟨greatest, isGreatest, atMost⟩ := surrounds.upper low isUpper
    have single := isLeast.unique isGreatest
    have same : least = number := by omega
    exact same ▸ isLeast
  next => cases isPoint

/-! ### One end of an interval -/

/-- An interval ends on two sides. -/
inductive Side where
  | lower
  | upper
  deriving DecidableEq

def Side.other : Side → Side
  | .lower => .upper
  | .upper => .lower

def Side.both : List Side := [.lower, .upper]

theorem Side.mem_both (side : Side) : side ∈ both := by cases side <;> decide

/-- The end on the side. -/
def endOn (interval : Interval) : Side → Option Expr
  | .lower => interval.lower
  | .upper => interval.upper

/-- An end on the side does not cut the integer off. -/
def Side.Allows : Side → Int → Int → Prop
  | .lower, number, limit => limit ≤ number
  | .upper, number, limit => number ≤ limit

/-- If the interval has an end on the side, it is one that does not cut the integer off. -/
def SurroundsOn (interval : Interval) (env : Environment) (side : Side) (number : Int) : Prop :=
  EndHolds env (interval.endOn side) (side.Allows number)

theorem Surrounds.on (surrounds : interval.Surrounds env number) (side : Side) :
    interval.SurroundsOn env side number := by
  cases side with
  | lower => exact surrounds.lower
  | upper => exact surrounds.upper

theorem surrounds_of_both
    (surrounds : ∀ side ∈ Side.both, interval.SurroundsOn env side number) :
    interval.Surrounds env number :=
  ⟨surrounds .lower (Side.mem_both _), surrounds .upper (Side.mem_both _)⟩

/-! ### Right analyses -/

namespace Analyses

/-- The analyses are right in the environment: an expression in a simpler form has the type and the
meaning of the expression, and the integers that it means are in its bound. -/
structure SoundIn (analyses : Analyses) (env : Environment) : Prop where
  reduce : ∀ expr value, expr.Means env value → (analyses.reduce expr).Means env value
  dtype_reduce : ∀ expr value, expr.Means env value → (analyses.reduce expr).dtype = expr.dtype
  bound : ∀ expr value, expr.Means env value →
    ∀ number ∈ value.ints, (analyses.bound expr).contains number = true

end Analyses

section

variable {analyses : Analyses} (sound : analyses.SoundIn env)

include sound

theorem contains_bound {expr : Expr} (isEnd : expr.IsEnd env number) :
    (analyses.bound expr).contains number = true :=
  sound.bound expr _ isEnd.means number (by simp)

/-- An arithmetic operator combines two ends to an end. -/
theorem isEnd_combine {op : BinaryOp} {lhs rhs built : Expr} (arithmetic : op.opClass = .arithmetic)
    (isLeft : lhs.IsEnd env first) (isRight : rhs.IsEnd env second)
    (computed : op.onLane first second = some number)
    (builds : analyses.combine op lhs rhs = some built) : built.IsEnd env number := by
  obtain ⟨node, isNode, rfl⟩ := Option.map_eq_some_iff.mp builds
  have isEnd := isLeft.binary? arithmetic isRight computed isNode
  have sameType := sound.dtype_reduce node _ isEnd.means
  exact ⟨sound.reduce node _ isEnd.means, sameType ▸ isEnd.isInteger, sameType ▸ isEnd.scalar⟩

variable {op : BinaryOp} {side : Side} {first? second? : Option Expr} {below above result : Int → Prop}

/-- The combination of two ends that are both known. -/
theorem endHolds_ifBoth (arithmetic : op.opClass = .arithmetic) (isFirst : EndHolds env first? below)
    (isSecond : EndHolds env second? above)
    (computed : ∀ first second, below first → above second →
      ∃ number, op.onLane first second = some number ∧ result number) :
    EndHolds env (ifBoth analyses.combine op first? second?) result := by
  intro expr isSome
  obtain ⟨lhs, isLhs, isSome⟩ := Option.bind_eq_some_iff.mp isSome
  obtain ⟨rhs, isRhs, isSome⟩ := Option.bind_eq_some_iff.mp isSome
  obtain ⟨first, firstEnd, isBelow⟩ := isFirst lhs isLhs
  obtain ⟨second, secondEnd, isAbove⟩ := isSecond rhs isRhs
  obtain ⟨number, isNumber, holds⟩ := computed first second isBelow isAbove
  exact ⟨number, isEnd_combine sound arithmetic firstEnd secondEnd isNumber isSome, holds⟩

/-- The combination of two ends, or the one that is known. -/
theorem endHolds_ifEither (arithmetic : op.opClass = .arithmetic)
    (isFirst : EndHolds env first? below) (isSecond : EndHolds env second? above)
    (ofFirst : ∀ number, below number → result number)
    (ofSecond : ∀ number, above number → result number)
    (computed : ∀ first second, below first → above second →
      ∃ number, op.onLane first second = some number ∧ result number) :
    EndHolds env (ifEither analyses.combine op first? second?) result := by
  cases first? with
  | none =>
    cases second? with
    | none => exact endHolds_none env result
    | some rhs => exact isSecond.mono ofSecond
  | some lhs =>
    cases second? with
    | none => exact isFirst.mono ofFirst
    | some rhs => exact endHolds_ifBoth sound arithmetic isFirst isSecond computed

/-- The combination of an end with one factor. -/
theorem endHolds_combine {factor : Expr} (arithmetic : op.opClass = .arithmetic)
    (isFactor : factor.IsEnd env second) (isEnd : EndHolds env first? below)
    (computed : ∀ first, below first → ∃ number, op.onLane first second = some number ∧ result number) :
    EndHolds env (first?.bind (analyses.combine op · factor)) result := by
  intro expr isSome
  obtain ⟨lhs, isLhs, isSome⟩ := Option.bind_eq_some_iff.mp isSome
  obtain ⟨first, firstEnd, isBelow⟩ := isEnd lhs isLhs
  obtain ⟨number, isNumber, holds⟩ := computed first isBelow
  exact ⟨number, isEnd_combine sound arithmetic firstEnd isFactor isNumber isSome, holds⟩

/-! ### Sums, minima and maxima -/

theorem surroundsOn_add (isLeft : left.SurroundsOn env side first)
    (isRight : right.SurroundsOn env side second) :
    (left.add analyses.combine right).SurroundsOn env side (first + second) := by
  cases side with
  | lower =>
    exact endHolds_ifBoth sound rfl isLeft isRight fun _ _ low low' =>
      ⟨_, rfl, Int.add_le_add low low'⟩
  | upper =>
    exact endHolds_ifBoth sound rfl isLeft isRight fun _ _ high high' =>
      ⟨_, rfl, Int.add_le_add high high'⟩

theorem surroundsOn_sub (isLeft : left.SurroundsOn env side first)
    (isRight : right.SurroundsOn env side.other second) :
    (left.sub analyses.combine right).SurroundsOn env side (first - second) := by
  cases side with
  | lower =>
    exact endHolds_ifBoth sound rfl isLeft isRight fun _ _ low high =>
      ⟨_, rfl, Int.sub_le_sub low high⟩
  | upper =>
    exact endHolds_ifBoth sound rfl isLeft isRight fun _ _ high low =>
      ⟨_, rfl, Int.sub_le_sub high low⟩

theorem surroundsOn_minimum (isLeft : left.SurroundsOn env side first)
    (isRight : right.SurroundsOn env side second) :
    (left.minimum analyses.combine right).SurroundsOn env side (min first second) := by
  cases side with
  | lower =>
    exact endHolds_ifBoth sound rfl isLeft isRight fun _ _ low low' =>
      ⟨_, rfl, min_le_min low low'⟩
  | upper =>
    exact endHolds_ifEither sound rfl isLeft isRight
      (fun _ high => (min_le_left first second).trans high)
      (fun _ high => (min_le_right first second).trans high)
      fun _ _ high high' => ⟨_, rfl, min_le_min high high'⟩

theorem surroundsOn_maximum (isLeft : left.SurroundsOn env side first)
    (isRight : right.SurroundsOn env side second) :
    (left.maximum analyses.combine right).SurroundsOn env side (max first second) := by
  cases side with
  | lower =>
    exact endHolds_ifEither sound rfl isLeft isRight
      (fun _ low => low.trans (le_max_left first second))
      (fun _ low => low.trans (le_max_right first second))
      fun _ _ low low' => ⟨_, rfl, max_le_max low low'⟩
  | upper =>
    exact endHolds_ifBoth sound rfl isLeft isRight fun _ _ high high' =>
      ⟨_, rfl, max_le_max high high'⟩

/-- The smallest interval around two surrounds what either of them does. -/
theorem surroundsOn_union (isLeft : left.SurroundsOn env side first)
    (isRight : right.SurroundsOn env side second) (isEither : number = first ∨ number = second) :
    (left.union analyses.combine right).SurroundsOn env side number := by
  cases side with
  | lower =>
    have low : min first second ≤ number := by omega
    exact endHolds_ifBoth sound rfl isLeft isRight fun _ _ atLeast atLeast' =>
      ⟨_, rfl, (min_le_min atLeast atLeast').trans low⟩
  | upper =>
    have high : number ≤ max first second := by omega
    exact endHolds_ifBoth sound rfl isLeft isRight fun _ _ atMost atMost' =>
      ⟨_, rfl, high.trans (max_le_max atMost atMost')⟩

/-! ### Products, quotients and remainders -/

theorem surrounds_single {lhs rhs : Expr} (arithmetic : op.opClass = .arithmetic)
    (isLeft : lhs.IsEnd env first) (isRight : rhs.IsEnd env second)
    (computed : op.onLane first second = some number) :
    (analyses.single op lhs rhs).Surrounds env number := by
  unfold Analyses.single
  split
  next built builds =>
    exact surrounds_point (isEnd_combine sound arithmetic isLeft isRight computed builds)
  next => exact surrounds_everything env number

end

/-- The factor moves values in the direction. -/
def Direction.IsOf : Direction → Int → Prop
  | .kept, factor => 0 ≤ factor
  | .turned, factor => factor ≤ 0

/-- What a direction tells about the factor. -/
theorem sign_of_direction {bound : Bound} {isQuotient : Bool} {direction : Direction} {factor : Int}
    (member : bound.contains factor = true)
    (isDirection : Direction.of? bound isQuotient = some direction) :
    (isQuotient = true → factor ≠ 0) ∧ direction.IsOf factor := by
  unfold Direction.of? at isDirection
  split at isDirection
  next isPositive =>
    cases isDirection
    have positive := Bound.pos_of_isPositive isPositive member
    exact ⟨fun _ => positive.ne', positive.le⟩
  next =>
    split at isDirection
    next isNegative =>
      cases isDirection
      have negative := Bound.neg_of_isNegative isNegative member
      exact ⟨fun _ => negative.ne, negative.le⟩
    next =>
      split at isDirection
      next => cases isDirection
      next notQuotient =>
        refine ⟨fun isQuotient => absurd isQuotient notQuotient, ?_⟩
        split at isDirection
        next isNonNegative =>
          cases isDirection
          exact Bound.nonneg_of_isNonNegative isNonNegative member
        next =>
          rw [Option.ite_none_right_eq_some, Option.some.injEq] at isDirection
          obtain ⟨isNonPositive, rfl⟩ := isDirection
          exact Bound.nonpos_of_isNonPositive isNonPositive member

/-- The operator multiplies by its right operand or divides by it. -/
def Scales (op : BinaryOp) : Prop := op = .mul ∨ op = .truncDiv ∨ op = .floorDiv

theorem arithmetic_of_scales {op : BinaryOp} (scales : Scales op) : op.opClass = .arithmetic := by
  rcases scales with rfl | rfl | rfl <;> rfl

/-- What every value becomes that is scaled by a factor, which is not zero if it is a divisor. -/
theorem onLane_of_scales {op : BinaryOp} (scales : Scales op) {factor : Int}
    (nonzero : op ≠ .mul → factor ≠ 0) :
    (∀ value, op.onLane value factor = some (value * factor)) ∨
      factor ≠ 0 ∧ ∃ floor, ∀ value, op.onLane value factor =
        some (Limit.divideInts floor value factor) := by
  rcases scales with rfl | rfl | rfl
  · exact .inl fun _ => rfl
  · exact .inr ⟨nonzero (by decide), false, fun _ => if_neg (nonzero (by decide))⟩
  · exact .inr ⟨nonzero (by decide), true, fun _ => if_neg (nonzero (by decide))⟩

/-- A factor that is not negative keeps the order of the values that it scales. -/
theorem onLane_mono {op : BinaryOp} (scales : Scales op) {factor low high scaledLow scaledHigh : Int}
    (nonzero : op ≠ .mul → factor ≠ 0) (nonneg : 0 ≤ factor) (ordered : low ≤ high)
    (isLow : op.onLane low factor = some scaledLow)
    (isHigh : op.onLane high factor = some scaledHigh) : scaledLow ≤ scaledHigh := by
  rcases onLane_of_scales scales nonzero with isProduct | ⟨nonzero, floor, isQuotient⟩
  · rw [isProduct, Option.some.injEq] at isLow isHigh
    subst isLow isHigh
    exact Int.mul_le_mul_of_nonneg_right ordered nonneg
  · rw [isQuotient, Option.some.injEq] at isLow isHigh
    subst isLow isHigh
    exact Limit.divideInts_mono floor (by omega) ordered

/-- A factor that is not positive turns the order of the values around that it scales. -/
theorem onLane_antitone {op : BinaryOp} (scales : Scales op)
    {factor low high scaledLow scaledHigh : Int} (nonzero : op ≠ .mul → factor ≠ 0)
    (nonpos : factor ≤ 0) (ordered : low ≤ high) (isLow : op.onLane low factor = some scaledLow)
    (isHigh : op.onLane high factor = some scaledHigh) : scaledHigh ≤ scaledLow := by
  rcases onLane_of_scales scales nonzero with isProduct | ⟨nonzero, floor, isQuotient⟩
  · rw [isProduct, Option.some.injEq] at isLow isHigh
    subst isLow isHigh
    exact Int.mul_le_mul_of_nonpos_right ordered nonpos
  · rw [isQuotient, Option.some.injEq] at isLow isHigh
    subst isLow isHigh
    rw [← Limit.divideInts_neg_neg, ← Limit.divideInts_neg_neg floor low]
    exact Limit.divideInts_mono floor (by omega) (Int.neg_le_neg ordered)

theorem exists_onLane_of_scales {op : BinaryOp} (scales : Scales op) {factor : Int}
    (nonzero : op ≠ .mul → factor ≠ 0) (value : Int) : ∃ scaled, op.onLane value factor = some scaled := by
  rcases onLane_of_scales scales nonzero with isProduct | ⟨-, floor, isQuotient⟩
  · exact ⟨_, isProduct value⟩
  · exact ⟨_, isQuotient value⟩

/-- The side that the direction moves to the given one. -/
def Direction.source : Direction → Side → Side
  | .kept, side => side
  | .turned, side => side.other

/-- The sides of an interval that a side of the scaled interval is built from. -/
def Analyses.scaledSides (analyses : Analyses) (op : BinaryOp) (interval : Interval) (factor : Expr)
    (side : Side) : List Side :=
  if interval.asPoint?.isSome then Side.both
  else
    match Direction.of? (analyses.bound factor) (op != .mul) with
    | some direction => [direction.source side]
    | none => []

/-- A limit of a value is scaled to a limit of the scaled value, on the side that the direction says. -/
theorem allows_onLane {op : BinaryOp} (scales : Scales op) {direction : Direction} {side : Side}
    {factor value limit scaledValue scaledLimit : Int} (nonzero : op ≠ .mul → factor ≠ 0)
    (sign : direction.IsOf factor) (allows : (direction.source side).Allows value limit)
    (isValue : op.onLane value factor = some scaledValue)
    (isLimit : op.onLane limit factor = some scaledLimit) : side.Allows scaledValue scaledLimit := by
  cases direction with
  | kept =>
    cases side with
    | lower => exact onLane_mono scales nonzero sign allows isLimit isValue
    | upper => exact onLane_mono scales nonzero sign allows isValue isLimit
  | turned =>
    cases side with
    | lower => exact onLane_antitone scales nonzero sign allows isValue isLimit
    | upper => exact onLane_antitone scales nonzero sign allows isLimit isValue

section

variable {analyses : Analyses} (sound : analyses.SoundIn env) {op : BinaryOp} {side : Side}

include sound

theorem surroundsOn_scale (scales : Scales op) {factor : Expr}
    (surrounds : ∀ used ∈ analyses.scaledSides op interval factor side,
      interval.SurroundsOn env used first)
    (isFactor : factor.IsEnd env second) (computed : op.onLane first second = some number) :
    (analyses.scale op interval factor).SurroundsOn env side number := by
  have arithmetic := arithmetic_of_scales scales
  unfold Analyses.scaledSides at surrounds
  unfold Analyses.scale
  cases isPoint : interval.asPoint? with
  | some value =>
    rw [isPoint, Option.isSome_some, if_pos rfl] at surrounds
    have isEnd := (surrounds_of_both surrounds).isEnd isPoint
    exact (surrounds_single sound arithmetic isEnd isFactor computed).on side
  | none =>
    rw [isPoint, if_neg (by simp)] at surrounds
    dsimp only at surrounds ⊢
    cases isDirection : Direction.of? (analyses.bound factor) (op != .mul) with
    | none => exact (surrounds_everything env number).on side
    | some direction =>
      rw [isDirection] at surrounds
      obtain ⟨divisor, sign⟩ := sign_of_direction (contains_bound sound isFactor) isDirection
      have nonzero : op ≠ .mul → second ≠ 0 := fun notProduct => divisor (by simpa using notProduct)
      have isScaled := endHolds_combine sound arithmetic isFactor
        (surrounds (direction.source side) (List.mem_singleton_self _)) fun limit allows =>
          (exists_onLane_of_scales scales nonzero limit).imp fun scaledLimit isLimit =>
            ⟨isLimit, allows_onLane scales nonzero sign allows computed isLimit⟩
      cases direction <;> cases side <;> exact isScaled

end

/-- The operator is a remainder. -/
def Remains (op : BinaryOp) : Prop := op = .truncMod ∨ op = .floorMod

/-- The quotient that goes with a remainder. -/
def division (op : BinaryOp) : BinaryOp := if op == .floorMod then .floorDiv else .truncDiv

theorem onLane_of_remains {op : BinaryOp} (remains : Remains op) {divisor : Int}
    (nonzero : divisor ≠ 0) (value : Int) :
    op.onLane value divisor =
      some (value - divisor * Limit.divideInts (op == .floorMod) value divisor) := by
  rcases remains with rfl | rfl
  · exact (if_neg nonzero).trans (congrArg some (Int.tmod_def value divisor))
  · exact (if_neg nonzero).trans (congrArg some (Int.fmod_def value divisor))

theorem onLane_division {op : BinaryOp} (remains : Remains op) {divisor : Int}
    (nonzero : divisor ≠ 0) (value : Int) :
    (division op).onLane value divisor =
      some (Limit.divideInts (op == .floorMod) value divisor) := by
  rcases remains with rfl | rfl <;> exact if_neg nonzero

/-- A remainder by a divisor above zero is smaller than the divisor, and not negative if it is
rounded down or the dividend is not negative. -/
theorem remainder_spec {op : BinaryOp} (remains : Remains op) {value divisor : Int}
    (positive : 0 < divisor) (computed : op.onLane value divisor = some number) :
    -divisor < number ∧ number < divisor ∧ ((op == .floorMod) = true ∨ 0 ≤ value → 0 ≤ number) := by
  rcases remains with rfl | rfl
  · rw [BinaryOp.onLane, if_neg positive.ne', Option.some.injEq] at computed
    obtain ⟨nonneg, -, small, -⟩ := Bound.tmod_spec value positive.ne'
    rw [computed] at nonneg small
    exact ⟨by omega, by omega, fun isNonneg => nonneg (isNonneg.resolve_left (by decide))⟩
  · rw [BinaryOp.onLane, if_neg positive.ne', Option.some.injEq] at computed
    obtain ⟨nonneg, small, -⟩ := Bound.fmod_spec value positive
    rw [computed] at nonneg small
    exact ⟨by omega, small, fun _ => nonneg⟩

theorem exists_of_staysInPeriod {analyses : Analyses} {op : BinaryOp} {divisor : Expr}
    (stays : analyses.staysInPeriod op interval divisor = true) :
    ∃ lower upper, interval.lower = some lower ∧ interval.upper = some upper ∧
      analyses.haveSameQuotient (division op) lower upper divisor = true := by
  unfold Analyses.staysInPeriod at stays
  dsimp only at stays
  split at stays
  next lower upper isLower isUpper => exact ⟨lower, upper, isLower, isUpper, stays⟩
  next => cases stays

/-- The sides of an interval that a side of the remainders is built from. Where the quotient may change,
an end depends on the divisor alone, but for zero as the lower end of truncated remainders: that they are
not negative is seen from the lower end of the dividend. -/
def Analyses.remainderSides (analyses : Analyses) (op : BinaryOp) (interval : Interval) (divisor : Expr)
    (side : Side) : List Side :=
  let notNegative := analyses.remainsNonNegative op interval
  if interval.asPoint?.isSome || notNegative && analyses.staysInPeriod op interval divisor then Side.both
  else if notNegative && op == .truncMod && side = .lower then [.lower]
  else []

/-- The remainders grow with the dividend as long as the quotient stays the same. -/
theorem remainder_mono (floor : Bool) {low middle high divisor : Int} (positive : 0 < divisor)
    (isLow : low ≤ middle) (isHigh : middle ≤ high)
    (same : Limit.divideInts floor high divisor = Limit.divideInts floor low divisor) :
    low - divisor * Limit.divideInts floor low divisor ≤
        middle - divisor * Limit.divideInts floor middle divisor ∧
      middle - divisor * Limit.divideInts floor middle divisor ≤
        high - divisor * Limit.divideInts floor high divisor := by
  have least := Limit.divideInts_mono floor positive isLow
  have greatest := Limit.divideInts_mono floor positive isHigh
  have between : Limit.divideInts floor middle divisor = Limit.divideInts floor low divisor := by
    omega
  rw [same, between]
  omega

section

variable {analyses : Analyses} (sound : analyses.SoundIn env) {op : BinaryOp}

include sound

/-- Two ends with the same quotient have it. -/
theorem divideInts_eq_of_haveSameQuotient (remains : Remains op) {lower upper divisor : Expr}
    {least greatest : Int} (isLower : lower.IsEnd env least) (isUpper : upper.IsEnd env greatest)
    (isDivisor : divisor.IsEnd env second) (nonzero : second ≠ 0)
    (same : analyses.haveSameQuotient (division op) lower upper divisor = true) :
    Limit.divideInts (op == .floorMod) greatest second =
      Limit.divideInts (op == .floorMod) least second := by
  have arithmetic : (division op).opClass = .arithmetic := by
    rcases remains with rfl | rfl <;> rfl
  unfold Analyses.haveSameQuotient at same
  dsimp only at same
  split at same
  next difference isDifference =>
    obtain ⟨most, isMost, isDifference⟩ := Option.bind_eq_some_iff.mp isDifference
    obtain ⟨last, isLast, isDifference⟩ := Option.bind_eq_some_iff.mp isDifference
    have mostEnd := isUpper.binary? arithmetic isDivisor (onLane_division remains nonzero _) isMost
    have lastEnd := isLower.binary? arithmetic isDivisor (onLane_division remains nonzero _) isLast
    have isEnd := isEnd_combine sound rfl mostEnd lastEnd rfl isDifference
    obtain ⟨dtype, rfl⟩ := Expr.isInt_iff.mp same
    have isZero := isEnd.unique ⟨Expr.means_intConst dtype 0, isEnd.isInteger, isEnd.scalar⟩
    omega
  next => cases same

theorem nonneg_of_remainsNonNegative
    (surrounds : op ≠ .floorMod → interval.SurroundsOn env .lower first)
    (notNegative : analyses.remainsNonNegative op interval = true) :
    (op == .floorMod) = true ∨ 0 ≤ first := by
  unfold Analyses.remainsNonNegative at notNegative
  refine or_iff_not_imp_left.mpr fun truncated => ?_
  have excluded := (Bool.or_eq_true_iff.mp notNegative).resolve_left truncated
  split at excluded
  next lower isLower =>
    obtain ⟨least, isLeast, atLeast⟩ := surrounds (by simpa using truncated) lower isLower
    have member := contains_bound sound isLeast
    rcases Bool.or_eq_true_iff.mp excluded with isPositive | isNonNegative
    · exact (Bound.pos_of_isPositive isPositive member).le.trans atLeast
    · exact (Bound.nonneg_of_isNonNegative (Bool.and_eq_true_iff.mp isNonNegative).1 member).trans
        atLeast
  next => cases excluded

theorem surroundsOn_remainder (remains : Remains op) {divisor : Expr}
    (surrounds : ∀ used ∈ analyses.remainderSides op interval divisor side,
      interval.SurroundsOn env used first)
    (isDivisor : divisor.IsEnd env second) (computed : op.onLane first second = some number) :
    (analyses.remainder op interval divisor).SurroundsOn env side number := by
  have arithmetic : op.opClass = .arithmetic := by rcases remains with rfl | rfl <;> rfl
  unfold Analyses.remainderSides at surrounds
  dsimp only at surrounds
  unfold Analyses.remainder
  split
  next value isPoint =>
    rw [isPoint, Option.isSome_some, Bool.true_or, if_pos rfl] at surrounds
    have isEnd := (surrounds_of_both surrounds).isEnd isPoint
    exact (surrounds_single sound arithmetic isEnd isDivisor computed).on side
  next notPoint =>
    rw [notPoint, Option.isSome_none, Bool.false_or] at surrounds
    split
    next => exact (surrounds_everything env number).on side
    next isPositive =>
      have positive : 0 < second := Bound.pos_of_isPositive (by simpa using isPositive)
        (contains_bound sound isDivisor)
      dsimp only
      have remainderOf := onLane_of_remains remains positive.ne'
      obtain ⟨aboveLow, belowHigh, notNegative⟩ := remainder_spec remains positive computed
      split
      next monotonic =>
        rw [if_pos monotonic] at surrounds
        obtain ⟨lower, upper, isLower, isUpper, same⟩ :=
          exists_of_staysInPeriod (Bool.and_eq_true_iff.mp monotonic).2
        obtain ⟨least, isLeast, atLeast⟩ := surrounds .lower (Side.mem_both _) lower isLower
        obtain ⟨greatest, isGreatest, atMost⟩ := surrounds .upper (Side.mem_both _) upper isUpper
        have ordered := remainder_mono _ positive atLeast atMost
          (divideInts_eq_of_haveSameQuotient sound remains isLeast isGreatest isDivisor
            positive.ne' same)
        have isNumber := Option.some.inj (computed.symm.trans (remainderOf first))
        rw [← isNumber] at ordered
        cases side with
        | lower =>
          have lowerEnd : EndHolds env interval.lower (· = least) :=
            isLower ▸ endHolds_some isLeast rfl
          exact endHolds_combine sound arithmetic isDivisor lowerEnd fun value isValue =>
            ⟨_, remainderOf value, isValue ▸ ordered.1⟩
        | upper =>
          have upperEnd : EndHolds env interval.upper (· = greatest) :=
            isUpper ▸ endHolds_some isGreatest rfl
          exact endHolds_combine sound arithmetic isDivisor upperEnd fun value isValue =>
            ⟨_, remainderOf value, isValue ▸ ordered.2⟩
      next notMonotonic =>
        rw [if_neg notMonotonic] at surrounds
        have ofInt (value : Int) : (Expr.ofInt divisor.dtype value).IsEnd env value :=
          Expr.isEnd_ofInt isDivisor.isInteger isDivisor.scalar value
        split
        next => exact (surrounds_everything env number).on side
        next top builds =>
          have isTop : top.IsEnd env (second - 1) :=
            isEnd_combine sound rfl isDivisor (ofInt 1) rfl builds
          cases side with
          | upper =>
            have below : number ≤ second - 1 := by omega
            split
            next => exact endHolds_some isTop below
            next => exact endHolds_some isTop below
          | lower =>
            split
            next nonneg =>
              have ofLower (truncated : op ≠ .floorMod) : interval.SurroundsOn env .lower first :=
                surrounds .lower (by rcases remains with rfl | rfl <;> simp [nonneg] at truncated ⊢)
              exact endHolds_some (ofInt 0)
                (notNegative (nonneg_of_remainsNonNegative sound ofLower nonneg))
            next =>
              exact fun bottom builds =>
                ⟨0 - (second - 1), isEnd_combine sound rfl (ofInt 0) isTop rfl builds,
                  show 0 - (second - 1) ≤ number by omega⟩

end

/-- The sides of the intervals of both operands that a side of the interval of a binary node is built
from. -/
def Analyses.operandSides (analyses : Analyses) (op : BinaryOp) (left right : Interval) (side : Side) :
    List Side × List Side :=
  match op with
  | .add | .min | .max => ([side], [side])
  | .sub => ([side], [side.other])
  | .mul =>
    match right.asPoint?, left.asPoint? with
    | some factor, _ => (analyses.scaledSides op left factor side, Side.both)
    | none, some factor => (Side.both, analyses.scaledSides op right factor side)
    | none, none => ([], [])
  | .truncDiv | .floorDiv =>
    match right.asPoint? with
    | some divisor => (analyses.scaledSides op left divisor side, Side.both)
    | none => ([], [])
  | .truncMod | .floorMod =>
    match right.asPoint? with
    | some divisor => (analyses.remainderSides op left divisor side, Side.both)
    | none => ([], [])
  | .eq | .ne | .lt | .le | .gt | .ge | .and | .or => ([], [])

/-- A side of the interval of a binary node surrounds what the operator gives for values that the
intervals of the operands surround on the sides that it is built from. -/
theorem surroundsOn_binary {analyses : Analyses} (sound : analyses.SoundIn env) {op : BinaryOp}
    {side : Side}
    (isLeft : ∀ used ∈ (analyses.operandSides op left right side).1, left.SurroundsOn env used first)
    (isRight : ∀ used ∈ (analyses.operandSides op left right side).2,
      right.SurroundsOn env used second)
    (computed : op.onLane first second = some number) :
    (analyses.binary op left right).SurroundsOn env side number := by
  unfold Analyses.operandSides at isLeft isRight
  unfold Analyses.binary
  cases op with
  | add =>
    cases computed
    exact surroundsOn_add sound (isLeft side (by simp)) (isRight side (by simp))
  | sub =>
    cases computed
    exact surroundsOn_sub sound (isLeft side (by simp)) (isRight side.other (by simp))
  | min =>
    cases computed
    exact surroundsOn_minimum sound (isLeft side (by simp)) (isRight side (by simp))
  | max =>
    cases computed
    exact surroundsOn_maximum sound (isLeft side (by simp)) (isRight side (by simp))
  | mul =>
    dsimp only at isLeft isRight ⊢
    split
    next factor _ isPoint =>
      rw [isPoint] at isLeft isRight
      exact surroundsOn_scale sound (.inl rfl) isLeft ((surrounds_of_both isRight).isEnd isPoint)
        computed
    next factor notPoint isPoint =>
      rw [notPoint, isPoint] at isLeft isRight
      rw [BinaryOp.onLane, Int.mul_comm] at computed
      exact surroundsOn_scale sound (.inl rfl) isRight ((surrounds_of_both isLeft).isEnd isPoint)
        computed
    next => exact (surrounds_everything env number).on side
  | truncDiv | floorDiv =>
    dsimp only at isLeft isRight ⊢
    split
    next divisor isPoint =>
      rw [isPoint] at isLeft isRight
      exact surroundsOn_scale sound (by simp [Scales]) isLeft
        ((surrounds_of_both isRight).isEnd isPoint) computed
    next => exact (surrounds_everything env number).on side
  | truncMod | floorMod =>
    dsimp only at isLeft isRight ⊢
    split
    next divisor isPoint =>
      rw [isPoint] at isLeft isRight
      exact surroundsOn_remainder sound (by simp [Remains]) isLeft
        ((surrounds_of_both isRight).isEnd isPoint) computed
    next => exact (surrounds_everything env number).on side
  | eq | ne | lt | le | gt | ge | and | or => exact (surrounds_everything env number).on side

/-! ### Ramps and conversions -/

theorem widensTo_iff {source target : DataType} :
    source.widensTo target = true ↔ source.isInteger = true ∧ target.isInteger = true ∧
      source.code = target.code ∧ source.bits ≤ target.bits := by
  simp [DataType.widensTo, and_assoc]

/-- A type of integers holds every integer that a narrower type of the same kind holds. -/
theorem fits_of_widens {source target : DataType} (widens : source.widensTo target = true)
    (fits : source.fits number = true) : target.fits number = true := by
  obtain ⟨isInteger, -, sameCode, wider⟩ := widensTo_iff.mp widens
  have word := Bound.word_of_fits (DataType.isFloat_of_isInteger isInteger) fits
  have half := Bound.twoPow_mono (show source.bits - 1 ≤ target.bits - 1 by omega)
  have whole := Bound.twoPow_mono wider
  unfold Word.Fits at word
  unfold DataType.fits DataType.minInt? DataType.maxInt? at fits ⊢
  rw [← sameCode]
  cases isCode : source.code with
  | int =>
    simp only [isCode, decide_eq_true_eq] at fits ⊢
    split
    next => exact word
    next narrow =>
      rw [if_neg (by omega), if_neg (by omega)] at fits
      omega
  | uint =>
    simp only [isCode, decide_eq_true_eq] at fits ⊢
    split
    next => exact ⟨fits.1, word.2⟩
    next narrow =>
      rw [if_neg (by omega)] at fits
      omega
  | float | bfloat | bool => simp [DataType.isInteger, DataType.isInt, DataType.isUint, isCode] at isInteger

/-- The offsets of a ramp surround the offset of each lane. -/
theorem surrounds_ofStride {stride : Expr} {lanes index : Nat} {step : Int} {offsets : Interval}
    (isStride : stride.IsEnd env step) (inRange : index < lanes)
    (isOffsets : ofStride? stride lanes = some offsets) :
    offsets.Surrounds env (index * step) := by
  obtain ⟨value, isConst, isOffsets⟩ := Option.bind_eq_some_iff.mp isOffsets
  obtain ⟨dtype, rfl⟩ := Expr.asInt?_eq_some.mp isConst
  have same : value = step :=
    isStride.unique ⟨Expr.means_intConst dtype value, isStride.isInteger, isStride.scalar⟩ |>.symm
  obtain ⟨span, isSpan, isOffsets⟩ := Option.bind_eq_some_iff.mp isOffsets
  obtain ⟨-, -, isOffsets⟩ := Option.bind_eq_some_iff.mp isOffsets
  obtain ⟨-, product⟩ := Word.ofInt?_eq_some_iff.mp isSpan
  have ofInt (number : Int) : (Expr.ofInt dtype number).IsEnd env number :=
    Expr.isEnd_ofInt isStride.isInteger isStride.scalar number
  have between : 0 ≤ index * step ∧ index * step ≤ span ∨
      span ≤ index * step ∧ index * step ≤ 0 := by
    have atLeast : (0 : Int) ≤ index := Int.natCast_nonneg index
    have atMost : (index : Int) ≤ lanes - 1 := by omega
    rw [← product, same, Int.mul_comm step]
    rcases Int.le_total 0 step with nonneg | nonpos
    · exact .inl ⟨Int.mul_nonneg atLeast nonneg, Int.mul_le_mul_of_nonneg_right atMost nonneg⟩
    · exact .inr ⟨Int.mul_le_mul_of_nonpos_right atMost nonpos,
        Int.mul_nonpos_of_nonneg_of_nonpos atLeast nonpos⟩
  split at isOffsets
  next nonneg =>
    cases isOffsets
    exact surrounds_between (ofInt 0) (ofInt span) (by omega) (by omega)
  next negative =>
    cases isOffsets
    exact surrounds_between (ofInt span) (ofInt 0) (by omega) (by omega)

/-- A converted end means what the end means. -/
def KeepsMeaning (env : Environment) : Expr → Prop
  | .cast dtype expr => ∀ number, expr.IsEnd env number → (Expr.cast dtype expr).Means env (.int number)
  | _ => True

/-- A converted end that has an exact value means what the end means if the type of the end can be
widened to the new one. -/
theorem keepsMeaning_of_widens {dtype : DataType} {expr : Expr}
    (widens : expr.dtype.widensTo dtype = true) (valid : dtype.Valid) (scalar : dtype.lanes = 1)
    (castsFit : (Expr.cast dtype expr).CastsFit env) : KeepsMeaning env (.cast dtype expr) := by
  intro number isEnd
  have fits : expr.dtype.fits number = true :=
    castsFit env dtype expr (.int number) .self isEnd.means.evaluates number (by simp)
  exact Expr.means_cast isEnd.means (widensTo_iff.mp widens).2.1 valid.1 scalar fits
    (fits_of_widens widens fits)

/-- If a conversion keeps the meaning of the end on a side, the converted interval surrounds on that side
the integers that the interval surrounds. -/
theorem surroundsOn_convert {source target : DataType} {side : Side}
    (surrounds : interval.SurroundsOn env side number)
    (kept : ∀ expr ∈ (interval.convert source target).endOn side, KeepsMeaning env expr) :
    (interval.convert source target).SurroundsOn env side number := by
  unfold convert at kept ⊢
  split
  next widens =>
    rw [if_pos widens] at kept
    have isConverted : (interval.mapEnds fun expr => some (.cast target.element expr)).endOn side =
        (interval.endOn side).bind fun expr => some (.cast target.element expr) := by
      cases side <;> rfl
    intro expr isSome
    have isKept := kept expr isSome
    rw [isConverted] at isSome
    obtain ⟨original, isOriginal, isCast⟩ := Option.bind_eq_some_iff.mp isSome
    cases isCast
    obtain ⟨limit, isEnd, allows⟩ := surrounds original isOriginal
    exact ⟨limit, ⟨isKept limit isEnd, (widensTo_iff.mp widens).2.1, rfl⟩, allows⟩
  next => exact (surrounds_everything env number).on side

end Interval

end IndexAlgebra
