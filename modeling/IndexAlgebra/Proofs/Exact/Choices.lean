/-
This file proves what the rules for choices do to the value of an expression. A choice has in every
lane what the branch has that its condition takes there, if it has a value at all. The rules keep what
is taken, and all but one keep that there is a value: a branch of a call, which evaluates no more than
what it takes, may come to stand in a node that evaluates both of its branches.
-/
import IndexAlgebra.Proofs.Exactness
import IndexAlgebra.Proofs.Fits.Conditions

namespace IndexAlgebra

/-! ### Lanes that are chosen -/

namespace Expr

theorem eq_bool_of_asBool? {value : Value} {truth : Bool} (isTruth : value.asBool? = some truth) :
    value = .bool truth := by
  cases value <;> cases isTruth
  rfl

/-- The lanes that are chosen are those of the branches that the conditions take. -/
theorem choose_lanes_iff {count : Nat} {conds taken refused lanes : List Value}
    (condCount : conds.length = count) (takenCount : taken.length = count)
    (refusedCount : refused.length = count) :
    (List.zip conds (List.zip taken refused)).mapM (fun lane => choose? lane.1 lane.2) = some lanes ↔
      lanes.length = count ∧ ∀ index < count, ∃ truth, conds[index]? = some (.bool truth) ∧
        lanes[index]? = (if truth then taken else refused)[index]? := by
  have zipped {index : Nat} (inConds : index < conds.length) (inTaken : index < taken.length)
      (inRefused : index < refused.length) :
      (List.zip conds (List.zip taken refused))[index]? =
        some (conds[index], taken[index], refused[index]) := by
    rw [List.getElem?_zip_eq_some, List.getElem?_zip_eq_some]
    exact ⟨List.getElem?_eq_getElem _, List.getElem?_eq_getElem _, List.getElem?_eq_getElem _⟩
  have branches (truth : Bool) {index : Nat} (inTaken : index < taken.length)
      (inRefused : index < refused.length) :
      (if truth then taken else refused)[index]? =
        some (if truth then taken[index] else refused[index]) := by
    cases truth
    · exact List.getElem?_eq_getElem _
    · exact List.getElem?_eq_getElem _
  constructor
  · intro equal
    have length : lanes.length = count := by
      rw [← (forall₂_of_mapM equal).length_eq, List.length_zip, List.length_zip]
      omega
    refine ⟨length, fun index inside => ?_⟩
    have inConds := condCount.symm ▸ inside
    have inTaken := takenCount.symm ▸ inside
    have inRefused := refusedCount.symm ▸ inside
    have chosen := getElem?_of_mapM equal index
    rw [zipped inConds inTaken inRefused, List.getElem?_eq_getElem (by omega), Option.bind_some] at chosen
    dsimp only at chosen
    obtain ⟨truth, isTruth, isLane⟩ := Option.map_eq_some_iff.mp chosen.symm
    refine ⟨truth, ?_, ?_⟩
    · rw [List.getElem?_eq_getElem inConds, eq_bool_of_asBool? isTruth]
    · rw [branches truth inTaken inRefused, List.getElem?_eq_getElem (by omega), ← isLane]
  · rintro ⟨length, chosen⟩
    refine mapM_eq_some_iff.mpr fun index => ?_
    by_cases inside : index < count
    · have inConds := condCount.symm ▸ inside
      have inTaken := takenCount.symm ▸ inside
      have inRefused := refusedCount.symm ▸ inside
      obtain ⟨truth, isTruth, isLane⟩ := chosen index inside
      rw [List.getElem?_eq_getElem inConds, Option.some.injEq] at isTruth
      rw [zipped inConds inTaken inRefused, isLane, branches truth inTaken inRefused, Option.map_some,
        Option.map_some, isTruth]
      rfl
    · rw [List.getElem?_eq_none (by rw [List.length_zip, List.length_zip]; omega),
        List.getElem?_eq_none (by omega)]
      rfl

/-! ### Values of choices -/

variable {check : RangeCheck} {env : Environment} {cond onTrue onFalse : Expr} {dtype : DataType}
  {value : Value}

/-- The value has in every lane what the branch has that the condition takes there. -/
structure Chooses (check : RangeCheck) (env : Environment) (dtype : DataType)
    (cond onTrue onFalse : Expr) (value : Value) :
    Prop where
  kinded : value.Kinded dtype
  taken : ∃ truths, cond.evaluate check env = some truths ∧ ∀ index < dtype.lanes, ∃ truth branch,
    (truths.toLanes dtype.lanes)[index]? = some (.bool truth) ∧
      (if truth then onTrue else onFalse).evaluate check env = some branch ∧
      (value.toLanes dtype.lanes)[index]? = (branch.toLanes dtype.lanes)[index]?

/-- A node has the value that is chosen if both of its branches have values. -/
theorem evaluate_select_iff (typed : (select dtype cond onTrue onFalse).WellTyped)
    (kinded : env.Kinded) :
    (select dtype cond onTrue onFalse).evaluate check env = some value ↔
      Chooses check env dtype cond onTrue onFalse value ∧
        (onTrue.evaluate check env).isSome = true ∧ (onFalse.evaluate check env).isSome = true := by
  have node := typed
  rw [WellTyped] at node
  obtain ⟨condTyped, trueTyped, falseTyped, -, same, rfl, count⟩ := node
  have lengths {truths taken refused : Value} (isCond : cond.evaluate check env = some truths)
      (isTrue : onTrue.evaluate check env = some taken)
      (isFalse : onFalse.evaluate check env = some refused) :
      (truths.toLanes onTrue.dtype.lanes).length = onTrue.dtype.lanes ∧
        (taken.toLanes onTrue.dtype.lanes).length = onTrue.dtype.lanes ∧
        (refused.toLanes onTrue.dtype.lanes).length = onTrue.dtype.lanes :=
    ⟨((evaluate_kinded condTyped kinded isCond).toLanes _ count).1,
      ((evaluate_kinded trueTyped kinded isTrue).toLanes _ (.inl rfl)).1,
      ((evaluate_kinded falseTyped kinded isFalse).toLanes _ (.inl (by rw [same]))).1⟩
  constructor
  · intro evaluated
    have isKinded : value.Kinded (select onTrue.dtype cond onTrue onFalse).dtype :=
      evaluate_kinded typed kinded evaluated
    rw [Expr.dtype] at isKinded
    obtain ⟨truths, taken, refused, lanes, isCond, isTrue, isFalse, equal, rfl⟩ :=
      evaluate_select_eq_some.mp evaluated
    obtain ⟨condCount, trueCount, falseCount⟩ := lengths isCond isTrue isFalse
    obtain ⟨length, chosen⟩ := (choose_lanes_iff condCount trueCount falseCount).mp equal
    refine ⟨⟨isKinded, truths, isCond, fun index inside => ?_⟩, ?_, ?_⟩
    · obtain ⟨truth, isTruth, isLane⟩ := chosen index inside
      rw [isKinded.toLanes_ofLanes length]
      cases truth
      · exact ⟨false, refused, isTruth, isFalse, isLane⟩
      · exact ⟨true, taken, isTruth, isTrue, isLane⟩
    · exact Option.isSome_of_eq_some isTrue
    · exact Option.isSome_of_eq_some isFalse
  · rintro ⟨⟨isKinded, truths, isCond, chosen⟩, hasTrue, hasFalse⟩
    obtain ⟨taken, isTrue⟩ := Option.isSome_iff_exists.mp hasTrue
    obtain ⟨refused, isFalse⟩ := Option.isSome_iff_exists.mp hasFalse
    obtain ⟨condCount, trueCount, falseCount⟩ := lengths isCond isTrue isFalse
    refine evaluate_select_eq_some.mpr ⟨truths, taken, refused, value.toLanes onTrue.dtype.lanes, isCond,
      isTrue, isFalse, (choose_lanes_iff condCount trueCount falseCount).mpr ?_,
      isKinded.ofLanes_toLanes⟩
    refine ⟨(isKinded.toLanes _ (.inl rfl)).1, fun index inside => ?_⟩
    obtain ⟨truth, branch, isTruth, isBranch, isLane⟩ := chosen index inside
    refine ⟨truth, isTruth, ?_⟩
    cases truth
    · cases isBranch.symm.trans isFalse
      exact isLane
    · cases isBranch.symm.trans isTrue
      exact isLane

/-- A call has the value that is chosen if it is scalar. -/
theorem evaluate_ifThenElse_iff (typed : (call dtype .ifThenElse [cond, onTrue, onFalse]).WellTyped)
    (kinded : env.Kinded) :
    (call dtype .ifThenElse [cond, onTrue, onFalse]).evaluate check env = some value ↔
      Chooses check env dtype cond onTrue onFalse value ∧ dtype.isScalar = true := by
  have node := typed
  rw [WellTyped, allWellTyped_iff] at node
  obtain ⟨argsTyped, -, isBool, trueType, falseType⟩ := node
  have branchKinded {truth : Bool} {branch : Value}
      (isBranch : (if truth then onTrue else onFalse).evaluate check env = some branch) :
      branch.Kinded dtype := by
    cases truth
    · exact falseType ▸ evaluate_kinded (argsTyped onFalse (by simp)) kinded isBranch
    · exact trueType ▸ evaluate_kinded (argsTyped onTrue (by simp)) kinded isBranch
  constructor
  · intro evaluated
    obtain ⟨scalar, truths, truth, isCond, isTruth, isBranch⟩ := evaluate_ifThenElse_eq_some.mp evaluated
    rw [← apply_ite (fun branch : Expr => branch.evaluate check env)] at isBranch
    cases eq_bool_of_asBool? isTruth
    refine ⟨⟨branchKinded isBranch, .bool truth, isCond, fun index inside => ?_⟩, scalar⟩
    refine ⟨truth, value, ?_, isBranch, rfl⟩
    exact List.getElem?_replicate_of_lt inside
  · rintro ⟨⟨isKinded, truths, isCond, chosen⟩, scalar⟩
    have one := lanes_eq_one_of_isScalar scalar
    obtain ⟨truth, branch, isTruth, isBranch, isLane⟩ := chosen 0 (by omega)
    have condKind := (evaluate_kinded (argsTyped cond (by simp)) kinded isCond).ofKind
      (by rw [isBool]; rfl)
    rw [one, condKind.toLanes_one] at isTruth
    rw [one, (isKinded.ofKind one).toLanes_one, ((branchKinded isBranch).ofKind one).toLanes_one]
      at isLane
    cases isTruth
    cases isLane
    refine evaluate_ifThenElse_eq_some.mpr ⟨scalar, _, truth, isCond, rfl, ?_⟩
    rw [← apply_ite (fun branch : Expr => branch.evaluate check env)]
    exact isBranch

namespace Chooses

/-- A branch that is taken in every lane has the value. -/
theorem evaluate_of_always (chooses : Chooses check env dtype cond onTrue onFalse value)
    (inhabited : 1 ≤ dtype.lanes)
    {taken : Expr} (kinded : ∀ branch, taken.evaluate check env = some branch → branch.Kinded dtype)
    (always : ∀ truths, cond.evaluate check env = some truths → ∀ (index : Nat) (truth : Bool),
      (truths.toLanes dtype.lanes)[index]? = some (.bool truth) →
        (if truth then onTrue else onFalse) = taken) : taken.evaluate check env = some value := by
  obtain ⟨isKinded, truths, isCond, chosen⟩ := chooses
  obtain ⟨truth, first, isTruth, isFirst, -⟩ := chosen 0 inhabited
  rw [always truths isCond 0 truth isTruth] at isFirst
  have firstKinded := kinded first isFirst
  suffices same : value.toLanes dtype.lanes = first.toLanes dtype.lanes by
    rw [isFirst, ← firstKinded.ofLanes_toLanes, ← same, isKinded.ofLanes_toLanes]
  refine List.ext_getElem? fun index => ?_
  by_cases inside : index < dtype.lanes
  · obtain ⟨truth, branch, isTruth, isBranch, isLane⟩ := chosen index inside
    rw [always truths isCond index truth isTruth, isFirst] at isBranch
    cases isBranch
    exact isLane
  · have valueCount := (isKinded.toLanes dtype.lanes (.inl rfl)).1
    have firstCount := (firstKinded.toLanes dtype.lanes (.inl rfl)).1
    rw [List.getElem?_eq_none (by omega), List.getElem?_eq_none (by omega)]

/-- Branches that have the same lanes where they are taken may stand for the branches. -/
theorem congr (chooses : Chooses check env dtype cond onTrue onFalse value) {taken refused : Expr}
    (same : ∀ truths, cond.evaluate check env = some truths → ∀ index truth branch,
      (truths.toLanes dtype.lanes)[index]? = some (.bool truth) → index < dtype.lanes →
      (if truth then onTrue else onFalse).evaluate check env = some branch →
        ∃ other, (if truth then taken else refused).evaluate check env = some other ∧
          (branch.toLanes dtype.lanes)[index]? = (other.toLanes dtype.lanes)[index]?) :
    Chooses check env dtype cond taken refused value := by
  obtain ⟨isKinded, truths, isCond, chosen⟩ := chooses
  refine ⟨isKinded, truths, isCond, fun index inside => ?_⟩
  obtain ⟨truth, branch, isTruth, isBranch, isLane⟩ := chosen index inside
  obtain ⟨other, isOther, sameLane⟩ := same truths isCond index truth branch isTruth inside isBranch
  exact ⟨truth, other, isTruth, isOther, isLane.trans sameLane⟩

variable {inner other : Expr}

/-- A choice under the same condition may be left out of the branch that is taken where it holds. -/
theorem of_onTrue (chooses : Chooses check env dtype cond onTrue onFalse value)
    (nested : ∀ branch, onTrue.evaluate check env = some branch →
      Chooses check env dtype cond inner other branch) :
    Chooses check env dtype cond inner onFalse value := by
  refine chooses.congr fun truths isCond index truth branch isTruth inside isBranch => ?_
  cases truth
  · exact ⟨branch, isBranch, rfl⟩
  · obtain ⟨-, truths', isCond', chosen⟩ := nested branch isBranch
    cases isCond.symm.trans isCond'
    obtain ⟨truth, taken, isTruth', isTaken, isLane⟩ := chosen index inside
    cases isTruth.symm.trans isTruth'
    exact ⟨taken, isTaken, isLane⟩

/-- A choice under the same condition may be left out of the branch that is taken where it fails. -/
theorem of_onFalse (chooses : Chooses check env dtype cond onTrue onFalse value)
    (nested : ∀ branch, onFalse.evaluate check env = some branch →
      Chooses check env dtype cond other inner branch) :
    Chooses check env dtype cond onTrue inner value := by
  refine chooses.congr fun truths isCond index truth branch isTruth inside isBranch => ?_
  cases truth
  · obtain ⟨-, truths', isCond', chosen⟩ := nested branch isBranch
    cases isCond.symm.trans isCond'
    obtain ⟨truth, taken, isTruth', isTaken, isLane⟩ := chosen index inside
    cases isTruth.symm.trans isTruth'
    exact ⟨taken, isTaken, isLane⟩
  · exact ⟨branch, isBranch, rfl⟩

end Chooses

/-! ### Lanes of choices -/

/-- The truth value in a lane of the value of a condition, which has one lane for every lane or one for
all of them. -/
def truthAt (check : RangeCheck) (env : Environment) (cond : Expr) (count index : Nat) :
    Option Bool := do
  let truths ← cond.evaluate check env
  let lane ← (truths.toLanes count)[index]?
  lane.asBool?

/-- A node has in every lane the integer of the branch that the condition takes there. -/
theorem WellTyped.valueIn_select {index : Nat} {number : Int}
    (typed : (select dtype cond onTrue onFalse).WellTyped) (kinded : env.Kinded)
    (isNumber : (select dtype cond onTrue onFalse).valueIn check env index = some number) :
    ∃ truth, truthAt check env cond dtype.lanes index = some truth ∧
      (if truth then onTrue else onFalse).valueIn check env index = some number := by
  obtain ⟨value, evaluated, lane, isLane, isInt⟩ := valueIn_eq_some.mp isNumber
  obtain ⟨⟨isKinded, truths, isCond, chosen⟩, -, -⟩ := (evaluate_select_iff typed kinded).mp evaluated
  rw [WellTyped] at typed
  obtain ⟨-, -, -, -, same, isType, -⟩ := typed
  rw [Expr.lanes, Expr.dtype] at isLane
  have inside : index < dtype.lanes := by
    rw [← (isKinded.toLanes dtype.lanes (.inl rfl)).1]
    exact (List.getElem?_eq_some_iff.mp isLane).1
  obtain ⟨truth, branch, isTruth, isBranch, sameLane⟩ := chosen index inside
  refine ⟨truth, by simp [truthAt, isCond, isTruth, Value.asBool?], valueIn_eq_some.mpr ?_⟩
  refine ⟨branch, isBranch, lane, ?_, isInt⟩
  have branchType : (if truth then onTrue else onFalse).dtype = dtype := by
    cases truth
    · exact same.symm.trans isType.symm
    · exact isType.symm
  rw [Expr.lanes, branchType, ← sameLane]
  exact isLane

variable {numbers left right : Nat → Option Int} {taken other built : Expr}

/-- The branches of a choice have its type. -/
theorem Yields.branches {selectType : DataType}
    (yields : Yields check env (select selectType cond onTrue onFalse) dtype numbers) :
    Yields check env onTrue dtype (onTrue.valueIn check env) ∧
      Yields check env onFalse dtype (onFalse.valueIn check env) := by
  obtain ⟨typed, isType, -⟩ := yields
  rw [Expr.dtype] at isType
  rw [WellTyped] at typed
  obtain ⟨-, trueTyped, falseTyped, -, same, trueType, -⟩ := typed
  have isTrue : onTrue.dtype = dtype := trueType.symm.trans isType
  exact ⟨⟨trueTyped, isTrue, fun _ _ => id⟩, ⟨falseTyped, same.symm.trans isTrue, fun _ _ => id⟩⟩

theorem Yields.valueIn_select {selectType : DataType} {index : Nat} {number : Int}
    (yields : Yields check env (select selectType cond onTrue onFalse) dtype numbers)
    (kinded : env.Kinded)
    (isNumber : (select selectType cond onTrue onFalse).valueIn check env index = some number) :
    ∃ truth, truthAt check env cond dtype.lanes index = some truth ∧
      (if truth then onTrue else onFalse).valueIn check env index = some number := by
  obtain ⟨typed, rfl, -⟩ := yields
  exact typed.valueIn_select kinded isNumber

/-- A choice by the condition of another one has in every lane what the condition takes there. -/
theorem Yields.select? {selectType : DataType}
    (yields : Yields check env (select selectType cond onTrue onFalse) dtype numbers)
    (kinded : env.Kinded)
    (isTaken : Yields check env taken dtype left) (isOther : Yields check env other dtype right)
    (builds : select? cond taken other = some built) :
    Yields check env built dtype fun index =>
      (truthAt check env cond dtype.lanes index).bind fun truth =>
        if truth then left index else right index := by
  obtain ⟨typed, isType, -⟩ := yields
  rw [Expr.dtype] at isType
  have same : taken.dtype = other.dtype := isTaken.isType.trans isOther.isType.symm
  have found := select?_eq_some builds
  rw [unify_of_eq same] at found
  obtain ⟨rfl, -⟩ := found
  rw [WellTyped] at typed
  obtain ⟨condTyped, -, -, isBool, -, trueType, fit⟩ := typed
  have resultTyped : (select taken.dtype cond taken other).WellTyped := by
    rw [WellTyped]
    refine ⟨condTyped, isTaken.typed, isOther.typed, isBool, same, rfl, ?_⟩
    have count : taken.lanes = onTrue.lanes :=
      congrArg DataType.lanes (isTaken.isType.trans (isType.symm.trans trueType))
    rwa [count]
  refine ⟨resultTyped, isTaken.isType, fun index number isNumber => ?_⟩
  obtain ⟨truth, isTruth, isBranch⟩ := resultTyped.valueIn_select kinded isNumber
  rw [isTaken.isType] at isTruth
  rw [isTruth]
  cases truth
  · exact isOther.only index number isBranch
  · exact isTaken.only index number isBranch

/-- The lanes of a negation are the opposite ones, also where they are repeated. -/
theorem WellTyped.toLanes_of_eval_not {notType : DataType} {truths : Value} {count : Nat}
    (typed : (not notType cond).WellTyped) (kinded : env.Kinded)
    (fit : notType.lanes = count ∨ notType.lanes = 1)
    (evaluated : (not notType cond).evaluate check env = some truths) :
    ∃ operand, cond.evaluate check env = some operand ∧ ∀ (index : Nat) (truth : Bool),
      (truths.toLanes count)[index]? = some (.bool truth) →
        (operand.toLanes count)[index]? = some (.bool !truth) := by
  have isKinded : truths.Kinded (not notType cond).dtype := evaluate_kinded typed kinded evaluated
  rw [Expr.dtype] at isKinded
  rw [WellTyped] at typed
  obtain ⟨condTyped, rfl, isBool⟩ := typed
  obtain ⟨operand, lanes, isOperand, equal, rfl⟩ := evaluate_not_eq_some.mp evaluated
  have operandKinded := evaluate_kinded condTyped kinded isOperand
  have length : lanes.length = cond.dtype.lanes := by
    rw [← (forall₂_of_mapM equal).length_eq]
    exact (operandKinded.toLanes _ (.inl rfl)).1
  have opposite {index : Nat} {truth : Bool} (isTruth : lanes[index]? = some (.bool truth)) :
      (operand.toLanes cond.dtype.lanes)[index]? = some (.bool !truth) := by
    rw [getElem?_of_mapM equal] at isTruth
    obtain ⟨lane, isLane, negated⟩ := Option.bind_eq_some_iff.mp isTruth
    obtain ⟨negative, isNegative, equal⟩ := Option.map_eq_some_iff.mp negated
    cases equal
    rw [isLane, eq_bool_of_asBool? isNegative, Bool.not_not]
  refine ⟨operand, isOperand, fun index truth isTruth => ?_⟩
  rcases fit with rfl | one
  · rw [isKinded.toLanes_ofLanes length] at isTruth
    exact opposite isTruth
  · obtain ⟨single, rfl⟩ := List.length_eq_one_iff.mp (length.trans one)
    have operandKind := operandKinded.ofKind one
    rw [one, operandKind.toLanes_one] at opposite
    rw [(isKinded.ofKind one).isLane.toLanes] at isTruth
    obtain ⟨inside, equal⟩ := List.getElem?_eq_some_iff.mp isTruth
    rw [List.length_replicate] at inside
    rw [List.getElem_replicate] at equal
    have isOpposite : [operand][0]? = some (.bool !truth) := opposite (congrArg some equal)
    cases Option.some.inj isOpposite
    rw [operandKind.isLane.toLanes, List.getElem?_replicate_of_lt inside]

end Expr

namespace Reduction.Choices

open IndexAlgebra.Expr

attribute [local simp] Option.bind_eq_some_iff Option.guard_eq_some'

variable {check : RangeCheck} {env : Environment} {expr result cond onTrue onFalse : Expr}
  {value : Value}

/-! ### Choices of either kind -/

/-- The parts of a well-typed choice. -/
structure IsChoice (expr cond onTrue onFalse : Expr) : Prop where
  found : asChoice? expr = some (cond, onTrue, onFalse)
  typed : expr.WellTyped
  condTyped : cond.WellTyped
  isBool : cond.dtype.isBool = true
  fit : cond.dtype.lanes = expr.dtype.lanes ∨ cond.dtype.lanes = 1
  trueTyped : onTrue.WellTyped
  falseTyped : onFalse.WellTyped
  trueType : onTrue.dtype = expr.dtype
  falseType : onFalse.dtype = expr.dtype

theorem isChoice_of_asChoice? (found : asChoice? expr = some (cond, onTrue, onFalse))
    (typed : expr.WellTyped) : IsChoice expr cond onTrue onFalse := by
  have node := typed
  rcases asChoice?_eq_some found with ⟨dtype, rfl⟩ | ⟨dtype, rfl⟩
  · rw [WellTyped] at node
    obtain ⟨condTyped, trueTyped, falseTyped, isBool, same, rfl, fit⟩ := node
    exact ⟨found, typed, condTyped, isBool, fit, trueTyped, falseTyped, rfl, same.symm⟩
  · rw [WellTyped, allWellTyped_iff] at node
    obtain ⟨argsTyped, -, isBool, trueType, falseType⟩ := node
    refine ⟨found, typed, argsTyped cond (by simp), by rw [isBool]; rfl, .inr (by rw [isBool]; rfl),
      argsTyped onTrue (by simp), argsTyped onFalse (by simp), trueType, falseType⟩

/-- Besides the branch that is taken, a node evaluates the other one, and a call has to be scalar. -/
def Proceeds (check : RangeCheck) (env : Environment) : Expr → Prop
  | .select _ _ onTrue onFalse =>
    (onTrue.evaluate check env).isSome = true ∧ (onFalse.evaluate check env).isSome = true
  | expr => expr.dtype.isScalar = true

/-- A choice has the value that is chosen if what else it evaluates has a value. -/
theorem IsChoice.evaluate_iff (choice : IsChoice expr cond onTrue onFalse) (kinded : env.Kinded) :
    expr.evaluate check env = some value ↔
      Chooses check env expr.dtype cond onTrue onFalse value ∧ Proceeds check env expr := by
  have typed := choice.typed
  rcases asChoice?_eq_some choice.found with ⟨dtype, rfl⟩ | ⟨dtype, rfl⟩
  · exact evaluate_select_iff typed kinded
  · exact evaluate_ifThenElse_iff typed kinded

theorem IsChoice.evaluate_of_always (choice : IsChoice expr cond onTrue onFalse) (kinded : env.Kinded)
    (evaluated : expr.evaluate check env = some value) {taken : Expr}
    (isTaken : taken = onTrue ∨ taken = onFalse)
    (always : ∀ truths, cond.evaluate check env = some truths → ∀ (index : Nat) (truth : Bool),
      (truths.toLanes expr.dtype.lanes)[index]? = some (.bool truth) →
        (if truth then onTrue else onFalse) = taken) : taken.evaluate check env = some value := by
  obtain ⟨chooses, -⟩ := (choice.evaluate_iff kinded).mp evaluated
  refine chooses.evaluate_of_always choice.typed.valid.2.2.1 (fun branch isBranch => ?_) always
  rcases isTaken with rfl | rfl
  · exact choice.trueType ▸ evaluate_kinded choice.trueTyped kinded isBranch
  · exact choice.falseType ▸ evaluate_kinded choice.falseTyped kinded isBranch

/-- A choice that is built of other branches has the same kind and the same type. It has a value if the
choice has one, and the new branches do where both of them are evaluated. -/
theorem IsChoice.rebuild? (choice : IsChoice expr cond onTrue onFalse) {cond' taken other : Expr}
    (condTyped : cond'.WellTyped) (condType : cond'.dtype = cond.dtype) (takenTyped : taken.WellTyped)
    (takenType : taken.dtype = expr.dtype) (otherTyped : other.WellTyped)
    (otherType : other.dtype = expr.dtype)
    (builds : rebuild? expr cond' taken other = some result) :
    IsChoice result cond' taken other ∧ result.dtype = expr.dtype ∧
      ∀ env, Proceeds check env expr →
        (∀ dtype resultType, expr = .select dtype cond onTrue onFalse →
          result = .select resultType cond' taken other →
            (taken.evaluate check env).isSome = true ∧ (other.evaluate check env).isSome = true) →
        Proceeds check env result := by
  have typed := choice.typed
  have fit := choice.fit
  have isBool := choice.isBool
  rcases asChoice?_eq_some choice.found with ⟨dtype, rfl⟩ | ⟨dtype, rfl⟩
  · have found := select?_eq_some builds
    rw [unify_of_eq (takenType.trans otherType.symm)] at found
    obtain ⟨rfl, -⟩ := found
    have resultTyped : (select taken.dtype cond' taken other).WellTyped := by
      rw [WellTyped, Expr.lanes, Expr.lanes, condType, takenType, otherType]
      exact ⟨condTyped, takenTyped, otherTyped, isBool, rfl, rfl, fit⟩
    exact ⟨isChoice_of_asChoice? rfl resultTyped, takenType,
      fun _ _ defined => defined _ _ rfl rfl⟩
  · cases builds
    rw [WellTyped, allWellTyped_iff] at typed
    have resultTyped : (call dtype .ifThenElse [cond', taken, other]).WellTyped := by
      rw [WellTyped, allWellTyped_iff]
      exact ⟨by simpa using ⟨condTyped, takenTyped, otherTyped⟩, typed.2.1,
        condType.trans typed.2.2.1, takenType, otherType⟩
    exact ⟨isChoice_of_asChoice? rfl resultTyped, rfl, fun _ scalar _ => scalar⟩

/-! ### Rules that keep the value -/

theorem evaluate_ofConstant? (typed : expr.WellTyped) (kinded : env.Kinded)
    (applies : ofConstant? expr = some result) (evaluated : expr.evaluate check env = some value) :
    result.evaluate check env = some value := by
  obtain ⟨⟨cond, onTrue, onFalse⟩, found, applies⟩ := Option.bind_eq_some_iff.mp applies
  obtain ⟨known, isConst, equal⟩ := Option.bind_eq_some_iff.mp applies
  obtain ⟨condType, rfl⟩ := asBool?_eq_some.mp isConst
  cases equal
  refine (isChoice_of_asChoice? found typed).evaluate_of_always kinded evaluated ?_ ?_
  · cases known
    · exact .inr rfl
    · exact .inl rfl
  · intro truths isCond index truth isTruth
    cases isCond
    cases List.eq_of_mem_replicate (List.mem_of_getElem? isTruth)
    rfl

theorem evaluate_ofSame? (typed : expr.WellTyped) (kinded : env.Kinded)
    (applies : ofSame? expr = some result) (evaluated : expr.evaluate check env = some value) :
    result.evaluate check env = some value := by
  simp [ofSame?] at applies
  obtain ⟨cond, found⟩ := applies
  refine (isChoice_of_asChoice? found typed).evaluate_of_always kinded evaluated (.inl rfl) ?_
  exact fun _ _ _ truth _ => ite_self result

theorem evaluate_ofNegated? (typed : expr.WellTyped) (kinded : env.Kinded)
    (applies : ofNegated? expr = some result) (evaluated : expr.evaluate check env = some value) :
    result.evaluate check env = some value := by
  simp [ofNegated?] at applies
  obtain ⟨onTrue, onFalse, cond, ⟨notType, found⟩, builds⟩ := applies
  have choice := isChoice_of_asChoice? found typed
  have condTyped := choice.condTyped
  rw [WellTyped] at condTyped
  obtain ⟨rebuilt, sameType, proceeds⟩ := choice.rebuild? condTyped.1 condTyped.2.1.symm
    choice.falseTyped choice.falseType choice.trueTyped choice.trueType builds
  obtain ⟨⟨isKinded, truths, isCond, chosen⟩, defined⟩ := (choice.evaluate_iff kinded).mp evaluated
  refine (rebuilt.evaluate_iff kinded).mpr ⟨?_, proceeds env defined ?_⟩
  · obtain ⟨operand, isOperand, opposite⟩ :=
      choice.condTyped.toLanes_of_eval_not kinded choice.fit isCond
    rw [sameType]
    refine ⟨isKinded, operand, isOperand, fun index inside => ?_⟩
    obtain ⟨truth, branch, isTruth, isBranch, isLane⟩ := chosen index inside
    refine ⟨!truth, branch, opposite index truth isTruth, ?_, isLane⟩
    cases truth
    · exact isBranch
    · exact isBranch
  · rintro dtype _ rfl -
    exact ⟨defined.2, defined.1⟩

/-- An operator that gives one of two integers of a type has a value wherever they have one. -/
theorem evaluate_binary_of_lanes {first second : Expr} {op : BinaryOp} {left right : Value}
    (firstTyped : first.WellTyped) (secondTyped : second.WellTyped) (same : second.dtype = first.dtype)
    (isInteger : first.dtype.isInteger = true) (kinded : env.Kinded)
    (passes : PassesIntegers check env) (isExtremum : op = .min ∨ op = .max)
    (isFirst : first.evaluate check env = some left)
    (isSecond : second.evaluate check env = some right) (isKinded : value.Kinded first.dtype)
    (picks : ∀ (index : Nat) (x y : Int), (left.toLanes first.dtype.lanes)[index]? = some (.int x) →
      (right.toLanes first.dtype.lanes)[index]? = some (.int y) → ∃ number,
        (value.toLanes first.dtype.lanes)[index]? = some (.int number) ∧
          op.onLane x y = some number) :
    (binary first.dtype op first second).evaluate check env = some value := by
  have leftKinded := evaluate_kinded firstTyped kinded isFirst
  have rightKinded := evaluate_kinded secondTyped kinded isSecond
  rw [same] at rightKinded
  obtain ⟨leftCount, leftKind⟩ := leftKinded.toLanes first.dtype.lanes (.inl rfl)
  obtain ⟨rightCount, rightKind⟩ := rightKinded.toLanes first.dtype.lanes (.inl rfl)
  have valueCount := (isKinded.toLanes first.dtype.lanes (.inl rfl)).1
  refine evaluate_binary_eq_some.mpr ⟨left, right, value.toLanes first.dtype.lanes, isFirst, isSecond,
    mapM_eq_some_iff.mpr fun index => ?_, isKinded.ofLanes_toLanes⟩
  by_cases inside : index < first.dtype.lanes
  · obtain ⟨x, isX⟩ := (leftKind _ (List.getElem_mem (leftCount.symm ▸ inside))).exists_int isInteger
    obtain ⟨y, isY⟩ := (rightKind _ (List.getElem_mem (rightCount.symm ▸ inside))).exists_int isInteger
    have atX := List.getElem?_eq_some_iff.mpr ⟨_, isX⟩
    have atY := List.getElem?_eq_some_iff.mpr ⟨_, isY⟩
    obtain ⟨number, isNumber, computed⟩ := picks index x y atX atY
    have passX : check first.dtype.element x = some x := passes firstTyped isInteger isFirst
      (Value.mem_ints_of_toLanes (List.mem_of_getElem? atX) (by simp))
    have passY : check first.dtype.element y = some y := same ▸ passes secondTyped (same ▸ isInteger)
      isSecond (Value.mem_ints_of_toLanes (List.mem_of_getElem? atY) (by simp))
    have passed : check first.dtype.element number = some number := by
      rcases isExtremum with rfl | rfl <;> cases computed
      · exact min_rec' (fun number => check first.dtype.element number = some number) passX passY
      · exact max_rec' (fun number => check first.dtype.element number = some number) passX passY
    have zipped : (List.zip (left.toLanes first.dtype.lanes) (right.toLanes first.dtype.lanes))[index]? =
        some (.int x, .int y) := List.getElem?_zip_eq_some.mpr ⟨atX, atY⟩
    rw [zipped, isNumber, Option.map_some, Option.map_some]
    rcases isExtremum with rfl | rfl <;> cases computed
    · exact congrArg some (congrArg (Option.map Value.int) passed)
    · exact congrArg some (congrArg (Option.map Value.int) passed)
  · rw [List.getElem?_eq_none (by rw [List.length_zip]; omega), List.getElem?_eq_none (by omega)]
    rfl

/-- A comparison that orders two integers takes the lesser or the greater one of them. -/
theorem onLane_of_ordered {op : BinaryOp} {element : DataType} {x y : Int} {truth : Bool}
    (isOrder : op = .lt ∨ op = .le)
    (compared : Scalar.binary? check element op (.int x) (.int y) = some (.bool truth)) :
    BinaryOp.min.onLane x y = some (if truth then x else y) ∧
      BinaryOp.max.onLane x y = some (if truth then y else x) := by
  simp only [BinaryOp.onLane, Option.some.injEq]
  rcases isOrder with rfl | rfl
  · cases compared
    simp only [decide_eq_true_eq]
    constructor <;> split <;> omega
  · cases compared
    simp only [decide_eq_true_eq]
    constructor <;> split <;> omega

/-- A choice by the order of two values has in every lane the value of the branch that the order takes,
which is the smaller one or the greater one. -/
theorem branch_of_ordered {op : BinaryOp} {a b : Expr} {dtype condType : DataType} {left right : Value}
    {index : Nat} {x y : Int}
    (typed : (select dtype (binary condType op a b) onTrue onFalse).WellTyped) (kinded : env.Kinded)
    (isOrder : op = .lt ∨ op = .le) (count : onTrue.dtype.lanes = a.dtype.lanes)
    (evaluated : (select dtype (binary condType op a b) onTrue onFalse).evaluate check env = some value)
    (isLeft : a.evaluate check env = some left) (isRight : b.evaluate check env = some right)
    (atX : (left.toLanes a.dtype.lanes)[index]? = some (.int x))
    (atY : (right.toLanes a.dtype.lanes)[index]? = some (.int y)) :
    ∃ (truth : Bool) (branch : Value),
      (BinaryOp.min.onLane x y = some (if truth then x else y) ∧
        BinaryOp.max.onLane x y = some (if truth then y else x)) ∧
      (if truth then onTrue else onFalse).evaluate check env = some branch ∧
      (value.toLanes a.dtype.lanes)[index]? = (branch.toLanes a.dtype.lanes)[index]? := by
  obtain ⟨⟨-, truths, isCond, chosen⟩, -, -⟩ := (evaluate_select_iff typed kinded).mp evaluated
  rw [WellTyped] at typed
  obtain ⟨condTyped, -, -, -, -, rfl, -⟩ := typed
  obtain ⟨left', right', isLeft', isRight', compared⟩ := condTyped.toLanes_of_eval_binary kinded isCond
  cases isLeft.symm.trans isLeft'
  cases isRight.symm.trans isRight'
  rw [WellTyped] at condTyped
  obtain ⟨leftTyped, -, same, rfl, -⟩ := condTyped
  rw [Expr.lanes, Expr.lanes, ← same, lanes_binaryType] at compared
  have inside : index < a.dtype.lanes := by
    rw [← ((evaluate_kinded leftTyped kinded isLeft).toLanes _ (.inl rfl)).1]
    exact (List.getElem?_eq_some_iff.mp atX).1
  rw [count] at chosen
  obtain ⟨truth, branch, isTruth, isBranch, isLane⟩ := chosen index inside
  have zipped : (List.zip (left.toLanes a.dtype.lanes) (right.toLanes a.dtype.lanes))[index]? =
      some (.int x, .int y) := List.getElem?_zip_eq_some.mpr ⟨atX, atY⟩
  rw [getElem?_of_mapM compared, zipped] at isTruth
  exact ⟨truth, branch, onLane_of_ordered isOrder isTruth, isBranch, isLane⟩

theorem evaluate_toMinMax? (typed : expr.WellTyped) (kinded : env.Kinded)
    (passes : PassesIntegers check env) (applies : toMinMax? expr = some result)
    (evaluated : expr.evaluate check env = some value) :
    result.evaluate check env = some value := by
  unfold toMinMax? at applies
  split at applies
  next dtype cond onTrue onFalse =>
    simp at applies
    obtain ⟨isInteger, op, a, b, ⟨condType, rfl⟩, isOrder, applies⟩ := applies
    obtain ⟨⟨isKinded, truths, isCond, -⟩, -, -⟩ := (evaluate_select_iff typed kinded).mp evaluated
    obtain ⟨left, right, -, isLeft, isRight, -⟩ := evaluate_binary_eq_some.mp isCond
    have node := typed
    rw [WellTyped, WellTyped] at node
    obtain ⟨⟨leftTyped, rightTyped, same, -⟩, -, -, -, -, rfl, -⟩ := node
    split at applies
    next parts =>
      obtain ⟨rfl, rfl⟩ := parts
      obtain ⟨rfl, -⟩ := binary?_eq_some same applies
      refine evaluate_binary_of_lanes leftTyped rightTyped same.symm isInteger kinded passes
        (.inl rfl) isLeft isRight isKinded fun index x y atX atY => ?_
      obtain ⟨truth, branch, ⟨least, -⟩, isBranch, isLane⟩ :=
        branch_of_ordered typed kinded isOrder rfl evaluated isLeft isRight atX atY
      refine ⟨_, ?_, least⟩
      cases truth
      · cases isBranch.symm.trans isRight
        exact isLane.trans atY
      · cases isBranch.symm.trans isLeft
        exact isLane.trans atX
    next =>
      obtain ⟨⟨rfl, rfl⟩, builds⟩ := Option.ite_none_right_eq_some.mp applies
      obtain ⟨rfl, -⟩ := binary?_eq_some same builds
      refine evaluate_binary_of_lanes leftTyped rightTyped same.symm (same ▸ isInteger) kinded
        passes (.inr rfl) isLeft isRight (same ▸ isKinded) fun index x y atX atY => ?_
      obtain ⟨truth, branch, ⟨-, greatest⟩, isBranch, isLane⟩ :=
        branch_of_ordered typed kinded isOrder (by rw [same]) evaluated isLeft isRight atX atY
      refine ⟨_, ?_, greatest⟩
      cases truth
      · cases isBranch.symm.trans isLeft
        exact isLane.trans atX
      · cases isBranch.symm.trans isRight
        exact isLane.trans atY
  next => cases applies

/-! ### Nested choices -/

/-- A branch of a call, which evaluates the branch that it takes alone, comes to stand in a node that
evaluates both of its branches. -/
inductive Exposes : Expr → Expr → Expr → Prop
  | onTrue (dtype innerType resultType : DataType) (cond branch other onFalse : Expr) :
    Exposes (.select dtype cond (.call innerType .ifThenElse [cond, branch, other]) onFalse)
      (.select resultType cond branch onFalse) branch
  | onFalse (dtype innerType resultType : DataType) (cond branch other onTrue : Expr) :
    Exposes (.select dtype cond onTrue (.call innerType .ifThenElse [cond, other, branch]))
      (.select resultType cond onTrue branch) branch

/-- A branch that is exposed has a value if the result has one. -/
theorem Exposes.isSome {branch : Expr} (exposes : Exposes expr result branch)
    (evaluated : result.evaluate check env = some value) :
    (branch.evaluate check env).isSome = true := by
  cases exposes with
  | onTrue =>
    obtain ⟨-, taken, -, -, -, isTrue, -⟩ := evaluate_select_eq_some.mp evaluated
    exact Option.isSome_of_eq_some isTrue
  | onFalse =>
    obtain ⟨-, -, refused, -, -, -, isFalse, -⟩ := evaluate_select_eq_some.mp evaluated
    exact Option.isSome_of_eq_some isFalse

theorem evaluate_ofNested? (typed : expr.WellTyped) (kinded : env.Kinded)
    (applies : ofNested? expr = some result) (evaluated : expr.evaluate check env = some value)
    (defined : ∀ branch, Exposes expr result branch → (branch.evaluate check env).isSome = true) :
    result.evaluate check env = some value := by
  obtain ⟨⟨cond, onTrue, onFalse⟩, found, applies⟩ := Option.bind_eq_some_iff.mp applies
  have choice := isChoice_of_asChoice? found typed
  obtain ⟨chooses, proceeds⟩ := (choice.evaluate_iff kinded).mp evaluated
  dsimp only at applies
  split at applies
  next inner taken other isInner =>
    obtain ⟨isNested, same⟩ := Option.filter_eq_some_iff.mp isInner
    obtain rfl : inner = cond := of_decide_eq_true same
    have nested := isChoice_of_asChoice? isNested choice.trueTyped
    obtain ⟨rebuilt, sameType, goesOn⟩ := choice.rebuild? choice.condTyped rfl
      nested.trueTyped (nested.trueType.trans choice.trueType) choice.falseTyped choice.falseType applies
    have innerChooses (branch : Value) (isBranch : onTrue.evaluate check env = some branch) :
        Chooses check env expr.dtype inner taken other branch := by
      rw [← choice.trueType]
      exact ((nested.evaluate_iff kinded).mp isBranch).1
    refine (rebuilt.evaluate_iff kinded).mpr ⟨?_, goesOn env proceeds ?_⟩
    · rw [sameType]
      exact chooses.of_onTrue innerChooses
    · rintro dtype resultType rfl rfl
      refine ⟨?_, proceeds.2⟩
      rcases asChoice?_eq_some isNested with ⟨innerType, rfl⟩ | ⟨innerType, rfl⟩
      · obtain ⟨branch, isBranch⟩ := Option.isSome_iff_exists.mp proceeds.1
        exact ((nested.evaluate_iff kinded).mp isBranch).2.1
      · exact defined taken (.onTrue ..)
  next inner taken other _ isInner =>
    obtain ⟨isNested, same⟩ := Option.filter_eq_some_iff.mp isInner
    obtain rfl : inner = cond := of_decide_eq_true same
    have nested := isChoice_of_asChoice? isNested choice.falseTyped
    obtain ⟨rebuilt, sameType, goesOn⟩ := choice.rebuild? choice.condTyped rfl
      choice.trueTyped choice.trueType nested.falseTyped (nested.falseType.trans choice.falseType) applies
    have innerChooses (branch : Value) (isBranch : onFalse.evaluate check env = some branch) :
        Chooses check env expr.dtype inner taken other branch := by
      rw [← choice.falseType]
      exact ((nested.evaluate_iff kinded).mp isBranch).1
    refine (rebuilt.evaluate_iff kinded).mpr ⟨?_, goesOn env proceeds ?_⟩
    · rw [sameType]
      exact chooses.of_onFalse innerChooses
    · rintro dtype resultType rfl rfl
      refine ⟨proceeds.1, ?_⟩
      rcases asChoice?_eq_some isNested with ⟨innerType, rfl⟩ | ⟨innerType, rfl⟩
      · obtain ⟨branch, isBranch⟩ := Option.isSome_iff_exists.mp proceeds.2
        exact ((nested.evaluate_iff kinded).mp isBranch).2.2
      · exact defined other (.onFalse ..)
  next => cases applies

/-- What a rule makes of a choice has its value, if the branches that are exposed have values. -/
theorem evaluate_of_rewrites {rule : Rule} {answers : Answers} (member : rule ∈ rules)
    (typed : expr.WellTyped) (kinded : env.Kinded) (passes : PassesIntegers check env)
    (rewrites : rule.Rewrites answers expr result) (evaluated : expr.evaluate check env = some value)
    (defined : ∀ branch, Exposes expr result branch → (branch.evaluate check env).isSome = true) :
    result.evaluate check env = some value := by
  simp only [rules, Rule.pure, List.mem_cons, List.not_mem_nil, or_false] at member
  rcases member with rfl | rfl | rfl | rfl | rfl
  · exact evaluate_ofConstant? typed kinded rewrites evaluated
  · exact evaluate_ofSame? typed kinded rewrites evaluated
  · exact evaluate_ofNegated? typed kinded rewrites evaluated
  · exact evaluate_toMinMax? typed kinded passes rewrites evaluated
  · exact evaluate_ofNested? typed kinded rewrites evaluated defined

theorem sameIn_of_rewrites {rule : Rule} {answers : Answers} (member : rule ∈ rules)
    (typed : expr.WellTyped) (kinded : env.Kinded) (passes : PassesIntegers check env)
    (rewrites : rule.Rewrites answers expr result) : SameIn check env expr result := by
  intro first second isFirst isSecond
  have isResult := evaluate_of_rewrites member typed kinded passes rewrites isFirst
    fun branch exposes => exposes.isSome isSecond
  exact Option.some.inj (isResult.symm.trans isSecond)

/-- A rule for choices keeps the value of a well-typed choice if and only if no branch without a value
is exposed. -/
theorem choiceRules_keep_value {rule : Rule} {answers : Answers} (member : rule ∈ rules)
    (typed : expr.WellTyped) (envTyped : env.Typed) (rewrites : rule.Rewrites answers expr result)
    (evaluated : expr.eval env = some value) :
    result.eval env = some value ↔
      ∀ branch, Exposes expr result branch → (branch.eval env).isSome = true :=
  ⟨fun isResult _ exposes => exposes.isSome isResult,
    evaluate_of_rewrites member typed envTyped.kinded (passesIntegers_checked envTyped.inRange) rewrites
      evaluated⟩

/-- A quotient that a call guards is exposed where the divisor is not zero, and keeps its value. -/
theorem choiceRules_keep_value_quotient :
    let x : Variable := ⟨"x", .int32, false⟩
    let constant := intConst .int32
    let nonzero := binary .bool .ne x.expr (constant 0)
    let quotient := binary .int32 .truncDiv (constant 100) x.expr
    let guarded := call .int32 .ifThenElse [nonzero, quotient, constant 5]
    let result := select .int32 nonzero quotient (constant 7)
    let env := Environment.empty.set x (.int 4)
    ofNested? (select .int32 nonzero guarded (constant 7)) = some result ∧
      result.eval env = some (.int 25) := by
  intro x constant nonzero quotient guarded result env
  let answers : Answers := ⟨⟨fun _ => .everything, fun _ => .everything, fun _ => none, []⟩,
    fun _ _ => .unknown⟩
  have envTyped : env.Typed := Environment.typed_empty.set_int rfl (by decide) (by decide)
  have rewrites : (Rule.pure .selectNested ofNested?).Rewrites answers
      (select .int32 nonzero guarded (constant 7)) result := by
    show ofNested? _ = _
    decide +kernel
  refine ⟨rewrites, (choiceRules_keep_value (by simp [rules]) (by decide) envTyped rewrites rfl).mpr ?_⟩
  intro branch exposes
  dsimp only [guarded, result, nonzero, quotient, constant] at exposes
  cases exposes
  rfl

/-- A call that guards a quotient does not guard it any more when a node under the same condition takes
the branch out of it: the choice is seven where `x` is zero, and the result has no value there. -/
theorem choiceRules_lose_value :
    let x : Variable := ⟨"x", .int32, false⟩
    let constant := intConst .int32
    let nonzero := binary .bool .ne x.expr (constant 0)
    let quotient := binary .int32 .truncDiv (constant 100) x.expr
    let guarded := call .int32 .ifThenElse [nonzero, quotient, constant 5]
    let expr := select .int32 nonzero guarded (constant 7)
    let env := Environment.empty.set x (.int 0)
    ¬∀ (answers : Answers), ∀ rule ∈ rules, ∀ result : Expr, ∀ value : Value,
      expr.WellTyped → env.Typed → rule.Rewrites answers expr result →
        expr.eval env = some value → result.eval env = some value := by
  intro x constant nonzero quotient guarded expr env keeps
  let answers : Answers := ⟨⟨fun _ => .everything, fun _ => .everything, fun _ => none, []⟩,
    fun _ _ => .unknown⟩
  have rewrites : ofNested? expr = some (select .int32 nonzero quotient (constant 7)) := by
    decide +kernel
  have kept := keeps answers (.pure .selectNested ofNested?) (by simp [rules]) _ (.int 7) (by decide)
    (Environment.typed_empty.set_int rfl (by decide) (by decide)) rewrites rfl
  cases kept

end Reduction.Choices

end IndexAlgebra
