/-
This file proves that two expressions are related as the simplifier says. What it says comes from
their difference: from the sign that the bound of the simplified difference shows, and from zero
missing in its bound or in its congruence class. The relation therefore holds in every lane, and so
does what it decides about a comparison, if simplification keeps the exact value of the difference
and the bound and the class are right about it.
-/
import IndexAlgebra.Proofs.Exact.Comparisons
import IndexAlgebra.Proofs.Exact.Extrema
import IndexAlgebra.Proofs.Termination

namespace IndexAlgebra

/-! ### Relations of integers -/

namespace Relation

theorem holds_ofOrdering (left right : Int) : (ofOrdering (compare left right)).Holds left right := by
  cases order : compare left right with
  | lt => exact compare_lt_iff_lt.mp order
  | eq => exact compare_eq_iff_eq.mp order
  | gt => exact compare_gt_iff_gt.mp order

/-- Two integers are related as their difference is to zero. -/
theorem holds_sub_zero_iff {relation : Relation} {left right : Int} :
    relation.Holds (left - right) 0 ↔ relation.Holds left right := by
  cases relation <;> simp only [Holds] <;> omega

end Relation

namespace Evidence

variable {evidence : Evidence} {expr : Expr} {number : Int}

/-- An integer that the bound and the class of an expression contain is related to zero as the
expression is found to be. -/
theorem relationToZero_holds (constant : ∀ value, expr.asInt? = some value → number = value)
    (inBound : (evidence.bound expr).contains number = true)
    (inClass : (evidence.congruence expr).contains number = true) :
    (evidence.relationToZero expr).Holds number 0 := by
  unfold relationToZero
  split
  next value isConstant =>
    rw [constant value isConstant]
    exact Relation.holds_ofOrdering value 0
  next =>
    dsimp only
    split_ifs with isZero isNegative isPositive
    · exact Bound.eq_of_asPoint? isZero inBound
    · exact Bound.neg_of_isNegative isNegative inBound
    · exact Bound.pos_of_isPositive isPositive inBound
    · -- A number that is never zero is not, since the bound and the class contain it.
      have nonzero : (!(evidence.congruence expr).contains 0 || !(evidence.bound expr).contains 0) =
          true → number ≠ 0 := by
        rintro never rfl
        simp [inBound, inClass] at never
      split
      next nonPositive isNever =>
        exact lt_of_le_of_ne (Bound.nonpos_of_isNonPositive nonPositive inBound) (nonzero isNever)
      next nonNegative isNever _ =>
        exact lt_of_le_of_ne (Bound.nonneg_of_isNonNegative nonNegative inBound)
          (Ne.symm (nonzero isNever))
      next nonPositive _ => exact Bound.nonpos_of_isNonPositive nonPositive inBound
      next nonNegative _ _ => exact Bound.nonneg_of_isNonNegative nonNegative inBound
      next isNever => exact nonzero isNever
      next => trivial

end Evidence

/-! ### Lanes of integers -/

namespace Value

/-- The value with the given integers in its lanes. -/
def ofInts (numbers : List Int) : Value := ofLanes (numbers.map int)

theorem ints_ofInts (numbers : List Int) : (ofInts numbers).ints = numbers := by
  have lanes : (numbers.map int).flatMap ints = numbers := by
    induction numbers with
    | nil => rfl
    | cons first rest inductionHypothesis => simp [inductionHypothesis]
  by_cases single : numbers.length = 1
  · obtain ⟨number, rfl⟩ := List.length_eq_one_iff.mp single
    exact ints_int number
  · rw [ofInts, ofLanes_of_length (by rwa [List.length_map]), ints, lanes]

theorem toLanes_ofInts (numbers : List Int) :
    (ofInts numbers).toLanes numbers.length = numbers.map int := by
  by_cases single : numbers.length = 1
  · obtain ⟨number, rfl⟩ := List.length_eq_one_iff.mp single
    rfl
  · rw [ofInts, ofLanes_of_length (by rwa [List.length_map])]
    rfl

/-- A value with one integer has no other lane. -/
theorem eq_of_ofInts_eq_int {numbers : List Int} {number : Int} (same : ofInts numbers = int number) :
    numbers = [number] := by
  rw [← ints_ofInts numbers, same, ints_int]

/-- A value of an integer type has an integer in every lane. -/
theorem Kinded.exists_ofInts {dtype : DataType} {value : Value} (kinded : value.Kinded dtype)
    (isInteger : dtype.isInteger = true) :
    ∃ numbers, value = ofInts numbers ∧ numbers.length = dtype.lanes := by
  obtain ⟨lanes, rfl, length, ofKind⟩ := kinded
  have integers : ∃ numbers : List Int, numbers.map int = lanes := by
    clear length
    induction lanes with
    | nil => exact ⟨[], rfl⟩
    | cons lane rest inductionHypothesis =>
      obtain ⟨number, rfl⟩ := (ofKind lane List.mem_cons_self).exists_int isInteger
      obtain ⟨numbers, rfl⟩ := inductionHypothesis fun lane member =>
        ofKind lane (List.mem_cons_of_mem _ member)
      exact ⟨number :: numbers, rfl⟩
  obtain ⟨numbers, rfl⟩ := integers
  exact ⟨numbers, rfl, by rwa [List.length_map] at length⟩

end Value

namespace Expr

variable {check : RangeCheck} {env : Environment} {dtype : DataType} {op : BinaryOp}
  {lhs rhs : Expr} {lefts rights : List Int} {relation : Relation}

/-- The lanes of a binary node are what the operator makes of the integers in those of its
operands. -/
theorem evaluate_binary_ofInts (isLeft : evaluate check env lhs = some (.ofInts lefts))
    (isRight : evaluate check env rhs = some (.ofInts rights)) (leftLanes : lefts.length = dtype.lanes)
    (rightLanes : rights.length = dtype.lanes) :
    evaluate check env (binary dtype op lhs rhs) =
      ((lefts.zip rights).mapM fun lane =>
        Scalar.binaryInt? check lhs.dtype.element op lane.1 lane.2).map Value.ofLanes := by
  have lanes : (Value.ofInts lefts).toLanes dtype.lanes = lefts.map .int ∧
      (Value.ofInts rights).toLanes dtype.lanes = rights.map .int := by
    rw [← leftLanes, Value.toLanes_ofInts, leftLanes, ← rightLanes, Value.toLanes_ofInts]
    exact ⟨rfl, rfl⟩
  rw [evaluate, isLeft, isRight]
  simp only [Option.bind_eq_bind, Option.bind_some, zipLanes?, lanes.1, lanes.2, List.zip_map,
    List.mapM_map]
  rfl

/-- The lanes of an exact difference are the differences of the lanes. -/
theorem evalExact_sub_ofInts (isLeft : lhs.evalExact env = some (.ofInts lefts))
    (isRight : rhs.evalExact env = some (.ofInts rights)) (leftLanes : lefts.length = dtype.lanes)
    (rightLanes : rights.length = dtype.lanes) :
    (binary dtype .sub lhs rhs).evalExact env =
      some (.ofInts ((lefts.zip rights).map fun lane => lane.1 - lane.2)) := by
  rw [evalExact, evaluate_binary_ofInts isLeft isRight leftLanes rightLanes, Value.ofInts,
    List.map_map]
  refine congrArg (Option.map Value.ofLanes) (mapM_eq_some_iff_map.mpr ?_)
  rw [List.map_map]
  rfl

/-- A comparison that a relation decides has the truth value of two integers in the relation. -/
theorem binaryInt?_of_decides? {left right : Int} {truth : Bool} (holds : relation.Holds left right)
    (decides : relation.decides? op = some truth) :
    Scalar.binaryInt? check dtype op left right = some (.bool truth) := by
  cases op <;> cases relation <;> cases decides <;>
    simp only [Relation.Holds, Scalar.binaryInt?] at holds ⊢ <;> simp <;> omega

/-- A comparison that a relation decides has the truth value in every lane. -/
theorem evaluate_of_decides? {truth : Bool} (isLeft : evaluate check env lhs = some (.ofInts lefts))
    (isRight : evaluate check env rhs = some (.ofInts rights)) (leftLanes : lefts.length = dtype.lanes)
    (holds : List.Forall₂ relation.Holds lefts rights) (decides : relation.decides? op = some truth) :
    evaluate check env (binary dtype op lhs rhs) =
      some (.ofLanes (List.replicate dtype.lanes (.bool truth))) := by
  have rightLanes : rights.length = dtype.lanes := holds.length_eq.symm.trans leftLanes
  rw [evaluate_binary_ofInts isLeft isRight leftLanes rightLanes]
  refine congrArg (Option.map Value.ofLanes) (mapM_eq_some_iff_map.mpr ?_)
  rw [List.map_replicate, List.eq_replicate_iff]
  refine ⟨by simp [leftLanes, rightLanes], fun result member => ?_⟩
  obtain ⟨⟨left, right⟩, isLane, rfl⟩ := List.mem_map.mp member
  exact binaryInt?_of_decides? ((List.forall₂_iff_zip.mp holds).2 isLane) decides

end Expr

namespace Reduction

/-! ### The relation of two expressions -/

/-- The simplified form keeps the exact value of an expression, and the bound and the congruence
class found for the form contain every integer of it. -/
structure Vouches (evidence : Evidence) (env : Environment) (expr simplified : Expr) : Prop where
  keeps : ∀ value, expr.evalExact env = some value → simplified.evalExact env = some value
  inBound : ∀ value, expr.evalExact env = some value →
    ∀ number ∈ value.ints, (evidence.bound simplified).contains number = true
  inClass : ∀ value, expr.evalExact env = some value →
    ∀ number ∈ value.ints, (evidence.congruence simplified).contains number = true

variable {evidence : Evidence} {nested : Expr → Run Expr} {lhs rhs : Expr} {relation : Relation}
  {before after : Progress}

/-- Two expressions of an integer type are equal, or two constants, or related as their simplified
difference is to zero, if anything is found. -/
theorem relate_cases (related : relate evidence nested lhs rhs before = some (relation, after)) :
    relation = .unknown ∨ (lhs = rhs ∧ relation = .equal) ∨
      (∃ left right, lhs.asInt? = some left ∧ rhs.asInt? = some right ∧
        relation = .ofOrdering (compare left right)) ∨
      ∃ difference simplified, Expr.binary? .sub lhs rhs = some difference ∧
        nested difference before = some (simplified, after) ∧
        relation = evidence.relationToZero simplified := by
  generalize run : relate evidence nested lhs rhs = found at related
  unfold relate at run
  split at run
  next =>
    subst run
    cases related
    exact .inl rfl
  split at run
  next equal =>
    subst run
    cases related
    exact .inr (.inl ⟨equal, rfl⟩)
  split at run
  next left right isLeft isRight =>
    subst run
    cases related
    exact .inr (.inr (.inl ⟨left, right, isLeft, isRight, rfl⟩))
  split at run
  next =>
    subst run
    cases related
    exact .inl rfl
  next difference builds =>
    subst run
    obtain ⟨⟨simplified, progress⟩, ran, found⟩ := Option.bind_eq_some_iff.mp related
    cases found
    exact .inr (.inr (.inr ⟨difference, simplified, builds, ran, rfl⟩))

/-- The relation that is found holds in every lane of the exact values. -/
theorem relate_holds {env : Environment} (same : lhs.dtype = rhs.dtype)
    (vouched : ∀ difference simplified, Expr.binary? .sub lhs rhs = some difference →
      nested difference before = some (simplified, after) → Vouches evidence env difference simplified)
    (related : relate evidence nested lhs rhs before = some (relation, after)) {lefts rights : List Int}
    (isLeft : lhs.evalExact env = some (.ofInts lefts))
    (isRight : rhs.evalExact env = some (.ofInts rights)) (leftLanes : lefts.length = lhs.lanes)
    (rightLanes : rights.length = lhs.lanes) : List.Forall₂ relation.Holds lefts rights := by
  have zipped : (∀ left right, (left, right) ∈ lefts.zip rights → relation.Holds left right) →
      List.Forall₂ relation.Holds lefts rights := fun each =>
    List.forall₂_iff_zip.mpr ⟨leftLanes.trans rightLanes.symm, fun isLane => each _ _ isLane⟩
  rcases relate_cases related with rfl | ⟨rfl, rfl⟩ | ⟨first, second, isFirst, isSecond, rfl⟩ |
    ⟨difference, simplified, builds, ran, rfl⟩
  · exact zipped fun _ _ _ => trivial
  · have equal : lefts = rights := by
      rw [← Value.ints_ofInts lefts, ← Value.ints_ofInts rights,
        Option.some.inj (isLeft.symm.trans isRight)]
    rw [equal]
    exact List.forall₂_same.mpr fun _ _ => rfl
  · obtain ⟨_, rfl⟩ := Expr.asInt?_eq_some.mp isFirst
    obtain ⟨_, rfl⟩ := Expr.asInt?_eq_some.mp isSecond
    rw [Expr.evalExact, Expr.evaluate] at isLeft isRight
    rw [Value.eq_of_ofInts_eq_int (Option.some.inj isLeft).symm,
      Value.eq_of_ofInts_eq_int (Option.some.inj isRight).symm]
    exact .cons (Relation.holds_ofOrdering first second) .nil
  · obtain ⟨rfl, -⟩ := Expr.binary?_eq_some same builds
    have vouches := vouched _ simplified builds ran
    have exact : (Expr.binary (Expr.binaryType .sub lhs.dtype) .sub lhs rhs).evalExact env = _ :=
      Expr.evalExact_sub_ofInts isLeft isRight leftLanes rightLanes
    refine zipped fun left right isLane => ?_
    have member : left - right ∈
        (Value.ofInts ((lefts.zip rights).map fun lane => lane.1 - lane.2)).ints := by
      rw [Value.ints_ofInts]
      exact List.mem_map_of_mem (f := fun lane => lane.1 - lane.2) isLane
    refine Relation.holds_sub_zero_iff.mp (Evidence.relationToZero_holds (fun value constant => ?_)
      (vouches.inBound _ exact _ member) (vouches.inClass _ exact _ member))
    obtain ⟨_, rfl⟩ := Expr.asInt?_eq_some.mp constant
    have only := vouches.keeps _ exact
    rw [Expr.evalExact, Expr.evaluate] at only
    rwa [← Option.some.inj only, Value.ints_int, List.mem_singleton] at member

/-- A relation that is found for two expressions of one integer type is true of their values, in
every lane: it holds, a comparison that it decides has the truth value that it gives, and the order
that it implies is theirs. This is so of checked values as of exact ones, whatever simplifies the
difference and whatever is known, as long as the difference keeps its exact value and what is found
for it is right. -/
theorem relate_true {env : Environment} (leftTyped : lhs.WellTyped) (rightTyped : rhs.WellTyped)
    (isInteger : lhs.dtype.isInteger = true) (same : lhs.dtype = rhs.dtype) (kinded : env.Kinded)
    (vouched : ∀ difference simplified, Expr.binary? .sub lhs rhs = some difference →
      nested difference before = some (simplified, after) → Vouches evidence env difference simplified)
    (related : relate evidence nested lhs rhs before = some (relation, after)) {check : RangeCheck}
    (isCheck : check = .checked ∨ check = .unbounded) {left right : Value}
    (isLeft : lhs.evaluate check env = some left) (isRight : rhs.evaluate check env = some right) :
    left.ints.length = lhs.lanes ∧ List.Forall₂ relation.Holds left.ints right.ints ∧
      (∀ op truth, relation.decides? op = some truth →
        (Expr.binary (Expr.binaryType op lhs.dtype) op lhs rhs).evaluate check env =
          some (.ofLanes (List.replicate lhs.lanes (.bool truth)))) ∧
      (relation.isLe = true → List.Forall₂ (· ≤ ·) left.ints right.ints) ∧
      (relation.isGe = true → List.Forall₂ (· ≥ ·) left.ints right.ints) := by
  obtain ⟨lefts, rfl, leftLanes⟩ :=
    (Expr.evaluate_kinded leftTyped kinded isLeft).exists_ofInts isInteger
  obtain ⟨rights, rfl, rightLanes⟩ :=
    (Expr.evaluate_kinded rightTyped kinded isRight).exists_ofInts (same ▸ isInteger)
  have exact {expr : Expr} {value : Value} (evaluated : expr.evaluate check env = some value) :
      expr.evalExact env = some value := by
    rcases isCheck with rfl | rfl
    · exact Expr.evalExact_of_eval evaluated
    · exact evaluated
  have holds := relate_holds same vouched related (exact isLeft) (exact isRight) leftLanes
    (rightLanes.trans (congrArg DataType.lanes same.symm))
  rw [Value.ints_ofInts, Value.ints_ofInts]
  refine ⟨leftLanes, holds, fun op truth decides => ?_, fun isLe => ?_, fun isGe => ?_⟩
  · have lanes : (Expr.binaryType op lhs.dtype).lanes = lhs.lanes := Expr.lanes_binaryType op lhs.dtype
    rw [Expr.evaluate_of_decides? isLeft isRight (leftLanes.trans lanes.symm) holds decides, lanes]
  · exact holds.imp fun _ _ related => Extrema.le_of_isLe related isLe
  · exact holds.imp fun _ _ related => Extrema.le_of_isGe related isGe

/-- A variable from 0 to 10 is found to be greater than -1: its difference is `x + 1`, which is not
below 1. -/
theorem relate_true_greater :
    let x : Variable := ⟨"x", .int32, false⟩
    let known : Knowledge := { bounds := [(x, .ofInts 0 10)] }
    let env := Environment.empty.set x (.int 4)
    let least := Expr.intConst .int32 (-1)
    (∃ after, relate known.evidence (nestedVisit {} known.evidence 20 0) x.expr least {} =
      some (.greater, after)) ∧
    List.Forall₂ Relation.greater.Holds [4] [-1] ∧
    (Expr.binary .bool .le x.expr least).eval env = some (.bool false) := by
  intro x known env least
  have kinded : env.Kinded := by
    refine Environment.Kinded.set (fun _ _ isValue => by cases isValue) ⟨[.int 4], rfl, rfl, ?_⟩
    rintro lane member
    rw [List.mem_singleton.mp member]
    exact (by decide : DataType.int32.isFloat = false)
  have found : ((relate known.evidence (nestedVisit {} known.evidence 20 0) x.expr least) {}).map
      Prod.fst = some .greater := by decide +kernel
  have simplifies : ((nestedVisit {} known.evidence 20 0 (.binary .int32 .sub x.expr least)) {}).map
      Prod.fst = some (.binary .int32 .add x.expr (.intConst .int32 1)) := by decide +kernel
  obtain ⟨⟨_, after⟩, related, rfl⟩ := Option.map_eq_some_iff.mp found
  have vouched : ∀ difference simplified, Expr.binary? .sub x.expr least = some difference →
      nestedVisit {} known.evidence 20 0 difference {} = some (simplified, after) →
      Vouches known.evidence env difference simplified := by
    intro difference simplified builds ran
    obtain ⟨rfl, -⟩ := Expr.binary?_eq_some (by rfl) builds
    have isSum : simplified = .binary .int32 .add x.expr (.intConst .int32 1) :=
      (Option.some.inj (simplifies.symm.trans (congrArg (Option.map Prod.fst) ran))).symm
    have five : (Expr.binary .int32 .sub x.expr least).evalExact env = some (.int 5) := by rfl
    have inBound : (known.evidence.bound simplified).contains 5 = true := by
      rw [isSum]
      decide +kernel
    have inClass : (known.evidence.congruence simplified).contains 5 = true := by
      rw [isSum]
      decide +kernel
    refine ⟨fun value evaluated => ?_, fun value evaluated number member => ?_,
      fun value evaluated number member => ?_⟩ <;> cases five.symm.trans evaluated
    · rw [isSum]
      rfl
    all_goals
      rw [Value.ints_int, List.mem_singleton] at member
      rwa [member]
  have isLeft : x.expr.evaluate .checked env = some (.int 4) := by rfl
  have isRight : least.evaluate .checked env = some (.int (-1)) := by rfl
  obtain ⟨-, holds, decides, -⟩ := relate_true (by decide) (by decide) (by decide) (by rfl) kinded
    vouched related (.inl rfl) isLeft isRight
  exact ⟨⟨after, related⟩, by simpa using holds, decides .le false rfl⟩

end Reduction

end IndexAlgebra
