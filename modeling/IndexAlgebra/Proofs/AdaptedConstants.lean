/-
This file proves what a binary node is built of. Its operands have one type, and each is the operand
that was given or a constant that took the type of the other one. Which constant adapts is decided by
the operands that were given, and so is what may be lost: a constant that adapts to a type with fewer
lanes gives up its own lanes, and an integer that adapts to a floating-point type may be rounded.
-/
import IndexAlgebra.Proofs.FloatIntegers
import IndexAlgebra.Proofs.Load
import IndexAlgebra.Proofs.Typing

namespace IndexAlgebra.Expr

variable {op : BinaryOp} {dtype : DataType} {lhs rhs given used built : Expr}

/-! ### Constants that take another type -/

/-- The expression that is broadcast, or else the expression itself. -/
def splat : Expr → Expr
  | broadcast _ value _ => value
  | expr => expr

/-- The expression is a constant, broadcast or not, whose number is one of the type. Every integer
counts as one of a floating-point type, and truth values have no other type. -/
def CanTake (dtype : DataType) (expr : Expr) : Prop :=
  match expr.splat with
  | intConst _ value => dtype.isFloat = true ∨ dtype.isInteger = true ∧ dtype.fits value = true
  | floatConst .. => dtype.isFloat = true
  | _ => False

/-- Two scalar constants have the same number. -/
def SameNumber : Expr → Expr → Prop
  | intConst _ value, intConst _ value' => value = value'
  | intConst _ value, floatConst _ number => number.IsInt value
  | floatConst _ number, floatConst _ number' => number = number'
  | _, _ => False

/-- The type has floating-point numbers, and the constant is an integer that is none of them. -/
def RoundedBy (dtype : DataType) (expr : Expr) : Prop :=
  match expr.splat with
  | intConst _ value => dtype.isFloat = true ∧ ¬ Binary64.HoldsInt value
  | _ => False

instance (dtype : DataType) (expr : Expr) : Decidable (CanTake dtype expr) := by
  unfold CanTake
  split <;> infer_instance

instance (dtype : DataType) (expr : Expr) : Decidable (RoundedBy dtype expr) := by
  unfold RoundedBy
  split <;> infer_instance

/-- A constant was given, and a constant of the type is used for it. It is the same number unless the
type rounds it. -/
structure TakesType (dtype : DataType) (given used : Expr) : Prop where
  given_isConst : given.splat.isConst = true
  used_isConst : used.splat.isConst = true
  dtype_eq : used.dtype = dtype
  sameNumber_iff : SameNumber given.splat used.splat ↔ ¬ RoundedBy dtype given

theorem retype?_splat (dtype : DataType) (expr : Expr) :
    expr.retype? dtype = retypeScalar? dtype expr.splat := by
  cases expr <;> rfl

theorem isSplatConst_eq (expr : Expr) : expr.isSplatConst = expr.splat.isConst := by
  cases expr <;> rfl

theorem dtype_ofFloat (dtype : DataType) (number : Binary64) : (ofFloat dtype number).dtype = dtype := by
  unfold ofFloat
  split_ifs <;> rfl

/-- A constant of a floating-point type holds the number nearest to its integer. -/
theorem splat_ofInt_of_isFloat (isFloat : dtype.isFloat = true) (value : Int) :
    ∃ element, (ofInt dtype value).splat = floatConst element (Binary64.ofInt value) := by
  unfold ofInt scalarOfInt
  rw [DataType.isFloat_element, if_pos isFloat, if_pos isFloat]
  split
  · exact ⟨_, rfl⟩
  · exact ⟨_, rfl⟩

/-- A constant of an integer type holds its integer. -/
theorem splat_ofInt_of_isInteger (isInteger : dtype.isInteger = true) (value : Int) :
    ∃ element, (ofInt dtype value).splat = intConst element value := by
  have notFloat := DataType.isFloat_of_isInteger isInteger
  have notBool := DataType.isBool_of_isInteger isInteger
  unfold ofInt scalarOfInt
  simp only [DataType.isFloat_element, DataType.isBool_element, notFloat, notBool, Bool.false_eq_true,
    if_false]
  split
  · exact ⟨_, rfl⟩
  · exact ⟨_, rfl⟩

theorem splat_ofFloat (dtype : DataType) (number : Binary64) :
    ∃ element, (ofFloat dtype number).splat = floatConst element number := by
  unfold ofFloat
  split
  · exact ⟨_, rfl⟩
  · exact ⟨_, rfl⟩

/-- A constant takes every type that it can take. -/
theorem exists_retype? (canTake : given.CanTake dtype) :
    ∃ used, given.retype? dtype = some used ∧ TakesType dtype given used := by
  rw [retype?_splat]
  unfold CanTake at canTake
  cases isSplat : given.splat with
  | intConst type value =>
    simp only [isSplat] at canTake
    have retypes : retypeScalar? dtype (intConst type value) = some (ofInt dtype value) :=
      if_pos (by simpa using canTake)
    refine ⟨_, retypes, by rw [isSplat]; rfl, ?_, dtype_ofInt .., ?_⟩
    · rcases canTake with isFloat | ⟨isInteger, -⟩
      · obtain ⟨element, isUsed⟩ := splat_ofInt_of_isFloat isFloat value
        rw [isUsed]
        rfl
      · obtain ⟨element, isUsed⟩ := splat_ofInt_of_isInteger isInteger value
        rw [isUsed]
        rfl
    · rcases canTake with isFloat | ⟨isInteger, -⟩
      · obtain ⟨element, isUsed⟩ := splat_ofInt_of_isFloat isFloat value
        simp only [isUsed, isSplat, SameNumber, RoundedBy, isFloat, Binary64.isInt_ofInt_iff,
          true_and, not_not]
      · obtain ⟨element, isUsed⟩ := splat_ofInt_of_isInteger isInteger value
        simp [isUsed, isSplat, SameNumber, RoundedBy, DataType.isFloat_of_isInteger isInteger]
  | floatConst type number =>
    simp only [isSplat] at canTake
    obtain ⟨element, isUsed⟩ := splat_ofFloat dtype number
    refine ⟨_, if_pos canTake, by rw [isSplat]; rfl, by rw [isUsed]; rfl, dtype_ofFloat .., ?_⟩
    simp [isUsed, isSplat, SameNumber, RoundedBy]
  | _ => simp [isSplat] at canTake

theorem retype?_eq_none (cannot : ¬ given.CanTake dtype) : given.retype? dtype = none := by
  rw [retype?_splat]
  unfold CanTake at cannot
  cases isSplat : given.splat with
  | intConst type value =>
    simp only [isSplat] at cannot
    exact if_neg (by simpa using cannot)
  | floatConst type number =>
    simp only [isSplat] at cannot
    exact if_neg cannot
  | _ => rfl

/-! ### The operand that adapts -/

/-- The right operand takes the type of the left one: it can, and the left one is no constant or the
right one has the usual index type. -/
def RightAdapts (lhs rhs : Expr) : Prop :=
  lhs.dtype ≠ rhs.dtype ∧ rhs.CanTake lhs.dtype ∧ (lhs.splat.isConst = false ∨ rhs.dtype = .int32)

/-- The left operand takes the type of the right one: it can, and the right one does not adapt. -/
def LeftAdapts (lhs rhs : Expr) : Prop :=
  lhs.dtype ≠ rhs.dtype ∧ lhs.CanTake rhs.dtype ∧ ¬ RightAdapts lhs rhs

/-- A constant operand is rounded as it takes the type of the other operand. -/
def RoundsConstant (lhs rhs : Expr) : Prop :=
  RightAdapts lhs rhs ∧ RoundedBy lhs.dtype rhs ∨ LeftAdapts lhs rhs ∧ RoundedBy rhs.dtype lhs

/-- A constant operand takes the type of an operand with fewer lanes. -/
def DropsLanes (lhs rhs : Expr) : Prop :=
  RightAdapts lhs rhs ∧ lhs.lanes < rhs.lanes ∨ LeftAdapts lhs rhs ∧ rhs.lanes < lhs.lanes

instance (lhs rhs : Expr) : Decidable (RightAdapts lhs rhs) := by unfold RightAdapts; infer_instance

instance (lhs rhs : Expr) : Decidable (LeftAdapts lhs rhs) := by unfold LeftAdapts; infer_instance

instance (lhs rhs : Expr) : Decidable (RoundsConstant lhs rhs) := by
  unfold RoundsConstant
  infer_instance

instance (lhs rhs : Expr) : Decidable (DropsLanes lhs rhs) := by unfold DropsLanes; infer_instance

/-- What is used for the two operands: the operands that were given, or one of them and a constant
that took its type. -/
inductive Adapts (lhs rhs : Expr) : Expr × Expr → Prop
  | neither (right : ¬ RightAdapts lhs rhs) (left : ¬ LeftAdapts lhs rhs) : Adapts lhs rhs (lhs, rhs)
  | right {used : Expr} (adapts : RightAdapts lhs rhs) (takes : TakesType lhs.dtype rhs used) :
    Adapts lhs rhs (lhs, used)
  | left {used : Expr} (adapts : LeftAdapts lhs rhs) (takes : TakesType rhs.dtype lhs used) :
    Adapts lhs rhs (used, rhs)

theorem adapts_of_not_rightAdapts (different : lhs.dtype ≠ rhs.dtype)
    (notRight : ¬ RightAdapts lhs rhs) :
    Adapts lhs rhs (((retype? rhs.dtype lhs).map fun lhs => (lhs, rhs)).getD (lhs, rhs)) := by
  by_cases canTake : lhs.CanTake rhs.dtype
  · obtain ⟨used, retypes, takes⟩ := exists_retype? canTake
    rw [retypes]
    exact .left ⟨different, canTake, notRight⟩ takes
  · rw [retype?_eq_none canTake]
    exact .neither notRight fun left => canTake left.2.1

/-- Operands are given one type as their types and numbers ask for. -/
theorem adapts_unify (lhs rhs : Expr) : Adapts lhs rhs (unify lhs rhs) := by
  unfold unify
  by_cases same : lhs.dtype = rhs.dtype
  · rw [if_pos same]
    exact .neither (fun right => right.1 same) fun left => left.1 same
  rw [if_neg same]
  by_cases canTake : rhs.CanTake lhs.dtype
  · obtain ⟨used, retypes, takes⟩ := exists_retype? canTake
    simp only [retypes, isSplatConst_eq, Bool.not_eq_true', decide_eq_true_eq, Bool.or_eq_true]
    split
    next prefers => exact .right ⟨same, canTake, prefers⟩ takes
    next refuses => exact adapts_of_not_rightAdapts same fun right => refuses right.2.2
  · simp only [retype?_eq_none canTake]
    exact adapts_of_not_rightAdapts same fun right => canTake right.2.1

/-! ### What is kept -/

/-- An operand that was given is used, or a constant with the same number. -/
def KeepsNumber (given used : Expr) : Prop := used = given ∨ SameNumber given.splat used.splat

theorem TakesType.keepsNumber_iff (takes : TakesType dtype given used) (differs : dtype ≠ given.dtype) :
    KeepsNumber given used ↔ ¬ RoundedBy dtype given := by
  have other : used ≠ given := fun same => differs (takes.dtype_eq.symm.trans (congrArg _ same))
  rw [KeepsNumber, ← takes.sameNumber_iff, or_iff_right other]

/-- The numbers of the operands are kept unless one is rounded. -/
theorem Adapts.keepNumbers_iff {left right : Expr} (adapts : Adapts lhs rhs (left, right)) :
    KeepsNumber lhs left ∧ KeepsNumber rhs right ↔ ¬ RoundsConstant lhs rhs := by
  unfold RoundsConstant
  cases adapts with
  | neither notRight notLeft => simp [KeepsNumber, notRight, notLeft]
  | right adapts takes =>
    have notLeft : ¬ LeftAdapts lhs rhs := fun left => left.2.2 adapts
    simp only [adapts, notLeft, true_and, false_and, or_false, takes.keepsNumber_iff adapts.1]
    simp [KeepsNumber]
  | left adapts takes =>
    simp only [adapts, adapts.2.2, true_and, false_and, false_or, takes.keepsNumber_iff adapts.1.symm]
    simp [KeepsNumber]

/-- Operands that end up with one type have as many lanes as both that were given, unless the constant
among them had more lanes. -/
theorem Adapts.keepLanes_iff {left right : Expr} (adapts : Adapts lhs rhs (left, right))
    (same : left.dtype = right.dtype) :
    lhs.lanes ≤ left.lanes ∧ rhs.lanes ≤ left.lanes ↔ ¬ DropsLanes lhs rhs := by
  unfold DropsLanes
  cases adapts with
  | neither notRight notLeft =>
    have lanes : lhs.lanes = rhs.lanes := congrArg DataType.lanes same
    simp [notRight, notLeft, lanes]
  | right adapts takes =>
    have notLeft : ¬ LeftAdapts lhs rhs := fun left => left.2.2 adapts
    simp [adapts, notLeft]
  | left adapts takes =>
    have lanes : left.lanes = rhs.lanes := congrArg DataType.lanes takes.dtype_eq
    simp [adapts, adapts.2.2, lanes]

theorem mkBinary_of_operands {left right : Expr} (unified : unify lhs rhs = (left, right))
    (builds : mkBinary op lhs rhs = .ok built) :
    built = binary (binaryType op left.dtype) op left right ∧ left.dtype = right.dtype := by
  have found := binary?_unify (show binary? op lhs rhs = some built by rw [binary?, builds]; rfl)
  rw [unified] at found
  exact ⟨found.2.1, found.1⟩

/-- Operands with the same element but different counts of lanes are refused for their lanes. -/
theorem mkBinary_of_lanes_ne (unified : unify lhs rhs = (lhs, rhs))
    (element : lhs.dtype.element = rhs.dtype.element) (lanes : lhs.lanes ≠ rhs.lanes)
    (truths : op.isLogical = true → lhs.dtype.isBool = true) :
    mkBinary op lhs rhs = .error ((Form.ofOp op).fault lhs rhs
      (.mismatchedLanes (Form.ofOp op).name lhs.lanes rhs.lanes)) := by
  have types : lhs.dtype ≠ rhs.dtype := fun same => lanes (congrArg DataType.lanes same)
  have refused : (Form.ofOp op).checkTypes lhs rhs = .error ((Form.ofOp op).fault lhs rhs
      (.mismatchedLanes (Form.ofOp op).name lhs.lanes rhs.lanes)) := by
    rw [Form.checkTypes, if_neg types, if_pos element]
  have isBool : lhs.dtype.isBool = rhs.dtype.isBool := by
    rw [← DataType.isBool_element lhs.dtype, element, DataType.isBool_element]
  unfold mkBinary
  rw [unified]
  dsimp only
  split
  next logical =>
    have left := truths logical
    have right := isBool.symm.trans left
    have checked : (Form.ofOp op).checkLogical lhs rhs = .ok () := by
      simp [Form.checkLogical, left, right]
    rw [checked, refused]
    rfl
  next =>
    rw [refused]
    rfl

/-! ### The operands of a binary node -/

/-- A binary node has two operands of one type, and the type that the operator makes of it. Each
operand was given, or it is a constant that took the type of the other one. The numbers are the ones
that were given unless a constant is rounded, and the node has as many lanes as both operands that
were given unless a constant adapted to fewer lanes. Where no constant adapts, operands that differ
in their lanes only are refused. -/
theorem mkBinary_operands (op : BinaryOp) (lhs rhs : Expr) :
    (∀ built, mkBinary op lhs rhs = .ok built → ∃ left right,
      built = binary (if op.isComparison then DataType.bool.withLanes left.lanes else left.dtype)
        op left right ∧
      left.dtype = right.dtype ∧
      (left = lhs ∨ TakesType rhs.dtype lhs left ∧ right = rhs) ∧
      (right = rhs ∨ TakesType lhs.dtype rhs right ∧ left = lhs) ∧
      (KeepsNumber lhs left ∧ KeepsNumber rhs right ↔ ¬ RoundsConstant lhs rhs) ∧
      (lhs.lanes ≤ built.lanes ∧ rhs.lanes ≤ built.lanes ↔ ¬ DropsLanes lhs rhs)) ∧
    (lhs.dtype.element = rhs.dtype.element → lhs.lanes ≠ rhs.lanes → ¬ RightAdapts lhs rhs →
      ¬ LeftAdapts lhs rhs → (op.isLogical = true → lhs.dtype.isBool = true) →
      mkBinary op lhs rhs = .error ((Form.ofOp op).fault lhs rhs
        (.mismatchedLanes (Form.ofOp op).name lhs.lanes rhs.lanes))) := by
  obtain ⟨left, right, unified⟩ : ∃ left right, unify lhs rhs = (left, right) := ⟨_, _, rfl⟩
  have adapts := unified ▸ adapts_unify lhs rhs
  constructor
  · intro built builds
    obtain ⟨rfl, same⟩ := mkBinary_of_operands unified builds
    have lanes : (binary (binaryType op left.dtype) op left right).lanes = left.lanes := by
      change (binaryType op left.dtype).lanes = left.dtype.lanes
      unfold binaryType
      split <;> rfl
    refine ⟨left, right, rfl, same, ?_, ?_, adapts.keepNumbers_iff, ?_⟩
    · cases adapts with
      | neither => exact .inl rfl
      | right => exact .inl rfl
      | left _ takes => exact .inr ⟨takes, rfl⟩
    · cases adapts with
      | neither => exact .inl rfl
      | right _ takes => exact .inr ⟨takes, rfl⟩
      | left => exact .inl rfl
    · rw [lanes]
      exact adapts.keepLanes_iff same
  · intro element lanes notRight notLeft truths
    cases adapts with
    | neither => exact mkBinary_of_lanes_ne unified element lanes truths
    | right adapts => exact absurd adapts notRight
    | left adapts => exact absurd adapts notLeft

/-- A scalar two becomes a vector beside a vector, and vectors of four and eight lanes are refused. -/
theorem mkBinary_operands_vectors :
    let vector := (Variable.mk "v" (.withLanes .int32 4) false).expr
    let wide := (Variable.mk "w" (.withLanes .int32 8) false).expr
    let two := intConst .int32 2
    let twos := broadcast (.withLanes .int32 4) two 4
    mkBinary .mul vector two = .ok (binary (.withLanes .int32 4) .mul vector twos) ∧
      KeepsNumber two twos ∧
      mkBinary .lt vector wide =
        .error ((Form.between "<").fault vector wide (.mismatchedLanes "<" 4 8)) := by
  intro vector wide two twos
  have builds : mkBinary .mul vector two = .ok (binary (.withLanes .int32 4) .mul vector twos) := by
    rfl
  obtain ⟨left, right, isBuilt, -, -, -, numbers, -⟩ := (mkBinary_operands .mul vector two).1 _ builds
  injection isBuilt with _ _ isLeft isRight
  subst isLeft isRight
  exact ⟨builds, (numbers.mpr (by decide)).2,
    (mkBinary_operands .lt vector wide).2 (by decide) (by decide) (by decide) (by decide) (by decide)⟩

/-- A scalar variable and a vector of twos make a scalar sum, and a float64 variable and the least
positive integer that is no number of its type make a sum with another number. -/
theorem mkBinary_loses_operands :
    let scalar := (Variable.mk "x" .int32 false).expr
    let two := intConst .int32 2
    let twos := broadcast (.withLanes .int32 4) two 4
    let float := DataType.scalar .float 64
    let number := (Variable.mk "f" float false).expr
    let odd := intConst .int64 9007199254740993
    let even := floatConst float (.ofInt 9007199254740992)
    mkBinary .add scalar twos = .ok (binary .int32 .add scalar two) ∧
      (binary .int32 .add scalar two).lanes < twos.lanes ∧
      mkBinary .add number odd = .ok (binary float .add number even) ∧
      ¬ KeepsNumber odd even := by
  intro scalar two twos float number odd even
  have rounds : unify number odd = (number, even) := by decide +kernel
  refine ⟨rfl, by decide, ?_, fun keeps => ?_⟩
  · unfold mkBinary
    rw [rounds]
    rfl
  · have kept := (rounds ▸ adapts_unify number odd).keepNumbers_iff.mp ⟨.inl rfl, keeps⟩
    exact absurd (by decide +kernel) kept

end IndexAlgebra.Expr
