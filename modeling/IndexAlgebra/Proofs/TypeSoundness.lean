/-
This file relates the type that the builders give an expression to the value that it has. A value has
as many lanes as the type, and every lane is one of the type, with one exception: the builders accept
arithmetic and ramps on truth values, and their value is made of integers. So there are two readings of
a type, one with zero and one among the truth values and one without, and the proof is for both: an
expression has a value of its type in the wide reading, and in the narrow one if it holds no arithmetic
on truth values.
-/
import IndexAlgebra.Proofs.LaneCounts
import IndexAlgebra.Proofs.LaneValues

namespace IndexAlgebra

/-! ### Values of a type, with integers for truth values or without -/

namespace Value

/-- The scalar is one lane of the type, where `integers` says whether an integer may stand for a truth
value. -/
def InLaneUpTo (integers : Prop) (dtype : DataType) : Value → Prop
  | int value =>
    dtype.fits value = true ∧ (dtype.isInteger = true ∨ integers ∧ dtype.isBool = true)
  | bool _ => dtype.isBool = true
  | float _ => dtype.isFloat = true
  | vector _ => False

/-- The value has as many lanes as the type, and each lane is one of the type. -/
def HasTypeUpTo (integers : Prop) (dtype : DataType) (value : Value) : Prop :=
  ∃ lanes : List Value, value = ofLanes lanes ∧ lanes.length = dtype.lanes ∧
    ∀ lane ∈ lanes, lane.InLaneUpTo integers dtype

variable {integers : Prop} {dtype : DataType} {value lane : Value}

theorem InLaneUpTo.of_inLane (inLane : lane.InLane dtype) : lane.InLaneUpTo integers dtype := by
  cases lane with
  | int number => exact ⟨inLane.2, .inl inLane.1⟩
  | bool truth => exact inLane
  | float number => exact inLane
  | vector lanes => exact inLane

theorem inLaneUpTo_false : lane.InLaneUpTo False dtype ↔ lane.InLane dtype := by
  cases lane <;> simp [InLaneUpTo, InLane, and_comm]

theorem hasTypeUpTo_false : value.HasTypeUpTo False dtype ↔ value.HasType dtype := by
  simp only [HasTypeUpTo, HasType, inLaneUpTo_false]

theorem HasTypeUpTo.of_hasType (hasType : value.HasType dtype) : value.HasTypeUpTo integers dtype := by
  obtain ⟨lanes, equal, length, inLanes⟩ := hasType
  exact ⟨lanes, equal, length, fun lane member => .of_inLane (inLanes lane member)⟩

theorem InLaneUpTo.ofKind (inLane : lane.InLaneUpTo integers dtype) : lane.OfKind dtype := by
  cases lane with
  | int number =>
    rcases inLane.2 with isInteger | ⟨-, isBool⟩
    · exact DataType.isFloat_of_isInteger isInteger
    · exact DataType.isFloat_of_isBool isBool
  | bool truth => exact inLane
  | float number => exact inLane
  | vector lanes => exact inLane

/-- Lanes are those of the element type, however many there are. -/
theorem InLaneUpTo.withLanes {count : Nat} (inLane : lane.InLaneUpTo integers dtype) :
    lane.InLaneUpTo integers (dtype.withLanes count) := by
  cases lane <;> exact inLane

theorem HasTypeUpTo.kinded (hasType : value.HasTypeUpTo integers dtype) : value.Kinded dtype := by
  obtain ⟨lanes, equal, length, inLanes⟩ := hasType
  exact ⟨lanes, equal, length, fun lane member => (inLanes lane member).ofKind⟩

/-- The lanes of what is made of scalars are among these. -/
theorem mem_of_mem_toLanes {lanes : List Value} {count : Nat} (scalars : ∀ lane ∈ lanes, lane.IsLane)
    (member : lane ∈ (ofLanes lanes).toLanes count) : lane ∈ lanes := by
  unfold ofLanes at member
  split at member
  next single =>
    rw [(scalars single List.mem_cons_self).toLanes] at member
    exact List.mem_singleton.mpr (List.eq_of_mem_replicate member)
  next => exact member

/-- The lanes of a value of a type are of the type, and as many as are asked for. -/
theorem HasTypeUpTo.toLanes (hasType : value.HasTypeUpTo integers dtype) (count : Nat)
    (enough : dtype.lanes = count ∨ dtype.lanes = 1) : (value.toLanes count).length = count ∧
      ∀ lane ∈ value.toLanes count, lane.InLaneUpTo integers dtype := by
  refine ⟨(hasType.kinded.toLanes count enough).1, ?_⟩
  obtain ⟨lanes, rfl, -, inLanes⟩ := hasType
  intro lane member
  exact inLanes lane (mem_of_mem_toLanes (fun lane member => (inLanes lane member).ofKind.isLane) member)

theorem HasTypeUpTo.inLane (hasType : value.HasTypeUpTo integers dtype) (scalar : dtype.lanes = 1) :
    value.InLaneUpTo integers dtype := by
  obtain ⟨lanes, rfl, length, inLanes⟩ := hasType
  obtain ⟨single, rfl⟩ := List.length_eq_one_iff.mp (length.trans scalar)
  exact inLanes single List.mem_cons_self

theorem InLaneUpTo.hasType (inLane : lane.InLaneUpTo integers dtype) (scalar : dtype.lanes = 1) :
    lane.HasTypeUpTo integers dtype := by
  refine ⟨[lane], rfl, scalar.symm, fun other member => ?_⟩
  exact List.mem_singleton.mp member ▸ inLane

/-- Results for each lane make a value of the type. -/
theorem HasTypeUpTo.of_mapM {α : Type} {f : α → Option Value} {inputs : List α} {lanes : List Value}
    (equal : inputs.mapM f = some lanes) (length : inputs.length = dtype.lanes)
    (inLane : ∀ input ∈ inputs, ∀ lane, f input = some lane → lane.InLaneUpTo integers dtype) :
    (ofLanes lanes).HasTypeUpTo integers dtype := by
  refine ⟨lanes, rfl, (forall₂_of_mapM equal).length_eq.symm.trans length, fun lane member => ?_⟩
  obtain ⟨input, isInput, isResult⟩ := exists_of_mem_mapM equal member
  exact inLane input isInput lane isResult

end Value

/-- Every variable that has a value has one of its type. -/
def Environment.TypedUpTo (integers : Prop) (env : Environment) : Prop :=
  ∀ name value, env name = some value → value.HasTypeUpTo integers name.dtype

theorem Environment.TypedUpTo.set {integers : Prop} {env : Environment}
    (typed : env.TypedUpTo integers) {name : Variable} {value : Value}
    (hasType : value.HasTypeUpTo integers name.dtype) :
    (env.set name value).TypedUpTo integers := by
  intro other result isResult
  by_cases same : other = name
  · rw [same, set_self] at isResult
    exact same ▸ Option.some.inj isResult ▸ hasType
  · rw [set_of_ne env value same] at isResult
    exact typed other result isResult

/-! ### Scalars -/

namespace Scalar

variable {integers : Prop} {dtype : DataType} {value : Value}

/-- An integer in the range of a type is a lane of it, unless the type is that of truth values. -/
theorem inLane_int {number checked : Int} (notFloat : dtype.isFloat = false)
    (allowed : dtype.isBool = true → integers)
    (fits : RangeCheck.checked dtype.element number = some checked) :
    (Value.int checked).InLaneUpTo integers dtype := by
  obtain ⟨-, inRange, rfl⟩ := RangeCheck.checked_eq_some.mp fits
  refine ⟨inRange, ?_⟩
  cases isBool : dtype.isBool with
  | true => exact .inr ⟨allowed isBool, rfl⟩
  | false => exact .inl (DataType.isInteger_of_other notFloat isBool)

/-- Arithmetic on integers gives an integer that is in range. -/
theorem binaryInt?_arithmetic {check : RangeCheck} {op : BinaryOp} {left right : Int}
    (arithmetic : op.opClass = .arithmetic)
    (result : binaryInt? check dtype op left right = some value) :
    ∃ number checked, check dtype number = some checked ∧ value = .int checked := by
  have made : ∀ {number}, (check dtype number).map Value.int = some value →
      ∃ number checked, check dtype number = some checked ∧ value = .int checked := by
    intro number isMade
    obtain ⟨checked, isChecked, rfl⟩ := Option.map_eq_some_iff.mp isMade
    exact ⟨number, checked, isChecked, rfl⟩
  unfold binaryInt? at result
  cases op with
  | add | sub | mul | min | max => exact made result
  | truncDiv | truncMod | floorDiv | floorMod =>
    exact made (Option.ite_none_left_eq_some.mp result).2
  | _ => cases arithmetic

theorem inLane_binaryInt? {op : BinaryOp} {left right : Int} (notFloat : dtype.isFloat = false)
    (allowed : op.opClass = .arithmetic → dtype.isBool = true → integers)
    (result : binaryInt? .checked dtype.element op left right = some value) :
    value.InLaneUpTo integers (Expr.binaryType op dtype) := by
  by_cases arithmetic : op.opClass = .arithmetic
  · obtain ⟨number, checked, fits, rfl⟩ := binaryInt?_arithmetic arithmetic result
    rw [Expr.binaryType, if_neg (by rw [BinaryOp.isComparison, arithmetic]; decide)]
    exact inLane_int notFloat (allowed arithmetic) fits
  · rcases Expr.binaryInt?_kind result with ⟨absurd, -⟩ | ⟨-, truth, rfl⟩
    · exact (arithmetic absurd).elim
    · exact ofKind_binaryInt? notFloat result

/-- An operator on two lanes of a type gives a lane of the type of the node, if it is no arithmetic on
truth values. -/
theorem inLane_binary? {op : BinaryOp} {left right : Value}
    (isLeft : left.InLaneUpTo integers dtype)
    (allowed : op.opClass = .arithmetic → dtype.isBool = true → integers)
    (result : binary? .checked dtype.element op left right = some value) :
    value.InLaneUpTo integers (Expr.binaryType op dtype) := by
  have ofKind := ofKind_binary? isLeft.ofKind result
  cases left <;> cases right <;> try contradiction
  case int.int => exact inLane_binaryInt? isLeft.ofKind allowed result
  case bool.bool =>
    have notFloat : dtype.isFloat = false := DataType.isFloat_of_isBool isLeft
    unfold binary? at result
    cases op
    case and | or | eq | ne =>
      cases result
      exact ofKind
    all_goals exact inLane_binaryInt? notFloat allowed result
  case float.float =>
    cases value with
    | int number => cases op <;> cases result
    | bool truth => exact ofKind
    | float number => exact ofKind
    | vector lanes => exact ofKind

/-- A conversion gives a lane of the type. -/
theorem inLane_cast? {operand : Value} (notFloat : dtype.isFloat = false)
    (result : cast? .checked dtype.element operand = some value) :
    value.InLaneUpTo integers dtype := by
  unfold cast? at result
  rw [dtype.isBool_element, dtype.isFloat_element, notFloat] at result
  split at result
  next isBool => cases operand <;> cases result <;> exact isBool
  next notBool =>
    obtain ⟨number, -, isResult⟩ := Option.bind_eq_some_iff.mp result
    obtain ⟨checked, isChecked, rfl⟩ := Option.map_eq_some_iff.mp isResult
    exact inLane_int notFloat (fun isBool => absurd isBool notBool) isChecked

end Scalar

/-! ### Nodes -/

namespace Expr

/-- The node is arithmetic on truth values. -/
def OnTruths : Expr → Prop
  | binary dtype op _ _ => op.opClass = .arithmetic ∧ dtype.isBool = true
  | ramp dtype _ _ _ => dtype.isBool = true
  | _ => False

instance (expr : Expr) : Decidable expr.OnTruths := by
  unfold OnTruths
  split <;> infer_instance

/-- The expression has a value of its type where it has one and the variables do, and its type has a
lane. -/
structure Sound (integers : Prop) (expr : Expr) : Prop where
  lanes_pos : 1 ≤ expr.lanes
  hasType : ∀ {env : Environment} {value : Value}, env.TypedUpTo integers →
    expr.eval env = some value → value.HasTypeUpTo integers expr.dtype

variable {integers : Prop} {dtype : DataType} {op : BinaryOp}
  {lhs rhs operand cond onTrue onFalse base stride body bound built : Expr} {count : Nat}

theorem sound_var {name : Variable} (some : 1 ≤ name.dtype.lanes) :
    (var name.dtype name).Sound integers :=
  ⟨some, fun typed isValue => typed name _ isValue⟩

theorem sound_intConst {value : Int} (isInteger : dtype.isInteger = true) (scalar : dtype.lanes = 1)
    (fits : dtype.fits value = true) : (intConst dtype value).Sound integers := by
  refine ⟨scalar.ge, fun typed isValue => ?_⟩
  cases isValue
  exact Value.InLaneUpTo.hasType ⟨fits, .inl isInteger⟩ scalar

theorem sound_floatConst {value : Binary64} (isFloat : dtype.isFloat = true)
    (scalar : dtype.lanes = 1) : (floatConst dtype value).Sound integers := by
  refine ⟨scalar.ge, fun typed isValue => ?_⟩
  cases isValue
  exact Value.InLaneUpTo.hasType isFloat scalar

theorem sound_boolConst {value : Bool} (isBool : dtype.isBool = true) (scalar : dtype.lanes = 1) :
    (boolConst dtype value).Sound integers := by
  refine ⟨scalar.ge, fun typed isValue => ?_⟩
  cases isValue
  exact Value.InLaneUpTo.hasType isBool scalar

theorem sound_cast (notFloat : dtype.isFloat = false) (same : dtype.lanes = operand.lanes)
    (sound : operand.Sound integers) : (cast dtype operand).Sound integers := by
  refine ⟨sound.lanes_pos.trans_eq same.symm, fun typed isValue => ?_⟩
  obtain ⟨input, lanes, isInput, equal, rfl⟩ := evaluate_cast_eq_some.mp isValue
  have inputs := (sound.hasType typed isInput).toLanes dtype.lanes (.inl same.symm)
  exact .of_mapM equal inputs.1 fun input _ lane isLane => Scalar.inLane_cast? notFloat isLane

theorem sound_binary (same : lhs.dtype = rhs.dtype)
    (allowed : op.opClass = .arithmetic → lhs.dtype.isBool = true → integers)
    (left : lhs.Sound integers) (right : rhs.Sound integers) :
    (binary (binaryType op lhs.dtype) op lhs rhs).Sound integers := by
  have count : (binaryType op lhs.dtype).lanes = lhs.dtype.lanes := lanes_binaryType op lhs.dtype
  refine ⟨left.lanes_pos.trans_eq count.symm, fun typed isValue => ?_⟩
  obtain ⟨first, second, lanes, isFirst, isSecond, equal, rfl⟩ := evaluate_binary_eq_some.mp isValue
  have lefts := (left.hasType typed isFirst).toLanes _ (.inl count.symm)
  have rights := (right.hasType typed isSecond).toLanes (binaryType op lhs.dtype).lanes
    (.inl ((congrArg DataType.lanes same.symm).trans count.symm))
  refine .of_mapM equal (by rw [List.length_zip, lefts.1, rights.1, Nat.min_self]; rfl) ?_
  intro input isInput lane isLane
  exact Scalar.inLane_binary? (lefts.2 _ (List.of_mem_zip isInput).1) allowed isLane

theorem sound_not (isBool : operand.dtype.isBool = true) (sound : operand.Sound integers) :
    (not operand.dtype operand).Sound integers := by
  refine ⟨sound.lanes_pos, fun typed isValue => ?_⟩
  obtain ⟨input, lanes, isInput, equal, rfl⟩ := evaluate_not_eq_some.mp isValue
  have inputs := (sound.hasType typed isInput).toLanes operand.dtype.lanes (.inl rfl)
  refine .of_mapM equal inputs.1 fun input _ lane isLane => ?_
  obtain ⟨truth, -, rfl⟩ := Option.map_eq_some_iff.mp isLane
  exact isBool

theorem sound_select (same : onTrue.dtype = onFalse.dtype)
    (count : cond.lanes = onTrue.lanes ∨ cond.lanes = 1) (isCond : cond.Sound integers)
    (taken : onTrue.Sound integers) (refused : onFalse.Sound integers) :
    (select onTrue.dtype cond onTrue onFalse).Sound integers := by
  refine ⟨taken.lanes_pos, fun typed isValue => ?_⟩
  obtain ⟨_, _, _, lanes, truthValue, takenValue, refusedValue, equal, rfl⟩ :=
    evaluate_select_eq_some.mp isValue
  have truths := (isCond.hasType typed truthValue).toLanes onTrue.dtype.lanes count
  have takens := (taken.hasType typed takenValue).toLanes onTrue.dtype.lanes (.inl rfl)
  have refuseds := (refused.hasType typed refusedValue).toLanes onTrue.dtype.lanes
    (.inl (congrArg DataType.lanes same.symm))
  refine .of_mapM equal ?_ fun input isInput lane isLane => ?_
  · rw [List.length_zip, List.length_zip, truths.1, takens.1, refuseds.1, Nat.min_self,
      Nat.min_self]
    rfl
  · have branches := List.of_mem_zip (List.of_mem_zip isInput).2
    obtain ⟨holds, -, rfl⟩ := Option.map_eq_some_iff.mp isLane
    cases holds
    · exact same ▸ refuseds.2 _ branches.2
    · exact takens.2 _ branches.1

theorem sound_ramp (allowed : base.dtype.isBool = true → integers) (several : 2 ≤ count)
    (first : base.Sound integers) :
    (ramp (base.dtype.withLanes count) base stride count).Sound integers := by
  refine ⟨Nat.le_of_succ_le several, fun typed isValue => ?_⟩
  obtain ⟨start, number, _, step, lanes, isStart, isNumber, -, -, equal, rfl⟩ :=
    evaluate_ramp_eq_some.mp isValue
  have notFloat := (first.hasType typed isStart).kinded.notFloat_of_asInt? isNumber
  have length : lanes.length = count := by
    rw [← (forall₂_of_mapM equal).length_eq, List.length_range]
  rw [← Value.ofLanes_of_length (by omega : lanes.length ≠ 1)]
  refine .of_mapM equal List.length_range fun index _ lane isLane => ?_
  obtain ⟨checked, fits, rfl⟩ := Option.map_eq_some_iff.mp isLane
  exact (Scalar.inLane_int notFloat allowed fits).withLanes

theorem sound_broadcast (scalar : operand.lanes = 1) (several : 2 ≤ count)
    (sound : operand.Sound integers) :
    (broadcast (operand.dtype.withLanes count) operand count).Sound integers := by
  refine ⟨Nat.le_of_succ_le several, fun typed isValue => ?_⟩
  obtain ⟨input, isInput, rfl⟩ := evaluate_broadcast_eq_some.mp isValue
  have isLane := (sound.hasType typed isInput).inLane scalar
  refine ⟨List.replicate count input, ?_, List.length_replicate, fun other member => ?_⟩
  · exact (Value.ofLanes_of_length (by rw [List.length_replicate]; omega)).symm
  · exact List.eq_of_mem_replicate member ▸ isLane.withLanes

theorem sound_letIn {name : Variable} (same : bound.dtype = name.dtype)
    (isBound : bound.Sound integers) (inner : body.Sound integers) :
    (letIn body.dtype name bound body).Sound integers := by
  refine ⟨inner.lanes_pos, fun typed isValue => ?_⟩
  obtain ⟨value, found, isBody⟩ := evaluate_letIn_eq_some.mp isValue
  exact inner.hasType (typed.set (same ▸ isBound.hasType typed found)) isBody

/-! ### Constants -/

theorem sound_scalarOfInt {value : Int} (scalar : dtype.lanes = 1)
    (fits : dtype.isFloat = true ∨ dtype.fits value = true) :
    (scalarOfInt dtype value).Sound integers := by
  unfold scalarOfInt
  split_ifs with isFloat isBool
  · exact sound_floatConst isFloat scalar
  · exact sound_boolConst isBool scalar
  · exact sound_intConst (DataType.isInteger_of_other (by simpa using isFloat) (by simpa using isBool))
      scalar (fits.resolve_left isFloat)

/-- What is sound as a scalar constant is sound in every lane of a vector. -/
theorem sound_splat (constant : DataType → Expr) (some : 1 ≤ dtype.lanes)
    (isType : ∀ dtype, (constant dtype).dtype = dtype)
    (sound : ∀ lanes, lanes = 1 → (constant (dtype.withLanes lanes)).Sound integers) :
    (if dtype.isVector then broadcast dtype (constant dtype.element) dtype.lanes
      else constant dtype).Sound integers := by
  split
  next vector =>
    have element := sound_broadcast (congrArg DataType.lanes (isType dtype.element))
      (of_decide_eq_true vector : 2 ≤ dtype.lanes) (sound 1 rfl)
    rwa [isType] at element
  next scalar =>
    have single : dtype.lanes = 1 := by
      simp only [DataType.isVector, decide_eq_true_eq] at scalar
      omega
    exact sound dtype.lanes single

theorem sound_ofInt {value : Int} (some : 1 ≤ dtype.lanes)
    (fits : dtype.isFloat = true ∨ dtype.fits value = true) : (ofInt dtype value).Sound integers := by
  refine sound_splat (scalarOfInt · value) some (fun dtype => ?_) fun lanes single =>
    sound_scalarOfInt single fits
  unfold scalarOfInt
  split_ifs <;> rfl

theorem sound_ofFloat {value : Binary64} (some : 1 ≤ dtype.lanes) (isFloat : dtype.isFloat = true) :
    (ofFloat dtype value).Sound integers :=
  sound_splat (floatConst · value) some (fun _ => rfl) fun _ single =>
    sound_floatConst isFloat single

/-- A constant that is given another type can be represented in it. -/
theorem sound_retype? (some : 1 ≤ dtype.lanes) (retypes : retype? dtype operand = .some built) :
    built.Sound integers := by
  have scalar : ∀ {constant}, retypeScalar? dtype constant = .some built → built.Sound integers := by
    intro constant retypes
    unfold retypeScalar? at retypes
    split at retypes
    · obtain ⟨fits, equal⟩ := Option.ite_none_right_eq_some.mp retypes
      refine Option.some.inj equal ▸ sound_ofInt some ?_
      rw [Bool.or_eq_true, Bool.and_eq_true] at fits
      exact fits.imp_right And.right
    · obtain ⟨isFloat, equal⟩ := Option.ite_none_right_eq_some.mp retypes
      exact Option.some.inj equal ▸ sound_ofFloat some isFloat
    · cases retypes
  unfold retype? at retypes
  split at retypes <;> exact scalar retypes

/-! ### Checked expressions -/

/-- The expression is built by the checked builders, of variables and of constants of integer types
and truth values. -/
inductive Checked : Expr → Prop
  | variable (name : Variable) : 1 ≤ name.dtype.lanes → Checked name.expr
  | constant (dtype : DataType) (value : Int) : dtype.isFloat = false → 1 ≤ dtype.lanes →
    dtype.fits value = true → Checked (ofInt dtype value)
  | binary {op : BinaryOp} {lhs rhs built : Expr} : Checked lhs → Checked rhs →
    mkBinary op lhs rhs = .ok built → Checked built
  | not {operand built : Expr} : Checked operand → mkNot operand = .ok built → Checked built
  | select {cond onTrue onFalse built : Expr} : Checked cond → Checked onTrue → Checked onFalse →
    mkSelect cond onTrue onFalse = .ok built → Checked built
  | ramp {base stride built : Expr} {lanes : Nat} : Checked base → Checked stride → 2 ≤ lanes →
    mkRamp base stride lanes = .ok built → Checked built
  | broadcast {operand : Expr} {lanes : Nat} : Checked operand → operand.lanes = 1 → 2 ≤ lanes →
    Checked (mkBroadcast operand lanes)
  | cast {dtype : DataType} {operand : Expr} : Checked operand → dtype.isFloat = false →
    Checked (mkCast dtype operand)
  | letIn {name : Variable} {bound body : Expr} : Checked bound → Checked body →
    bound.dtype = name.dtype → Checked (mkLet name bound body)

/-- Arithmetic on truth values occurs in the expression only where integers may stand for these. -/
def Allowed (integers : Prop) (expr : Expr) : Prop :=
  ∀ node ∈ expr.postOrder, node.OnTruths → integers

theorem Allowed.child {child expr : Expr} (allowed : expr.Allowed integers)
    (isChild : child ∈ expr.children) : child.Allowed integers := fun node member =>
  allowed node (mem_postOrder.mpr (.inr ⟨child, isChild, member⟩))

theorem Allowed.self {expr : Expr} (allowed : expr.Allowed integers) : expr.OnTruths → integers :=
  allowed expr expr.self_mem_postOrder

theorem allowed_true (expr : Expr) : expr.Allowed True := fun _ _ _ => trivial

/-- Operands that are given one type are sound, of which one may be a constant of another type. -/
theorem sound_unify (left : ∀ integers, lhs.Allowed integers → lhs.Sound integers)
    (right : ∀ integers, rhs.Allowed integers → rhs.Sound integers)
    (allowedLeft : (unify lhs rhs).1.Allowed integers)
    (allowedRight : (unify lhs rhs).2.Allowed integers) :
    (unify lhs rhs).1.Sound integers ∧ (unify lhs rhs).2.Sound integers := by
  have leftSome := (left True (allowed_true lhs)).lanes_pos
  have rightSome := (right True (allowed_true rhs)).lanes_pos
  rcases unify_cases lhs rhs with unified | ⟨retyped, retypes, unified⟩ | ⟨retyped, retypes, unified⟩ <;>
    rw [unified] at allowedLeft allowedRight ⊢
  · exact ⟨left integers allowedLeft, right integers allowedRight⟩
  · exact ⟨left integers allowedLeft, sound_retype? leftSome retypes⟩
  · exact ⟨sound_retype? rightSome retypes, right integers allowedRight⟩

/-- A checked expression is sound in both readings, in the narrow one without arithmetic on truth
values. -/
theorem Checked.sound {expr : Expr} (checked : expr.Checked) (integers : Prop)
    (allowed : expr.Allowed integers) : expr.Sound integers := by
  induction checked generalizing integers with
  | «variable» name some => exact sound_var some
  | constant dtype value notFloat some fits => exact sound_ofInt some (.inr fits)
  | @binary op lhs rhs built _ _ builds left right =>
    obtain ⟨same, rfl, -⟩ := binary?_unify (by rw [binary?, builds]; rfl)
    obtain ⟨isLeft, isRight⟩ := sound_unify left right (allowed.child (by simp [children]))
      (allowed.child (by simp [children]))
    refine sound_binary same (fun arithmetic isBool => allowed.self ⟨arithmetic, ?_⟩) isLeft isRight
    rwa [binaryType, if_neg (by rw [BinaryOp.isComparison, arithmetic]; decide)]
  | @not operand built _ builds sound =>
    obtain ⟨isBool, rfl⟩ := not?_eq_some (by rw [not?, builds]; rfl)
    exact sound_not isBool (sound integers (allowed.child (by simp [children])))
  | @select cond onTrue onFalse built _ _ _ builds isCond taken refused =>
    obtain ⟨rfl, -, same, count⟩ := select?_eq_some (by rw [select?, builds]; rfl)
    obtain ⟨isTaken, isRefused⟩ := sound_unify taken refused (allowed.child (by simp [children]))
      (allowed.child (by simp [children]))
    exact sound_select same count (isCond integers (allowed.child (by simp [children]))) isTaken isRefused
  | @ramp base stride built lanes _ _ several builds first step =>
    obtain ⟨rfl, -, -⟩ := ramp?_eq_some (by rw [ramp?, builds]; rfl)
    obtain ⟨isFirst, -⟩ := sound_unify first step (allowed.child (by simp [children]))
      (allowed.child (by simp [children]))
    exact sound_ramp (fun isBool => allowed.self isBool) several isFirst
  | broadcast _ scalar several sound =>
    exact sound_broadcast scalar several (sound integers (allowed.child (by simp [mkBroadcast, children])))
  | cast _ notFloat sound =>
    exact sound_cast notFloat rfl (sound integers (allowed.child (by simp [mkCast, children])))
  | letIn _ _ same isBound inner =>
    exact sound_letIn same (isBound integers (allowed.child (by simp [mkLet, children])))
      (inner integers (allowed.child (by simp [mkLet, children])))

/-! ### Arithmetic on truth values -/

end Expr

namespace Value

/-- The scalar is a number. -/
def IsNumber : Value → Prop
  | int _ | float _ => True
  | bool _ | vector _ => False

theorem IsNumber.isLane {lane : Value} (isNumber : lane.IsNumber) : lane.IsLane := by
  rintro lanes rfl
  exact isNumber

/-- Numbers make no value of a type of truth values. -/
theorem not_hasType_of_isNumber {dtype : DataType} {value : Value} (isBool : dtype.isBool = true)
    (some : 1 ≤ dtype.lanes) (numbers : ∀ lane ∈ value.toLanes dtype.lanes, lane.IsNumber) :
    ¬ value.HasType dtype := by
  intro hasType
  obtain ⟨length, inLanes⟩ := (hasTypeUpTo_false.mpr hasType).toLanes dtype.lanes (.inl rfl)
  obtain ⟨lane, member⟩ := List.exists_mem_of_length_pos (some.trans_eq length.symm)
  have isNumber := numbers lane member
  have inLane := inLaneUpTo_false.mp (inLanes lane member)
  cases lane with
  | int number => exact absurd inLane.1 (by simp [DataType.isInteger_of_isBool isBool])
  | float number => exact absurd inLane (by simp [InLane, DataType.isFloat_of_isBool isBool])
  | bool truth => exact isNumber
  | vector lanes => exact isNumber

end Value

/-- Arithmetic gives a number. -/
theorem Scalar.isNumber_binary? {check : RangeCheck} {dtype : DataType} {op : BinaryOp}
    {left right value : Value} (arithmetic : op.opClass = .arithmetic)
    (result : binary? check dtype op left right = some value) : value.IsNumber := by
  have ofInts : ∀ {first second}, binaryInt? check dtype op first second = some value →
      value.IsNumber := by
    intro first second result
    obtain ⟨_, _, -, rfl⟩ := binaryInt?_arithmetic arithmetic result
    trivial
  cases left <;> cases right <;> try contradiction
  case int.int => exact ofInts result
  case bool.bool => cases op <;> first | exact ofInts result | cases arithmetic
  case float.float => cases op <;> cases result <;> trivial

namespace Expr

/-- Arithmetic on truth values never has a value of its type. -/
theorem OnTruths.not_hasType {expr : Expr} (onTruths : expr.OnTruths) (some : 1 ≤ expr.lanes)
    {env : Environment} {value : Value} (isValue : expr.eval env = .some value) :
    ¬ value.HasType expr.dtype := by
  cases expr with
  | binary dtype op lhs rhs =>
    obtain ⟨arithmetic, isBool⟩ := onTruths
    obtain ⟨left, right, lanes, -, -, equal, rfl⟩ := evaluate_binary_eq_some.mp isValue
    have numbers : ∀ lane ∈ lanes, lane.IsNumber := by
      intro lane member
      obtain ⟨input, -, isLane⟩ := exists_of_mem_mapM equal member
      exact Scalar.isNumber_binary? arithmetic isLane
    refine Value.not_hasType_of_isNumber isBool some fun lane member => numbers lane ?_
    exact Value.mem_of_mem_toLanes (fun lane member => (numbers lane member).isLane) member
  | ramp dtype base stride count =>
    obtain ⟨_, _, _, _, lanes, -, -, -, -, equal, rfl⟩ := evaluate_ramp_eq_some.mp isValue
    refine Value.not_hasType_of_isNumber onTruths some fun lane member => ?_
    obtain ⟨index, -, isLane⟩ := exists_of_mem_mapM equal member
    obtain ⟨_, -, rfl⟩ := Option.map_eq_some_iff.mp isLane
    trivial
  | _ => exact onTruths.elim

/-! ### Type soundness -/

/-- The value of a checked expression has as many lanes as its type, and each lane is one of the type or,
for truth values, zero or one. It is a value of the type if the expression holds no arithmetic on truth
values, and it is none if the expression is such arithmetic. -/
theorem Checked.eval_hasType {expr : Expr} (checked : expr.Checked) {env : Environment}
    (typed : ∀ name value, env name = some value → value.HasType name.dtype) {value : Value}
    (isValue : expr.eval env = some value) :
    value.HasTypeUpTo True expr.dtype ∧
    ((∀ node ∈ expr.postOrder, ¬ node.OnTruths) → value.HasType expr.dtype) ∧
    (expr.OnTruths → ¬ value.HasType expr.dtype) := by
  have wide := checked.sound True (allowed_true expr)
  refine ⟨?_, fun noArithmetic => ?_, fun onTruths => onTruths.not_hasType wide.lanes_pos isValue⟩
  · exact wide.hasType (fun name value isGiven => .of_hasType (typed name value isGiven)) isValue
  · have narrow := checked.sound False noArithmetic
    have given : env.TypedUpTo False := fun name value isGiven =>
      .of_hasType (typed name value isGiven)
    exact Value.hasTypeUpTo_false.mp (narrow.hasType given isValue)

/-- A choice between two vectors, of which one counts down from `x` and the other converts the truth
value of a comparison. -/
theorem Checked.eval_hasType_choice :
    let x : Variable := ⟨"x", .int32, false⟩
    let int16 : DataType := .scalar .int 16
    let down : Expr := .ramp (int16.withLanes 2) (.cast int16 x.expr) (.intConst int16 (-1)) 2
    let truth : Expr := .binary .bool .lt x.expr (.intConst .int32 3)
    let flag : Expr := .broadcast (int16.withLanes 2) (.cast int16 truth) 2
    let expr : Expr := .select (int16.withLanes 2) truth down flag
    let value : Value := .vector [.int 2, .int 1]
    expr.Checked ∧ expr.eval (Environment.empty.set x (.int 2)) = some value ∧
      value.HasType (int16.withLanes 2) := by
  intro x int16 down truth flag expr value
  have isX : x.expr.Checked := .variable x (by decide)
  have isStep : (intConst int16 (-1)).Checked := .constant int16 (-1) rfl (by decide) (by decide)
  have isThree : (intConst .int32 3).Checked := .constant .int32 3 rfl (by decide) (by decide)
  have isStart : (Expr.cast int16 x.expr).Checked := .cast isX (rfl : int16.isFloat = false)
  have isDown : down.Checked := .ramp isStart isStep le_rfl rfl
  have builds : mkBinary .lt x.expr (intConst .int32 3) = .ok truth := rfl
  have isTruth : truth.Checked := .binary isX isThree builds
  have isNumber : (Expr.cast int16 truth).Checked := .cast isTruth (rfl : int16.isFloat = false)
  have isFlag : flag.Checked := .broadcast isNumber rfl le_rfl
  have isChecked : expr.Checked := .select isTruth isDown isFlag rfl
  have isValue : expr.eval (Environment.empty.set x (.int 2)) = some value := by
    simp only [expr, value, flag, truth, down, int16, x]
    rfl
  have isGiven : (Value.int 2).HasType .int32 :=
    ⟨[.int 2], rfl, rfl, fun lane member => List.mem_singleton.mp member ▸ ⟨rfl, by decide⟩⟩
  have given : ∀ name value, (Environment.empty.set x (.int 2)) name = some value →
      value.HasType name.dtype := by
    intro name value isValue
    by_cases same : name = x
    · rw [same, Environment.set_self] at isValue
      cases isValue
      exact same ▸ isGiven
    · rw [Environment.set_of_ne _ _ same] at isValue
      cases isValue
  exact ⟨isChecked, isValue, (isChecked.eval_hasType given isValue).2.1 (by decide)⟩

/-- The smaller one of two truth values is a truth value by its type and an integer by its value. -/
theorem Checked.not_eval_hasType :
    let expr : Expr := .binary .bool .min (.boolConst .bool true) (.boolConst .bool false)
    expr.Checked ∧ expr.eval .empty = some (.int 0) ∧ ¬ (Value.int 0).HasType expr.dtype := by
  intro expr
  have isTrue : (boolConst .bool true).Checked := .constant .bool 1 rfl (by decide) (by decide)
  have isFalse : (boolConst .bool false).Checked := .constant .bool 0 rfl (by decide) (by decide)
  have builds : mkBinary .min (boolConst .bool true) (boolConst .bool false) = .ok expr := rfl
  have isValue : expr.eval .empty = some (.int 0) := by rfl
  have onTruths : expr.OnTruths := ⟨rfl, rfl⟩
  exact ⟨.binary isTrue isFalse builds, isValue, onTruths.not_hasType le_rfl isValue⟩

end Expr

end IndexAlgebra
