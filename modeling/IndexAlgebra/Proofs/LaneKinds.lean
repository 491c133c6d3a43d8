/-
This file proves what evaluation keeps of the lanes of values. A value has as many lanes as its type, and
each lane is of a kind that the type tells, if the scalar operators keep the kind. The types of a coherent
expression do not tell all that this takes of a shuffle and of an operation on bits, so that these nodes
are asked to keep the kind as well.
-/
import IndexAlgebra.Proofs.Coherence
import IndexAlgebra.Proofs.Evaluation

namespace IndexAlgebra

namespace Value

/-! ### Scalars -/

/-- The value is a scalar, as every lane of a vector is. -/
def IsLane (value : Value) : Prop := ∀ lanes, value ≠ vector lanes

/-- The scalar is of the kind of a lane of the type. Arithmetic on truth values gives integers. -/
def OfKind (dtype : DataType) : Value → Prop
  | int _ => dtype.isFloat = false
  | bool _ => dtype.isBool = true
  | float _ => dtype.isFloat = true
  | vector _ => False

variable {value : Value}

@[simp]
theorem isLane_int (number : Int) : (int number).IsLane := fun _ equal => by cases equal

@[simp]
theorem isLane_bool (truth : Bool) : (bool truth).IsLane := fun _ equal => by cases equal

@[simp]
theorem isLane_float (number : Binary64) : (float number).IsLane := fun _ equal => by cases equal

theorem OfKind.isLane {dtype : DataType} (ofKind : value.OfKind dtype) : value.IsLane := by
  rintro lanes rfl
  exact ofKind

/-- A scalar is repeated in every lane. -/
theorem IsLane.toLanes (isLane : value.IsLane) (count : Nat) :
    value.toLanes count = List.replicate count value := by
  cases value with
  | vector lanes => exact absurd rfl (isLane lanes)
  | _ => rfl

theorem ofLanes_of_length {lanes : List Value} (several : lanes.length ≠ 1) :
    ofLanes lanes = vector lanes := by
  unfold ofLanes
  split
  next => exact absurd rfl several
  next => rfl

/-- A scalar that is put together of lanes is the only one of them. -/
theorem IsLane.eq_singleton {lanes : List Value} (isLane : value.IsLane)
    (equal : ofLanes lanes = value) : lanes = [value] := by
  unfold ofLanes at equal
  split at equal
  next single => rw [equal]
  next => exact absurd equal.symm (isLane lanes)

/-! ### Lanes of a kind -/

/-- The value has as many lanes as the type, and each lane is of the kind that the type tells. -/
def HasLanes (kind : DataType → Value → Prop) (dtype : DataType) (value : Value) : Prop :=
  ∃ lanes : List Value, value = ofLanes lanes ∧ lanes.length = dtype.lanes ∧
    ∀ lane ∈ lanes, kind dtype lane

variable {kind : DataType → Value → Prop} {dtype : DataType}

theorem HasLanes.of_single {lane : Value} (isKind : kind dtype lane) (scalar : dtype.lanes = 1) :
    lane.HasLanes kind dtype :=
  ⟨[lane], rfl, scalar.symm, fun _ member => List.mem_singleton.mp member ▸ isKind⟩

theorem HasLanes.single (hasLanes : value.HasLanes kind dtype) (scalar : dtype.lanes = 1) :
    kind dtype value := by
  obtain ⟨lanes, rfl, length, areKind⟩ := hasLanes
  obtain ⟨single, rfl⟩ := List.length_eq_one_iff.mp (length.trans scalar)
  exact areKind single List.mem_cons_self

/-- The lanes of a value are as many as are asked for if it has as many or is a scalar. -/
theorem HasLanes.toLanes (areLanes : ∀ lane, kind dtype lane → lane.IsLane)
    (hasLanes : value.HasLanes kind dtype) (count : Nat)
    (enough : dtype.lanes = count ∨ dtype.lanes = 1) :
    (value.toLanes count).length = count ∧ ∀ lane ∈ value.toLanes count, kind dtype lane := by
  by_cases scalar : dtype.lanes = 1
  · have isKind := hasLanes.single scalar
    rw [(areLanes value isKind).toLanes]
    exact ⟨List.length_replicate, fun lane member => List.eq_of_mem_replicate member ▸ isKind⟩
  · obtain ⟨lanes, rfl, length, areKind⟩ := hasLanes
    rw [ofLanes_of_length (length ▸ scalar)]
    exact ⟨length.trans (enough.resolve_right scalar), areKind⟩

theorem HasLanes.of_mapM {α : Type} {f : α → Option Value} {inputs : List α} {lanes : List Value}
    (equal : inputs.mapM f = some lanes) (length : inputs.length = dtype.lanes)
    (areKind : ∀ input ∈ inputs, ∀ lane, f input = some lane → kind dtype lane) :
    (ofLanes lanes).HasLanes kind dtype := by
  refine ⟨lanes, rfl, (forall₂_of_mapM equal).length_eq.symm.trans length, fun lane member => ?_⟩
  obtain ⟨input, isInput, isResult⟩ := exists_of_mem_mapM equal member
  exact areKind input isInput lane isResult

end Value

/-- Every variable that has a value has one with lanes of the kind that its type tells. -/
def Environment.HaveLanes (kind : DataType → Value → Prop) (env : Environment) : Prop :=
  ∀ name value, env name = some value → value.HasLanes kind name.dtype

theorem Environment.HaveLanes.set {kind : DataType → Value → Prop} {env : Environment}
    (haveLanes : env.HaveLanes kind) {name : Variable} {value : Value}
    (hasLanes : value.HasLanes kind name.dtype) : (env.set name value).HaveLanes kind := by
  intro other result isResult
  by_cases same : other = name
  · rw [same, set_self] at isResult
    exact same ▸ Option.some.inj isResult ▸ hasLanes
  · rw [set_of_ne env value same] at isResult
    exact haveLanes other result isResult

theorem Scalar.ofKind_cast? {check : RangeCheck} {dtype : DataType} {operand value : Value}
    (result : cast? check dtype operand = some value) : value.OfKind dtype := by
  unfold cast? at result
  split at result
  next isBool => cases operand <;> cases result <;> exact isBool
  next =>
    split at result
    next isFloat => cases operand <;> cases result <;> exact isFloat
    next notFloat =>
      obtain ⟨number, -, isResult⟩ := Option.bind_eq_some_iff.mp result
      obtain ⟨checked, -, rfl⟩ := Option.map_eq_some_iff.mp isResult
      exact Bool.eq_false_iff.mpr notFloat

namespace Expr

/-! ### Kinds that evaluation keeps -/

/-- A scalar operator keeps the kind, which tells nothing apart that is of the kind of one type. -/
structure LaneKinds (check : RangeCheck) (kind : DataType → Value → Prop) : Prop where
  isLane : ∀ {dtype lane}, kind dtype lane → lane.IsLane
  ofKind : ∀ {dtype lane}, lane.OfKind dtype → kind dtype lane
  ofElement : ∀ {dtype other lane}, dtype.element = other.element → kind dtype lane → kind other lane
  ofInt : ∀ {dtype lane number}, kind dtype lane → lane.asInt? = some number →
    ∀ other, kind dtype (.int other)
  binary : ∀ {dtype element op left right value}, kind dtype left →
    Scalar.binary? check element op left right = some value → kind (binaryType op dtype) value

/-- A shuffle has as many indices as lanes, and the lanes that it chooses from are of the kind that its own
type tells. So is the first operand of an operation on bits. -/
def KeepsLanes (kind : DataType → Value → Prop) : Expr → Prop
  | shuffle dtype vectors indices => indices.length = dtype.lanes ∧
    ∀ vector ∈ vectors, ∀ lane, kind vector.dtype lane → kind dtype lane
  | call _ .ifThenElse _ | call _ (.external _) _ => True
  | call dtype _ args => ∀ operand ∈ args.head?, ∀ lane, kind operand.dtype lane → kind dtype lane
  | _ => True

theorem lanes_eq_one_of_isScalar {dtype : DataType} (scalar : dtype.isScalar = true) :
    dtype.lanes = 1 := by simpa [DataType.isScalar] using scalar

namespace LaneKinds

variable {check : RangeCheck} {kind : DataType → Value → Prop} {env : Environment}
  {expr cond lhs rhs operand : Expr} {dtype : DataType} {value : Value} {count : Nat}

variable (kinds : LaneKinds check kind)

include kinds

/-- A lane that is read as an integer tells that the scalar has the kind of other integers. -/
theorem ofInt_of_hasLanes (hasLanes : value.HasLanes kind dtype) {number : Int}
    (isInt : value.asInt? = some number) (other : Int) : kind dtype (.int other) := by
  obtain ⟨lanes, rfl, -, areKind⟩ := hasLanes
  unfold Value.ofLanes at isInt
  split at isInt
  next single => exact kinds.ofInt (areKind single List.mem_cons_self) isInt other
  next => cases isInt

theorem hasLanes_cast (same : dtype.lanes = operand.lanes)
    (ofOperand : ∀ value, evaluate check env operand = some value → value.HasLanes kind operand.dtype)
    (evaluated : evaluate check env (cast dtype operand) = some value) : value.HasLanes kind dtype := by
  obtain ⟨input, lanes, isInput, equal, rfl⟩ := evaluate_cast_eq_some.mp evaluated
  have inputs := (ofOperand input isInput).toLanes (fun _ => kinds.isLane) dtype.lanes (.inl same.symm)
  refine .of_mapM equal inputs.1 fun _ _ lane isLane => ?_
  exact kinds.ofElement (show dtype.element.element = dtype.element from rfl)
    (kinds.ofKind (Scalar.ofKind_cast? isLane))

theorem hasLanes_binary {op : BinaryOp} (same : lhs.dtype = rhs.dtype)
    (ofLhs : ∀ value, evaluate check env lhs = some value → value.HasLanes kind lhs.dtype)
    (ofRhs : ∀ value, evaluate check env rhs = some value → value.HasLanes kind rhs.dtype)
    (evaluated : evaluate check env (.binary (binaryType op lhs.dtype) op lhs rhs) = some value) :
    value.HasLanes kind (binaryType op lhs.dtype) := by
  obtain ⟨left, right, lanes, isLeft, isRight, equal, rfl⟩ := evaluate_binary_eq_some.mp evaluated
  have count : lhs.dtype.lanes = (binaryType op lhs.dtype).lanes := by
    unfold binaryType
    split <;> rfl
  have lefts := (ofLhs left isLeft).toLanes (fun _ => kinds.isLane) _ (.inl count)
  have rights := (ofRhs right isRight).toLanes (fun _ => kinds.isLane) (binaryType op lhs.dtype).lanes
    (.inl ((congrArg DataType.lanes same.symm).trans count))
  refine .of_mapM equal (by rw [List.length_zip, lefts.1, rights.1, Nat.min_self]) ?_
  intro input isInput lane isLane
  exact kinds.binary (lefts.2 _ (List.of_mem_zip isInput).1) isLane

theorem hasLanes_select {onTrue onFalse : Expr} (takenType : onTrue.dtype = dtype)
    (refusedType : onFalse.dtype = dtype) (enough : cond.lanes = dtype.lanes ∨ cond.lanes = 1)
    (ofCond : ∀ value, evaluate check env cond = some value → value.HasLanes kind cond.dtype)
    (ofTaken : ∀ value, evaluate check env onTrue = some value → value.HasLanes kind onTrue.dtype)
    (ofRefused : ∀ value, evaluate check env onFalse = some value → value.HasLanes kind onFalse.dtype)
    (evaluated : evaluate check env (select dtype cond onTrue onFalse) = some value) :
    value.HasLanes kind dtype := by
  obtain ⟨truth, taken, refused, lanes, isTruth, isTaken, isRefused, equal, rfl⟩ :=
    evaluate_select_eq_some.mp evaluated
  have truths := (ofCond truth isTruth).toLanes (fun _ => kinds.isLane) dtype.lanes enough
  have takens := (takenType ▸ ofTaken taken isTaken).toLanes (fun _ => kinds.isLane) dtype.lanes (.inl rfl)
  have refuseds := (refusedType ▸ ofRefused refused isRefused).toLanes (fun _ => kinds.isLane) dtype.lanes
    (.inl rfl)
  refine .of_mapM equal ?_ fun input isInput lane isLane => ?_
  · rw [List.length_zip, List.length_zip, truths.1, takens.1, refuseds.1, Nat.min_self, Nat.min_self]
  · have branches := List.of_mem_zip (List.of_mem_zip isInput).2
    obtain ⟨holds, -, rfl⟩ := Option.map_eq_some_iff.mp isLane
    cases holds
    · exact refuseds.2 _ branches.2
    · exact takens.2 _ branches.1

theorem hasLanes_ramp {base stride : Expr} (several : 2 ≤ count)
    (ofBase : ∀ value, evaluate check env base = some value → value.HasLanes kind base.dtype)
    (evaluated : evaluate check env (ramp (base.dtype.withLanes count) base stride count) = some value) :
    value.HasLanes kind (base.dtype.withLanes count) := by
  obtain ⟨first, _, _, _, lanes, isFirst, isInt, -, -, equal, rfl⟩ := evaluate_ramp_eq_some.mp evaluated
  have length : lanes.length = count := by
    rw [← (forall₂_of_mapM equal).length_eq, List.length_range]
  rw [← Value.ofLanes_of_length (by omega : lanes.length ≠ 1)]
  refine .of_mapM equal List.length_range fun index _ lane isLane => ?_
  obtain ⟨number, -, rfl⟩ := Option.map_eq_some_iff.mp isLane
  exact kinds.ofElement (show base.dtype.element = (base.dtype.withLanes count).element from rfl)
    (kinds.ofInt_of_hasLanes (ofBase first isFirst) isInt number)

theorem hasLanes_broadcast (single : operand.lanes = 1) (several : 2 ≤ count)
    (ofOperand : ∀ value, evaluate check env operand = some value → value.HasLanes kind operand.dtype)
    (evaluated : evaluate check env (broadcast (operand.dtype.withLanes count) operand count) =
      some value) : value.HasLanes kind (operand.dtype.withLanes count) := by
  obtain ⟨input, isInput, rfl⟩ := evaluate_broadcast_eq_some.mp evaluated
  refine ⟨List.replicate count input, ?_, List.length_replicate, fun lane member => ?_⟩
  · exact (Value.ofLanes_of_length (by rw [List.length_replicate]; omega)).symm
  · rw [List.eq_of_mem_replicate member]
    exact kinds.ofElement (show operand.dtype.element = (operand.dtype.withLanes count).element from rfl)
      ((ofOperand input isInput).single single)

theorem hasLanes_shuffle {vectors : List Expr} {indices : List Nat}
    (keeps : KeepsLanes kind (shuffle dtype vectors indices))
    (ofVector : ∀ vector ∈ vectors, ∀ value, evaluate check env vector = some value →
      value.HasLanes kind vector.dtype)
    (evaluated : evaluate check env (shuffle dtype vectors indices) = some value) :
    value.HasLanes kind dtype := by
  obtain ⟨length, chosenKind⟩ := keeps
  obtain ⟨lanes, chosen, areLanes, equal, rfl⟩ := evaluate_shuffle_eq_some.mp evaluated
  refine .of_mapM equal length fun index _ lane isLane => ?_
  obtain ⟨vector, isVector, value, isValue, member⟩ :=
    exists_of_mem_evaluateLanes areLanes (List.mem_of_getElem? isLane)
  exact chosenKind vector isVector lane
    (((ofVector vector isVector value isValue).toLanes (fun _ => kinds.isLane) _ (.inl rfl)).2 lane member)

theorem hasLanes_call {op : CallOp} {args : List Expr} (keeps : KeepsLanes kind (call dtype op args))
    (typed : ChoiceTyped dtype op args)
    (ofArg : ∀ arg ∈ args, ∀ value, evaluate check env arg = some value → value.HasLanes kind arg.dtype)
    (evaluated : evaluate check env (call dtype op args) = some value) : value.HasLanes kind dtype := by
  rcases call_cases evaluated with
    ⟨rfl, cond, onTrue, onFalse, rfl⟩ | ⟨rfl, operand, rfl⟩ | ⟨lhs, rhs, rfl⟩
  · obtain ⟨-, _, truth, -, -, isResult⟩ := evaluate_ifThenElse_eq_some.mp evaluated
    obtain ⟨-, taken, refused⟩ := typed
    cases truth
    · exact refused ▸ ofArg onFalse (by simp) value isResult
    · exact taken ▸ ofArg onTrue (by simp) value isResult
  · obtain ⟨scalar, _, _, isOperand, isInt, isResult⟩ := evaluate_bitwiseNot_eq_some.mp evaluated
    obtain ⟨number, -, rfl⟩ := Option.map_eq_some_iff.mp isResult
    refine .of_single (keeps operand rfl _ ?_) (lanes_eq_one_of_isScalar scalar)
    exact kinds.ofInt_of_hasLanes (ofArg operand (by simp) _ isOperand) isInt number
  · obtain ⟨scalar, _, _, _, _, _, isLeft, isInt, -, -, bits, isResult⟩ :=
      evaluate_bitwise_eq_some.mp evaluated
    obtain ⟨number, -, rfl⟩ := Option.map_eq_some_iff.mp isResult
    have ofFirst : ∀ lane, kind lhs.dtype lane → kind dtype lane := by
      cases op <;> first | exact keeps lhs rfl | cases bits
    refine .of_single (ofFirst _ ?_) (lanes_eq_one_of_isScalar scalar)
    exact kinds.ofInt_of_hasLanes (ofArg lhs (by simp) _ isLeft) isInt number

/-- The value of a coherent expression has the lanes that its type tells, if those of variables do and
shuffles and operations on bits keep the kind. -/
theorem hasLanes (coherent : expr.Coherent) (keeps : ∀ node ∈ expr.postOrder, node.KeepsLanes kind)
    (haveLanes : env.HaveLanes kind) (evaluated : evaluate check env expr = some value) :
    value.HasLanes kind expr.dtype := by
  induction expr using childrenInduction generalizing env value with
  | step expr inductionHypothesis =>
    have ofNode : expr.KeepsLanes kind := keeps expr expr.self_mem_postOrder
    have keepsChild : ∀ child ∈ expr.children, ∀ node ∈ child.postOrder, node.KeepsLanes kind :=
      fun child isChild node inside => keeps node (mem_postOrder.mpr (.inr ⟨child, isChild, inside⟩))
    have ofChild : ∀ child ∈ expr.children, ∀ value, evaluate check env child = some value →
        value.HasLanes kind child.dtype := fun child isChild value isValue =>
      inductionHypothesis child isChild (coherent.child isChild) (keepsChild child isChild) haveLanes
        isValue
    cases expr with
    | var dtype name =>
      rw [Coherent] at coherent
      rw [Expr.dtype, coherent.1]
      exact haveLanes name value evaluated
    | intConst dtype number =>
      rw [Coherent] at coherent
      cases evaluated
      exact .of_single (kinds.ofKind (DataType.isFloat_of_isInteger coherent.1)) coherent.2
    | floatConst dtype number =>
      rw [Coherent] at coherent
      cases evaluated
      exact .of_single (kinds.ofKind coherent.1) coherent.2
    | boolConst dtype truth =>
      rw [Coherent] at coherent
      cases evaluated
      rw [Expr.dtype, coherent]
      exact .of_single (kinds.ofKind rfl) rfl
    | cast dtype operand =>
      rw [Coherent] at coherent
      exact kinds.hasLanes_cast coherent.2.2 (ofChild operand (List.mem_singleton_self operand)) evaluated
    | binary dtype op lhs rhs =>
      rw [Coherent] at coherent
      obtain ⟨-, -, same, rfl, -⟩ := coherent
      exact kinds.hasLanes_binary same (ofChild lhs (by simp [children])) (ofChild rhs (by simp [children]))
        evaluated
    | not dtype operand =>
      rw [Coherent] at coherent
      obtain ⟨input, lanes, isInput, equal, rfl⟩ := evaluate_not_eq_some.mp evaluated
      have inputs := (ofChild operand (List.mem_singleton_self operand) input isInput).toLanes
        (fun _ => kinds.isLane) dtype.lanes (.inl (by rw [coherent.2.1]))
      refine .of_mapM equal inputs.1 fun _ _ lane isLane => ?_
      obtain ⟨truth, -, rfl⟩ := Option.map_eq_some_iff.mp isLane
      exact kinds.ofKind coherent.2.2
    | select dtype cond onTrue onFalse =>
      rw [Coherent] at coherent
      obtain ⟨-, -, -, -, takenType, refusedType, enough⟩ := coherent
      exact kinds.hasLanes_select takenType refusedType enough (ofChild cond (by simp [children]))
        (ofChild onTrue (by simp [children])) (ofChild onFalse (by simp [children])) evaluated
    | ramp dtype base stride count =>
      rw [Coherent] at coherent
      obtain ⟨-, -, -, -, several, rfl⟩ := coherent
      exact kinds.hasLanes_ramp several (ofChild base (by simp [children])) evaluated
    | broadcast dtype operand count =>
      rw [Coherent] at coherent
      obtain ⟨-, single, several, rfl⟩ := coherent
      exact kinds.hasLanes_broadcast single several (ofChild operand (List.mem_singleton_self operand))
        evaluated
    | shuffle dtype vectors indices => exact kinds.hasLanes_shuffle ofNode ofChild evaluated
    | letIn dtype name operand body =>
      have isBody : body ∈ (letIn dtype name operand body).children := by simp [children]
      obtain ⟨bound, isBound, isResult⟩ := evaluate_letIn_eq_some.mp evaluated
      have ofBound := ofChild operand (by simp [children]) bound isBound
      have bodyCoherent := coherent.child isBody
      rw [Coherent] at coherent
      obtain ⟨-, -, sameType, rfl⟩ := coherent
      exact inductionHypothesis body isBody bodyCoherent (keepsChild body isBody)
        (haveLanes.set (sameType ▸ ofBound)) isResult
    | call dtype op args =>
      rw [Coherent] at coherent
      exact kinds.hasLanes_call ofNode coherent.2.2 ofChild evaluated

end LaneKinds

end Expr

end IndexAlgebra
