/-
This file says when an expression is well typed, and which values belong to a type. The typing
rules are those of the builders of `IndexAlgebra.Expr.Build`: every node has the type that its
operands call for, vectors have at least two lanes, and constants fit their types. An environment
is typed when every variable has a value of its own type, which is not negative for a shape
variable.
-/
import IndexAlgebra.Evaluation
import IndexAlgebra.Expr.Build
import IndexAlgebra.Expr.Variables

namespace IndexAlgebra

/-! ### Types -/

namespace DataType

/-- The type has lanes of 1 to 128 bits, and at least one of them. Truth values have one bit. -/
def Valid (dtype : DataType) : Prop :=
  1 ≤ dtype.bits ∧ dtype.bits ≤ 128 ∧ 1 ≤ dtype.lanes ∧ (dtype.isBool = true → dtype.bits = 1)

instance (dtype : DataType) : Decidable dtype.Valid := by unfold Valid; infer_instance

@[simp]
theorem isInteger_withLanes (dtype : DataType) (lanes : Nat) :
    (dtype.withLanes lanes).isInteger = dtype.isInteger := rfl

@[simp]
theorem isFloat_withLanes (dtype : DataType) (lanes : Nat) :
    (dtype.withLanes lanes).isFloat = dtype.isFloat := rfl

@[simp]
theorem isBool_withLanes (dtype : DataType) (lanes : Nat) :
    (dtype.withLanes lanes).isBool = dtype.isBool := rfl

@[simp]
theorem fits_withLanes (dtype : DataType) (lanes : Nat) (value : Int) :
    (dtype.withLanes lanes).fits value = dtype.fits value := rfl

@[simp]
theorem lanes_withLanes (dtype : DataType) (lanes : Nat) : (dtype.withLanes lanes).lanes = lanes :=
  rfl

@[simp]
theorem withLanes_withLanes (dtype : DataType) (first second : Nat) :
    (dtype.withLanes first).withLanes second = dtype.withLanes second := rfl

@[simp]
theorem withLanes_lanes (dtype : DataType) : dtype.withLanes dtype.lanes = dtype := rfl

@[simp]
theorem element_withLanes (dtype : DataType) (lanes : Nat) :
    (dtype.withLanes lanes).element = dtype.element := rfl

@[simp]
theorem isInteger_element (dtype : DataType) : dtype.element.isInteger = dtype.isInteger := rfl

@[simp]
theorem isFloat_element (dtype : DataType) : dtype.element.isFloat = dtype.isFloat := rfl

@[simp]
theorem isBool_element (dtype : DataType) : dtype.element.isBool = dtype.isBool := rfl

@[simp]
theorem fits_element (dtype : DataType) (value : Int) :
    dtype.element.fits value = dtype.fits value := rfl

@[simp]
theorem bits_element (dtype : DataType) : dtype.element.bits = dtype.bits := rfl

theorem isFloat_of_isInteger {dtype : DataType} (integer : dtype.isInteger = true) :
    dtype.isFloat = false := by
  obtain ⟨code, bits, lanes⟩ := dtype
  cases code <;> simp_all [isInteger, isInt, isUint, isFloat]

theorem isFloat_of_isBool {dtype : DataType} (truth : dtype.isBool = true) :
    dtype.isFloat = false := by
  obtain ⟨code, bits, lanes⟩ := dtype
  cases code <;> simp_all [isBool, isFloat]

theorem isInteger_of_isBool {dtype : DataType} (truth : dtype.isBool = true) :
    dtype.isInteger = false := by
  obtain ⟨code, bits, lanes⟩ := dtype
  cases code <;> simp_all [isInteger, isInt, isUint, isBool]

theorem isBool_of_isInteger {dtype : DataType} (integer : dtype.isInteger = true) :
    dtype.isBool = false := by
  obtain ⟨code, bits, lanes⟩ := dtype
  cases code <;> simp_all [isInteger, isInt, isUint, isBool]

/-- There is one scalar type of truth values. -/
theorem eq_bool {dtype : DataType} (valid : dtype.Valid) (isBool : dtype.isBool = true)
    (scalar : dtype.lanes = 1) : dtype = .bool := by
  have bits := valid.2.2.2 isBool
  obtain ⟨code, bits', lanes⟩ := dtype
  have code : code = .bool := beq_iff_eq.mp isBool
  simp only at scalar bits
  rw [scalar, bits, code]
  rfl

/-- A truth value is zero or one. -/
theorem zero_or_one_of_fits {dtype : DataType} (isBool : dtype.isBool = true) {value : Int}
    (fits : dtype.fits value = true) : value = 0 ∨ value = 1 := by
  obtain ⟨code, bits, lanes⟩ := dtype
  have code : code = .bool := beq_iff_eq.mp isBool
  subst code
  have within : 0 ≤ value ∧ value ≤ 1 := of_decide_eq_true fits
  omega

/-- Every type that is not a floating-point one holds zero. -/
theorem fits_zero {dtype : DataType} (notFloat : dtype.isFloat = false) : dtype.fits 0 = true := by
  obtain ⟨code, bits, lanes⟩ := dtype
  have positive (exponent : Nat) : (0 : Int) < twoPow exponent :=
    Int.natCast_pos.mpr (twoPow_pos exponent)
  cases code with
  | int =>
    simp only [fits, minInt?, maxInt?, decide_eq_true_eq]
    split
    · decide
    · have := positive (bits - 1)
      omega
  | uint =>
    simp only [fits, minInt?, maxInt?, decide_eq_true_eq]
    split
    · decide
    · have := positive bits
      omega
  | bool => rfl
  | float => cases notFloat
  | bfloat => cases notFloat

end DataType

/-! ### Well-typed expressions -/

namespace Expr

/-- The type of a call is that of its first argument. A choice has the type of its branches, and
its condition is a scalar truth value. -/
def CallTyped (dtype : DataType) : CallOp → List Expr → Prop
  | .ifThenElse, [cond, onTrue, onFalse] =>
    cond.dtype = .bool ∧ onTrue.dtype = dtype ∧ onFalse.dtype = dtype
  | .ifThenElse, _ => False
  | .external _, _ => True
  | _, args => dtype = (args.head?.map Expr.dtype).getD .int32

mutual

/-- The expression is typed as the builders type it. -/
def WellTyped : Expr → Prop
  | var dtype name => dtype = name.dtype ∧ dtype.Valid
  | intConst dtype value =>
    dtype.Valid ∧ dtype.isInteger = true ∧ dtype.lanes = 1 ∧ dtype.fits value = true
  | floatConst dtype _ => dtype.Valid ∧ dtype.isFloat = true ∧ dtype.lanes = 1
  | boolConst dtype _ => dtype = .bool
  | cast dtype value => value.WellTyped ∧ dtype.Valid ∧ dtype.lanes = value.lanes
  | binary dtype op lhs rhs =>
    lhs.WellTyped ∧ rhs.WellTyped ∧ lhs.dtype = rhs.dtype ∧ dtype = binaryType op lhs.dtype ∧
      (op.isLogical = true → lhs.dtype.isBool = true)
  | not dtype value => value.WellTyped ∧ dtype = value.dtype ∧ dtype.isBool = true
  | select dtype cond onTrue onFalse =>
    cond.WellTyped ∧ onTrue.WellTyped ∧ onFalse.WellTyped ∧ cond.dtype.isBool = true ∧
      onTrue.dtype = onFalse.dtype ∧ dtype = onTrue.dtype ∧
      (cond.lanes = onTrue.lanes ∨ cond.lanes = 1)
  | ramp dtype base stride lanes =>
    base.WellTyped ∧ stride.WellTyped ∧ base.dtype = stride.dtype ∧ base.lanes = 1 ∧ 2 ≤ lanes ∧
      dtype = base.dtype.withLanes lanes
  | broadcast dtype value lanes =>
    value.WellTyped ∧ value.lanes = 1 ∧ 2 ≤ lanes ∧ dtype = value.dtype.withLanes lanes
  | shuffle dtype vectors indices =>
    AllWellTyped vectors ∧ (∀ vector ∈ vectors, vector.dtype.element = dtype.element) ∧
      dtype.Valid ∧ indices.length = dtype.lanes
  | letIn dtype name value body =>
    value.WellTyped ∧ body.WellTyped ∧ value.dtype = name.dtype ∧ dtype = body.dtype
  | call dtype op args => AllWellTyped args ∧ dtype.Valid ∧ CallTyped dtype op args

/-- Every expression of the list is well typed. -/
def AllWellTyped : List Expr → Prop
  | [] => True
  | expr :: rest => expr.WellTyped ∧ AllWellTyped rest

end

instance (dtype : DataType) (op : CallOp) (args : List Expr) :
    Decidable (CallTyped dtype op args) := by
  unfold CallTyped
  split <;> infer_instance

mutual

/-- Whether an expression is well typed can be computed. -/
def decideWellTyped : (expr : Expr) → Decidable expr.WellTyped
  | var dtype name => inferInstanceAs (Decidable (dtype = name.dtype ∧ dtype.Valid))
  | intConst dtype value =>
    inferInstanceAs (Decidable
      (dtype.Valid ∧ dtype.isInteger = true ∧ dtype.lanes = 1 ∧ dtype.fits value = true))
  | floatConst dtype _ =>
    inferInstanceAs (Decidable (dtype.Valid ∧ dtype.isFloat = true ∧ dtype.lanes = 1))
  | boolConst dtype _ => inferInstanceAs (Decidable (dtype = .bool))
  | cast dtype value =>
    have := decideWellTyped value
    inferInstanceAs (Decidable (value.WellTyped ∧ dtype.Valid ∧ dtype.lanes = value.lanes))
  | binary dtype op lhs rhs =>
    have := decideWellTyped lhs
    have := decideWellTyped rhs
    inferInstanceAs (Decidable (lhs.WellTyped ∧ rhs.WellTyped ∧ lhs.dtype = rhs.dtype ∧
      dtype = binaryType op lhs.dtype ∧ (op.isLogical = true → lhs.dtype.isBool = true)))
  | not dtype value =>
    have := decideWellTyped value
    inferInstanceAs (Decidable (value.WellTyped ∧ dtype = value.dtype ∧ dtype.isBool = true))
  | select dtype cond onTrue onFalse =>
    have := decideWellTyped cond
    have := decideWellTyped onTrue
    have := decideWellTyped onFalse
    inferInstanceAs (Decidable (cond.WellTyped ∧ onTrue.WellTyped ∧ onFalse.WellTyped ∧
      cond.dtype.isBool = true ∧ onTrue.dtype = onFalse.dtype ∧ dtype = onTrue.dtype ∧
      (cond.lanes = onTrue.lanes ∨ cond.lanes = 1)))
  | ramp dtype base stride lanes =>
    have := decideWellTyped base
    have := decideWellTyped stride
    inferInstanceAs (Decidable (base.WellTyped ∧ stride.WellTyped ∧ base.dtype = stride.dtype ∧
      base.lanes = 1 ∧ 2 ≤ lanes ∧ dtype = base.dtype.withLanes lanes))
  | broadcast dtype value lanes =>
    have := decideWellTyped value
    inferInstanceAs (Decidable
      (value.WellTyped ∧ value.lanes = 1 ∧ 2 ≤ lanes ∧ dtype = value.dtype.withLanes lanes))
  | shuffle dtype vectors indices =>
    have := decideAllWellTyped vectors
    inferInstanceAs (Decidable (AllWellTyped vectors ∧
      (∀ vector ∈ vectors, vector.dtype.element = dtype.element) ∧ dtype.Valid ∧
      indices.length = dtype.lanes))
  | letIn dtype name value body =>
    have := decideWellTyped value
    have := decideWellTyped body
    inferInstanceAs (Decidable
      (value.WellTyped ∧ body.WellTyped ∧ value.dtype = name.dtype ∧ dtype = body.dtype))
  | call dtype op args =>
    have := decideAllWellTyped args
    inferInstanceAs (Decidable (AllWellTyped args ∧ dtype.Valid ∧ CallTyped dtype op args))

/-- Whether all expressions of a list are well typed can be computed. -/
def decideAllWellTyped : (exprs : List Expr) → Decidable (AllWellTyped exprs)
  | [] => inferInstanceAs (Decidable True)
  | expr :: rest =>
    have := decideWellTyped expr
    have := decideAllWellTyped rest
    inferInstanceAs (Decidable (expr.WellTyped ∧ AllWellTyped rest))

end

instance (expr : Expr) : Decidable expr.WellTyped := decideWellTyped expr

theorem allWellTyped_iff {exprs : List Expr} :
    AllWellTyped exprs ↔ ∀ expr ∈ exprs, expr.WellTyped := by
  induction exprs with
  | nil => simp [AllWellTyped]
  | cons expr rest inductionHypothesis => simp [AllWellTyped, inductionHypothesis]

@[simp]
theorem valid_withLanes {dtype : DataType} {lanes : Nat} (valid : dtype.Valid)
    (some : 1 ≤ lanes) : (dtype.withLanes lanes).Valid :=
  ⟨valid.1, valid.2.1, some, valid.2.2.2⟩

theorem valid_bool_withLanes {lanes : Nat} (some : 1 ≤ lanes) :
    (DataType.bool.withLanes lanes).Valid := valid_withLanes (by decide) some

theorem valid_binaryType {op : BinaryOp} {dtype : DataType} (valid : dtype.Valid) :
    (binaryType op dtype).Valid := by
  unfold binaryType
  split
  · exact valid_bool_withLanes valid.2.2.1
  · exact valid

/-- The type of a well-typed expression is valid. -/
theorem WellTyped.valid : {expr : Expr} → expr.WellTyped → expr.dtype.Valid
  | var .., typed => typed.2
  | intConst .., typed => typed.1
  | floatConst .., typed => typed.1
  | boolConst .., typed => by
    rw [WellTyped] at typed
    simp only [dtype, typed]
    decide
  | cast .., typed => by
    rw [WellTyped] at typed
    exact typed.2.1
  | binary _ _ lhs _, typed => by
    rw [WellTyped] at typed
    obtain ⟨left, -, -, rfl, -⟩ := typed
    exact valid_binaryType left.valid
  | not _ value, typed => by
    rw [WellTyped] at typed
    obtain ⟨operand, rfl, -⟩ := typed
    exact operand.valid
  | select _ _ onTrue _, typed => by
    rw [WellTyped] at typed
    obtain ⟨-, taken, -, -, -, rfl, -⟩ := typed
    exact taken.valid
  | ramp _ base _ _, typed => by
    rw [WellTyped] at typed
    obtain ⟨first, -, -, -, several, rfl⟩ := typed
    exact valid_withLanes first.valid (by omega)
  | broadcast _ value _, typed => by
    rw [WellTyped] at typed
    obtain ⟨operand, -, several, rfl⟩ := typed
    exact valid_withLanes operand.valid (by omega)
  | shuffle .., typed => by
    rw [WellTyped] at typed
    exact typed.2.2.1
  | letIn _ _ _ body, typed => by
    rw [WellTyped] at typed
    obtain ⟨-, inner, -, rfl⟩ := typed
    exact inner.valid
  | call .., typed => by
    rw [WellTyped] at typed
    exact typed.2.1

/-- A scalar integer constant is a constant node. -/
theorem ofInt_of_scalar {dtype : DataType} (scalar : dtype.lanes = 1)
    (isInteger : dtype.isInteger = true) (value : Int) : ofInt dtype value = intConst dtype value := by
  rw [ofInt, if_neg (by simp [DataType.isVector, scalar]), scalarOfInt,
    if_neg (by simp [DataType.isFloat_of_isInteger isInteger]),
    if_neg (by simp [DataType.isBool_of_isInteger isInteger])]

/-! ### Expressions over integers and truth values -/

/-- No node has a floating-point type. -/
def Integral (expr : Expr) : Prop := ∀ node ∈ expr.postOrder, node.dtype.isFloat = false

instance (expr : Expr) : Decidable expr.Integral := by unfold Integral; infer_instance

theorem mem_postOrderList {node : Expr} {exprs : List Expr} :
    node ∈ postOrderList exprs ↔ ∃ expr ∈ exprs, node ∈ expr.postOrder := by
  induction exprs with
  | nil => simp [postOrderList]
  | cons expr rest inductionHypothesis => simp [postOrderList, inductionHypothesis]

theorem mem_postOrder {node expr : Expr} :
    node ∈ expr.postOrder ↔ node = expr ∨ ∃ child ∈ expr.children, node ∈ child.postOrder := by
  cases expr <;> simp [postOrder, children, mem_postOrderList, or_comm, or_left_comm, or_assoc]

theorem integral_iff {expr : Expr} :
    expr.Integral ↔ expr.dtype.isFloat = false ∧ ∀ child ∈ expr.children, child.Integral := by
  constructor
  · intro integral
    exact ⟨integral expr expr.self_mem_postOrder,
      fun child member node inside => integral node (mem_postOrder.mpr (.inr ⟨child, member, inside⟩))⟩
  · rintro ⟨own, children⟩ node member
    rcases mem_postOrder.mp member with rfl | ⟨child, isChild, inside⟩
    · exact own
    · exact children child isChild node inside

/-! ### Nodes of an expression -/

theorem sizeOf_child {expr child : Expr} (member : child ∈ expr.children) :
    sizeOf child < sizeOf expr := by
  cases expr with
  | shuffle dtype vectors indices =>
    have smaller : sizeOf child < sizeOf vectors := List.sizeOf_lt_of_mem member
    simp only [shuffle.sizeOf_spec]
    omega
  | call dtype op args =>
    have smaller : sizeOf child < sizeOf args := List.sizeOf_lt_of_mem member
    simp only [call.sizeOf_spec]
    omega
  | _ => simp_all [children] <;> grind

/-- What holds of every node whose operands it holds of holds of every expression. -/
theorem childrenInduction {motive : Expr → Prop}
    (step : ∀ expr, (∀ child ∈ expr.children, motive child) → motive expr) (expr : Expr) :
    motive expr := step expr fun child _ => childrenInduction step child
termination_by sizeOf expr
decreasing_by exact sizeOf_child ‹_›

/-- What passes from a node to its operands passes to every node inside it. -/
theorem of_mem_postOrder {holds : Expr → Prop}
    (step : ∀ expr, holds expr → ∀ child ∈ expr.children, holds child) (expr : Expr)
    (root : holds expr) {node : Expr} (member : node ∈ expr.postOrder) : holds node := by
  induction expr using childrenInduction with
  | step expr inductionHypothesis =>
    rcases mem_postOrder.mp member with rfl | ⟨child, isChild, inside⟩
    · exact root
    · exact inductionHypothesis child isChild (step expr root child isChild) inside

theorem WellTyped.child {expr child : Expr} (typed : expr.WellTyped)
    (member : child ∈ expr.children) : child.WellTyped := by
  cases expr with
  | shuffle dtype vectors indices =>
    rw [WellTyped] at typed
    exact allWellTyped_iff.mp typed.1 child member
  | call dtype op args =>
    rw [WellTyped] at typed
    exact allWellTyped_iff.mp typed.1 child member
  | _ =>
    rw [WellTyped] at typed
    simp only [children, List.mem_cons, List.not_mem_nil, or_false] at member
    all_goals grind

theorem mem_freeOccurrencesList {name : Variable} {exprs : List Expr} :
    name ∈ freeOccurrencesList exprs ↔ ∃ expr ∈ exprs, name ∈ expr.freeOccurrences := by
  induction exprs with
  | nil => simp [freeOccurrencesList]
  | cons expr rest inductionHypothesis => simp [freeOccurrencesList, inductionHypothesis]

/-- A variable that occurs free in a node is the node or occurs free in an operand. -/
theorem exists_child_of_mem_freeOccurrences {name : Variable} {expr : Expr}
    (occurs : name ∈ expr.freeOccurrences) :
    (∃ dtype, expr = var dtype name) ∨ ∃ child ∈ expr.children, name ∈ child.freeOccurrences := by
  cases expr <;>
    simp only [freeOccurrences, List.mem_append, List.mem_singleton, List.mem_filter,
      List.not_mem_nil, mem_freeOccurrencesList] at occurs <;>
    simp [children] <;> grind

/-- A variable that occurs free is mentioned. -/
theorem mem_mentions_of_mem_freeOccurrences {name : Variable} {expr : Expr}
    (occurs : name ∈ expr.freeOccurrences) : name ∈ expr.mentions := by
  have node : ∃ dtype, var dtype name ∈ expr.postOrder := by
    induction expr using childrenInduction with
    | step expr inductionHypothesis =>
      rcases exists_child_of_mem_freeOccurrences occurs with ⟨dtype, rfl⟩ | ⟨child, isChild, inside⟩
      · exact ⟨dtype, self_mem_postOrder _⟩
      · obtain ⟨dtype, member⟩ := inductionHypothesis child isChild inside
        exact ⟨dtype, mem_postOrder.mpr (.inr ⟨child, isChild, member⟩)⟩
  obtain ⟨dtype, member⟩ := node
  exact List.mem_filterMap.mpr ⟨var dtype name, member, rfl⟩

/-- Every variable node has the type of its variable. -/
def NamesTyped (expr : Expr) : Prop :=
  ∀ dtype name, var dtype name ∈ expr.postOrder → dtype = name.dtype

theorem NamesTyped.child {expr child : Expr} (typed : expr.NamesTyped)
    (isChild : child ∈ expr.children) : child.NamesTyped := fun dtype name member =>
  typed dtype name (mem_postOrder.mpr (.inr ⟨child, isChild, member⟩))

theorem WellTyped.namesTyped {expr : Expr} (typed : expr.WellTyped) : expr.NamesTyped := by
  intro dtype name member
  have node : (var dtype name).WellTyped :=
    of_mem_postOrder (fun _ typed _ isChild => typed.child isChild) expr typed member
  rw [WellTyped] at node
  exact node.1

end Expr

/-! ### Values of a type -/

namespace Value

/-- The scalar is one lane of the type. -/
def InLane (dtype : DataType) : Value → Prop
  | int value => dtype.isInteger = true ∧ dtype.fits value = true
  | bool _ => dtype.isBool = true
  | float _ => dtype.isFloat = true
  | vector _ => False

instance (dtype : DataType) (value : Value) : Decidable (value.InLane dtype) := by
  unfold InLane
  split <;> infer_instance

/-- The value has as many lanes as the type, and each lane is one of the type. -/
def HasType (dtype : DataType) (value : Value) : Prop :=
  ∃ lanes : List Value, value = ofLanes lanes ∧ lanes.length = dtype.lanes ∧
    ∀ lane ∈ lanes, lane.InLane dtype

/-- The integers of the lanes, where a truth value stands for zero or one. -/
def ints : Value → List Int
  | int value => [value]
  | bool value => [value.toNat]
  | float _ => []
  | vector lanes => lanes.flatMap ints

end Value

/-- Every variable that has a value has one of its type, which is not negative for a shape
variable. -/
def Environment.Typed (env : Environment) : Prop :=
  ∀ name value, env name = some value →
    value.HasType name.dtype ∧ (name.nonNegative = true → ∀ number ∈ value.ints, 0 ≤ number)

end IndexAlgebra
