/-
This file says how many lanes the value of an expression has. The types of a coherent expression tell
it, except that the lanes of a shuffle are as many as its indices. If these are as many as the type of
the shuffle has lanes, and so for every shuffle inside, the value has the lanes of the type, and the
value of an expression of a scalar type is a scalar.
-/
import IndexAlgebra.Proofs.ExactValues
import IndexAlgebra.Proofs.TypePreservation

namespace IndexAlgebra

/-! ### Values with lanes -/

namespace Value

/-- The value has the given number of lanes, each of which is a scalar. -/
def Laned (count : Nat) (value : Value) : Prop :=
  ∃ lanes : List Value, value = ofLanes lanes ∧ lanes.length = count ∧ ∀ lane ∈ lanes, lane.IsLane

theorem Kinded.laned {dtype : DataType} {value : Value} (kinded : value.Kinded dtype) :
    value.Laned dtype.lanes := by
  obtain ⟨lanes, rfl, length, ofKind⟩ := kinded
  exact ⟨lanes, rfl, length, fun lane member => (ofKind lane member).isLane⟩

end Value

/-- Every variable that has a value has one with as many lanes as its type. -/
def Environment.Laned (env : Environment) : Prop :=
  ∀ name value, env name = some value → value.Laned name.dtype.lanes

theorem Environment.Kinded.laned {env : Environment} (kinded : env.Kinded) : env.Laned :=
  fun name value isValue => (kinded name value isValue).laned

namespace Scalar

variable {check : RangeCheck} {dtype : DataType} {value : Value}

theorem isLane_binaryInt? {op : BinaryOp} {left right : Int}
    (result : binaryInt? check dtype op left right = some value) : value.IsLane := by
  rcases Expr.binaryInt?_kind result with ⟨-, number, rfl⟩ | ⟨-, truth, rfl⟩
  · exact Value.isLane_int number
  · exact Value.isLane_bool truth

theorem isLane_binary? {op : BinaryOp} {left right : Value}
    (result : binary? check dtype op left right = some value) : value.IsLane := by
  cases left <;> cases right <;> try contradiction
  case int.int => exact isLane_binaryInt? result
  case bool.bool =>
    unfold binary? at result
    cases op
    case and | or | eq | ne =>
      cases result
      exact Value.isLane_bool _
    all_goals exact isLane_binaryInt? result
  case float.float =>
    simp only [binary?] at result
    cases op <;> cases result <;> first | exact Value.isLane_float _ | exact Value.isLane_bool _

end Scalar

namespace Expr

/-! ### Shuffles with as many indices as lanes -/

/-- The node is no shuffle with more or fewer indices than its type has lanes. -/
def isFull : Expr → Bool
  | shuffle dtype _ indices => indices.length == dtype.lanes
  | _ => true

/-- Every shuffle in the expression has as many indices as its type has lanes. -/
def Full (expr : Expr) : Prop := ∀ node ∈ expr.postOrder, node.isFull = true

instance (expr : Expr) : Decidable expr.Full :=
  inferInstanceAs (Decidable (∀ node ∈ expr.postOrder, node.isFull = true))

theorem full_iff (expr : Expr) :
    expr.Full ↔ expr.isFull = true ∧ ∀ child ∈ expr.children, child.Full := by
  constructor
  · intro full
    exact ⟨full expr expr.self_mem_postOrder, fun child isChild node member =>
      full node (mem_postOrder.mpr (.inr ⟨child, isChild, member⟩))⟩
  · rintro ⟨self, operands⟩ node member
    rcases mem_postOrder.mp member with rfl | ⟨child, isChild, inside⟩
    · exact self
    · exact operands child isChild node inside

theorem Full.child {expr child : Expr} (full : expr.Full) (member : child ∈ expr.children) :
    child.Full := ((full_iff expr).mp full).2 child member

theorem WellTyped.full {expr : Expr} (typed : expr.WellTyped) : expr.Full := by
  intro node member
  have ofNode : node.WellTyped :=
    of_mem_postOrder (fun _ typed _ isChild => typed.child isChild) expr typed member
  cases node with
  | shuffle dtype vectors indices =>
    rw [WellTyped] at ofNode
    exact beq_iff_eq.mpr ofNode.2.2.2
  | _ => rfl

/-! ### The lanes of a value -/

variable {check : RangeCheck} {env : Environment} {value : Value}

/-- Evaluation keeps the lanes of a value scalars. -/
theorem laneKinds_isLane (check : RangeCheck) : LaneKinds check fun _ lane => lane.IsLane where
  isLane := id
  ofKind := Value.OfKind.isLane
  ofElement _ := id
  ofInt _ _ other := Value.isLane_int other
  binary _ := Scalar.isLane_binary?

/-- The value of a coherent expression has as many lanes as its type, if every shuffle has as many
indices as its own. -/
theorem evaluate_laned {expr : Expr} (coherent : expr.Coherent) (full : expr.Full) (laned : env.Laned)
    (evaluated : evaluate check env expr = some value) : value.Laned expr.lanes := by
  refine (laneKinds_isLane check).hasLanes coherent (fun node inside => ?_) laned evaluated
  have isFull := full node inside
  cases node with
  | shuffle dtype vectors indices => exact ⟨beq_iff_eq.mp isFull, fun _ _ _ => id⟩
  | call dtype op args =>
    cases op with
    | ifThenElse | external => trivial
    | _ => exact fun _ _ _ => id
  | _ => trivial

/-- The value of an expression of a scalar type is a scalar. -/
theorem isLane_of_evaluate {expr : Expr} (coherent : expr.Coherent) (full : expr.Full)
    (laned : env.Laned) (scalar : expr.lanes = 1) (evaluated : evaluate check env expr = some value) :
    value.IsLane := by
  have hasLanes : value.HasLanes (fun _ lane => lane.IsLane) expr.dtype :=
    evaluate_laned coherent full laned evaluated
  exact hasLanes.single scalar

end Expr

end IndexAlgebra
