/-
This file weighs expressions for the reduction rules. The load of a sum, a product or a comparison
is that of both operands together, and any other node is one heavier than its heaviest operand; a
scalar constant weighs nothing. A binding weighs its body with the load of the value in the place of
the variable. A rule never makes an expression heavier, and operands are lighter than the node they
belong to, so the load bounds how deep a reduction goes.

The load of an operand counts at least one, since a rule may give a constant operand the type of the
other operand and so make it a vector.
-/
import IndexAlgebra.Proofs.RuleForms
import IndexAlgebra.Proofs.Substitution

namespace IndexAlgebra.Expr

/-! ### Constants that stay as they are -/

/-- A constant of a vector type that is no integer, which only a tree read from outside can hold. -/
def isWideConst : Expr → Bool
  | floatConst dtype _ | boolConst dtype _ => dtype.isVector
  | _ => false

/-- A vector with one scalar constant in each of its lanes. -/
def isSplat : Expr → Bool
  | broadcast dtype value _ => dtype.isVector && value.isConst && !value.dtype.isVector
  | _ => false

/-- A constant or a vector with one constant in each of its lanes, which no rule changes. -/
def isFrozen : Expr → Bool
  | broadcast dtype value _ => dtype.isVector && value.isConst
  | expr => expr.isConst

/-- The product of a wide constant and a splat. No rule folds it, though the sum that it came from
counted the splat once for all of its terms. -/
def isInert (op : BinaryOp) (lhs rhs : Expr) : Bool :=
  op == .mul && (lhs.isWideConst && rhs.isSplat || lhs.isSplat && rhs.isWideConst)

theorem isFrozen_of_isConst {expr : Expr} (isConst : expr.isConst = true) :
    expr.isFrozen = true := by
  cases expr <;> simp_all [IndexAlgebra.Expr.isConst, isFrozen]

theorem isFrozen_of_isInert {op : BinaryOp} {lhs rhs : Expr} (inert : isInert op lhs rhs = true) :
    lhs.isFrozen = true ∧ rhs.isFrozen = true := by
  have wide : ∀ expr : Expr, expr.isWideConst = true → expr.isFrozen = true := by
    intro expr isWide
    cases expr <;> simp_all [isWideConst, isFrozen, isConst]
  have splat : ∀ expr : Expr, expr.isSplat = true → expr.isFrozen = true := by
    intro expr isSplat'
    cases expr <;> simp_all [isSplat, isFrozen]
  simp only [isInert, Bool.and_eq_true, Bool.or_eq_true] at inert
  rcases inert.2 with ⟨first, second⟩ | ⟨first, second⟩
  · exact ⟨wide lhs first, splat rhs second⟩
  · exact ⟨splat lhs first, wide rhs second⟩

/-! ### The load -/

/-- The load of a binary node, from those of its operands. -/
def combined (op : BinaryOp) (first second : Nat) : Nat :=
  if first = 0 ∧ second = 0 then 1
  else if op.isLogical then max (max first 1) (max second 1) + 1
  else max first 1 + max second 1

mutual

/-- The load of an expression, where each free variable stands for something as heavy as the given
size. -/
def load (sizes : Variable → Nat) : Expr → Nat
  | var _ name => max (sizes name) 1
  | intConst dtype _ => if dtype.isVector then 1 else 0
  | floatConst dtype _ | boolConst dtype _ => if dtype.isVector then 2 else 0
  | cast _ value | not _ value | broadcast _ value _ => load sizes value + 1
  | binary _ op lhs rhs =>
    if isInert op lhs rhs then 2 else combined op (load sizes lhs) (load sizes rhs)
  | select _ cond onTrue onFalse =>
    max 1 (max (load sizes cond) (max (load sizes onTrue) (load sizes onFalse))) + 1
  | ramp _ base stride _ => max 1 (max (load sizes base) (load sizes stride)) + 1
  | shuffle _ vectors _ => loadList sizes vectors + 1
  | letIn _ name value body =>
    max (load sizes value) (load (Function.update sizes name (load sizes value)) body) + 1
  | call _ _ args => loadList sizes args + 1

/-- The greatest load of some expressions, which counts at least one. -/
def loadList (sizes : Variable → Nat) : List Expr → Nat
  | [] => 1
  | expr :: rest => max (load sizes expr) (loadList sizes rest)

end

section

variable (sizes : Variable → Nat)

/-! ### Combined loads -/

theorem combined_mono {op : BinaryOp} {first second first' second' : Nat} (left : first ≤ first')
    (right : second ≤ second') : combined op first second ≤ combined op first' second' := by
  unfold combined
  split_ifs <;> omega

theorem lt_combined_left (op : BinaryOp) (first second : Nat) : first < combined op first second := by
  unfold combined
  split_ifs <;> omega

theorem lt_combined_right (op : BinaryOp) (first second : Nat) :
    second < combined op first second := by
  unfold combined
  split_ifs <;> omega

theorem combined_comm (op : BinaryOp) (first second : Nat) :
    combined op first second = combined op second first := by
  unfold combined
  split_ifs <;> omega

theorem combined_le (op : BinaryOp) (first second : Nat) :
    combined op first second ≤ max first 1 + max second 1 := by
  unfold combined
  split_ifs <;> omega

/-- The load of a node whose operator is not logical. -/
theorem combined_of_not_logical {op : BinaryOp} (notLogical : op.isLogical = false)
    (first second : Nat) : combined op first second =
      if first = 0 ∧ second = 0 then 1 else max first 1 + max second 1 := by
  simp only [combined, notLogical, Bool.false_eq_true, if_false]

/-- An operand that weighs at most one makes a node one heavier than the other operand. -/
theorem combined_of_le_one (op : BinaryOp) (first second : Nat) (light : second ≤ 1)
    (fits : first = 0 → second = 0) : combined op first second = first + 1 := by
  unfold combined
  split_ifs <;> omega

/-! ### Loads of constants -/

section

attribute [local simp] load loadList

theorem combined_pos (op : BinaryOp) (first second : Nat) : 0 < combined op first second :=
  Nat.zero_lt_of_lt (lt_combined_left op first second)

/-- Scalar constants alone weigh nothing. -/
theorem load_eq_zero_iff {expr : Expr} :
    expr.load sizes = 0 ↔ expr.isConst = true ∧ expr.dtype.isVector = false := by
  cases expr with
  | binary dtype op lhs rhs =>
    have heavy := combined_pos op (lhs.load sizes) (rhs.load sizes)
    simp only [load, isConst]
    split_ifs
    · simp
    · simp
      omega
  | _ => simp [isConst, dtype]

theorem load_pos_of_isVector {expr : Expr} (vector : expr.dtype.isVector = true) :
    1 ≤ expr.load sizes := by
  rw [Nat.one_le_iff_ne_zero, Ne, load_eq_zero_iff]
  simp [vector]

theorem load_pos_of_not_isConst {expr : Expr} (notConst : expr.isConst = false) :
    1 ≤ expr.load sizes := by
  rw [Nat.one_le_iff_ne_zero, Ne, load_eq_zero_iff]
  simp [notConst]

theorem isVector_element (dtype : DataType) : dtype.element.isVector = false := rfl

theorem load_scalarOfInt {dtype : DataType} (value : Int) (scalar : dtype.isVector = false) :
    (scalarOfInt dtype value).load sizes = 0 := by
  unfold scalarOfInt
  split_ifs <;> simp [scalar]

@[simp]
theorem load_ofInt (dtype : DataType) (value : Int) :
    (ofInt dtype value).load sizes = if dtype.isVector then 1 else 0 := by
  unfold ofInt
  split_ifs with vector
  · rw [load, load_scalarOfInt sizes value (isVector_element dtype)]
  · exact load_scalarOfInt sizes value (by simpa using vector)

theorem dtype_ofInt (dtype : DataType) (value : Int) : (ofInt dtype value).dtype = dtype := by
  unfold ofInt scalarOfInt
  split_ifs <;> rfl

theorem isSplat_ofInt {dtype : DataType} (vector : dtype.isVector = true) (value : Int) :
    (ofInt dtype value).isSplat = true := by
  rw [ofInt, if_pos vector, isSplat, vector, scalarOfInt]
  split_ifs <;> rfl

@[simp]
theorem load_ofFloat (dtype : DataType) (value : Binary64) :
    (ofFloat dtype value).load sizes = if dtype.isVector then 1 else 0 := by
  unfold ofFloat
  split_ifs with vector
  · rw [load, load, isVector_element]
    rfl
  · simp [vector]

theorem load_retypeScalar? {dtype : DataType} {expr retyped : Expr}
    (retypes : retypeScalar? dtype expr = some retyped) :
    retyped.load sizes = if dtype.isVector then 1 else 0 := by
  unfold retypeScalar? at retypes
  split at retypes
  · obtain ⟨-, equal⟩ := Option.ite_none_right_eq_some.mp retypes
    rw [← Option.some.inj equal, load_ofInt]
  · obtain ⟨-, equal⟩ := Option.ite_none_right_eq_some.mp retypes
    rw [← Option.some.inj equal, load_ofFloat]
  · cases retypes

theorem load_retype? {dtype : DataType} {expr retyped : Expr}
    (retypes : retype? dtype expr = some retyped) :
    retyped.load sizes = if dtype.isVector then 1 else 0 := by
  unfold retype? at retypes
  split at retypes <;> exact load_retypeScalar? sizes retypes

end

/-! ### Loads of what the builders build -/

/-- Operands are given one type by changing a constant among them at most. -/
theorem unify_cases (lhs rhs : Expr) :
    unify lhs rhs = (lhs, rhs) ∨
      (∃ retyped, retype? lhs.dtype rhs = some retyped ∧ unify lhs rhs = (lhs, retyped)) ∨
      ∃ retyped, retype? rhs.dtype lhs = some retyped ∧ unify lhs rhs = (retyped, rhs) := by
  have left : ((retype? rhs.dtype lhs).map fun lhs => (lhs, rhs)).getD (lhs, rhs) = (lhs, rhs) ∨
      ∃ retyped, retype? rhs.dtype lhs = some retyped ∧
        ((retype? rhs.dtype lhs).map fun lhs => (lhs, rhs)).getD (lhs, rhs) = (retyped, rhs) := by
    cases retype? rhs.dtype lhs with
    | none => exact .inl rfl
    | some retyped => exact .inr ⟨retyped, rfl, rfl⟩
  unfold unify
  by_cases same : lhs.dtype = rhs.dtype
  · exact .inl (if_pos same)
  rw [if_neg same]
  cases retypes : retype? lhs.dtype rhs with
  | none => exact left.imp_right .inr
  | some retyped =>
    dsimp only
    split
    · exact .inr (.inl ⟨retyped, rfl, rfl⟩)
    · exact left.imp_right .inr

/-- Giving two operands one type does not make a node of them heavier. A scalar constant becomes a
vector only beside a vector, which weighs something already. -/
theorem load_unify (lhs rhs : Expr) :
    (unify lhs rhs).1.load sizes ≤ max (lhs.load sizes) 1 ∧
      (unify lhs rhs).2.load sizes ≤ max (rhs.load sizes) 1 ∧
      ∀ op, combined op ((unify lhs rhs).1.load sizes) ((unify lhs rhs).2.load sizes) ≤
        combined op (lhs.load sizes) (rhs.load sizes) := by
  rcases unify_cases lhs rhs with unified | ⟨retyped, retypes, unified⟩ | ⟨retyped, retypes, unified⟩
  · rw [unified]
    exact ⟨le_max_left _ _, le_max_left _ _, fun op => le_rfl⟩
  · have weighs := load_retype? sizes retypes
    rw [unified]
    refine ⟨le_max_left _ _, ?_, fun op => ?_⟩
    · rw [weighs]
      split_ifs <;> omega
    · rw [weighs]
      split_ifs with vector
      · have heavy := load_pos_of_isVector sizes vector
        rw [combined_of_le_one op (lhs.load sizes) 1 le_rfl (by omega)]
        exact lt_combined_left op _ _
      · exact combined_mono le_rfl (Nat.zero_le _)
  · have weighs := load_retype? sizes retypes
    rw [unified]
    refine ⟨?_, le_max_left _ _, fun op => ?_⟩
    · rw [weighs]
      split_ifs <;> omega
    · rw [weighs]
      split_ifs with vector
      · have heavy := load_pos_of_isVector sizes vector
        rw [combined_comm, combined_of_le_one op (rhs.load sizes) 1 le_rfl (by omega)]
        exact lt_combined_right op _ _
      · exact combined_mono (Nat.zero_le _) le_rfl

theorem load_pos_of_isInert {op : BinaryOp} {lhs rhs : Expr} (inert : isInert op lhs rhs = true) :
    1 ≤ lhs.load sizes ∧ 1 ≤ rhs.load sizes := by
  have wide : ∀ expr : Expr, expr.isWideConst = true → expr.dtype.isVector = true := by
    intro expr isWide
    cases expr <;> simp_all [isWideConst, dtype]
  have splat : ∀ expr : Expr, expr.isSplat = true → expr.dtype.isVector = true := by
    intro expr isSplat'
    cases expr <;> simp_all [isSplat, dtype]
  simp only [isInert, Bool.and_eq_true, Bool.or_eq_true] at inert
  rcases inert.2 with ⟨first, second⟩ | ⟨first, second⟩
  · exact ⟨load_pos_of_isVector sizes (wide lhs first), load_pos_of_isVector sizes (splat rhs second)⟩
  · exact ⟨load_pos_of_isVector sizes (splat lhs first), load_pos_of_isVector sizes (wide rhs second)⟩

/-- A binary node is no heavier than its operands together. -/
theorem load_binary_le (dtype : DataType) (op : BinaryOp) (lhs rhs : Expr) :
    (binary dtype op lhs rhs).load sizes ≤ combined op (lhs.load sizes) (rhs.load sizes) := by
  rw [load]
  split_ifs with inert
  · have heavy := (load_pos_of_isInert sizes inert).1
    exact Nat.succ_le_of_lt (Nat.lt_of_le_of_lt heavy (lt_combined_left op _ _))
  · exact le_rfl

theorem load_binary? {op : BinaryOp} {lhs rhs built : Expr} (builds : binary? op lhs rhs = some built) :
    built.load sizes ≤ combined op (lhs.load sizes) (rhs.load sizes) := by
  obtain ⟨-, rfl, -⟩ := binary?_unify builds
  exact (load_binary_le sizes _ op _ _).trans ((load_unify sizes lhs rhs).2.2 op)

theorem load_constant? {dtype : DataType} {value : Int} {built : Expr}
    (builds : constant? dtype value = some built) :
    built.load sizes = if dtype.isVector then 1 else 0 := by
  unfold constant? at builds
  obtain ⟨-, equal⟩ := Option.ite_none_right_eq_some.mp builds
  rw [← Option.some.inj equal, load_ofInt]

theorem load_constantLike?_le {like built : Expr} {value : Int}
    (builds : constantLike? like value = some built) : built.load sizes ≤ 1 := by
  rw [load_constant? sizes builds]
  split_ifs <;> omega

theorem load_intConst_le (dtype : DataType) (value : Int) :
    (intConst dtype value).load sizes ≤ 1 := by
  rw [load]
  split_ifs <;> omega

/-- A constant beside a term makes a node one heavier than the term. -/
theorem combined_constantLike? (op : BinaryOp) {like built : Expr} {value : Int}
    (builds : constantLike? like value = some built) :
    combined op (like.load sizes) (built.load sizes) = like.load sizes + 1 := by
  have weighs := load_constant? sizes builds
  refine combined_of_le_one op _ _ ?_ ?_
  · rw [weighs]
    split_ifs <;> omega
  · intro weightless
    rw [weighs, if_neg (by simp [((load_eq_zero_iff sizes).mp weightless).2])]

theorem load_binaryConst? {op : BinaryOp} {lhs built : Expr} {value : Int}
    (builds : binaryConst? op lhs value = some built) : built.load sizes ≤ lhs.load sizes + 1 := by
  obtain ⟨constant, isConstant, builds⟩ := Option.bind_eq_some_iff.mp builds
  rw [← combined_constantLike? sizes op isConstant]
  exact load_binary? sizes builds

theorem load_constBinary? {op : BinaryOp} {rhs built : Expr} {value : Int}
    (builds : constBinary? op value rhs = some built) : built.load sizes ≤ rhs.load sizes + 1 := by
  obtain ⟨constant, isConstant, builds⟩ := Option.bind_eq_some_iff.mp builds
  rw [← combined_constantLike? sizes op isConstant, combined_comm]
  exact load_binary? sizes builds

theorem not?_eq_some {value built : Expr} (builds : not? value = some built) :
    value.dtype.isBool = true ∧ built = not value.dtype value := by
  unfold not? mkNot at builds
  split at builds
  next isBool =>
    cases builds
    exact ⟨isBool, rfl⟩
  next => cases builds

/-- What a choice is built of, and what has been checked of it. -/
theorem select?_eq_some {cond onTrue onFalse built : Expr}
    (builds : select? cond onTrue onFalse = some built) :
    built = select (unify onTrue onFalse).1.dtype cond (unify onTrue onFalse).1
        (unify onTrue onFalse).2 ∧
      cond.dtype.isBool = true ∧ (unify onTrue onFalse).1.dtype = (unify onTrue onFalse).2.dtype ∧
      (cond.lanes = (unify onTrue onFalse).1.lanes ∨ cond.lanes = 1) := by
  unfold select? mkSelect at builds
  generalize unify onTrue onFalse = values at builds ⊢
  obtain ⟨taken, other⟩ := values
  dsimp only at builds ⊢
  by_cases isBool : cond.dtype.isBool = true
  · rw [if_neg (by simp [isBool])] at builds
    cases checked : (Form.called "select").checkTypes taken other with
    | error fault =>
      rw [checked] at builds
      cases builds
    | ok checks =>
      rw [checked] at builds
      by_cases fit : cond.lanes = taken.lanes ∨ cond.lanes = 1
      · rw [if_neg (by simpa [or_iff_not_imp_left] using fit)] at builds
        cases builds
        exact ⟨rfl, isBool, checkTypes_eq_ok checked, fit⟩
      · rw [if_pos (by simpa [not_or] using fit)] at builds
        cases builds
  · rw [if_pos (by simp [isBool])] at builds
    cases builds

theorem load_select? {cond onTrue onFalse built : Expr}
    (builds : select? cond onTrue onFalse = some built) :
    built.load sizes ≤
      max 1 (max (cond.load sizes) (max (onTrue.load sizes) (onFalse.load sizes))) + 1 := by
  obtain ⟨rfl, -⟩ := select?_eq_some builds
  obtain ⟨taken, other, -⟩ := load_unify sizes onTrue onFalse
  rw [load]
  omega

/-- What a ramp is built of, and what has been checked of it. -/
theorem ramp?_eq_some {base stride built : Expr} {lanes : Nat}
    (builds : ramp? base stride lanes = some built) :
    built = ramp ((unify base stride).1.dtype.withLanes lanes) (unify base stride).1
        (unify base stride).2 lanes ∧
      (unify base stride).1.dtype = (unify base stride).2.dtype ∧
      (unify base stride).1.dtype.isVector = false := by
  unfold ramp? mkRamp at builds
  generalize unify base stride = parts at builds ⊢
  obtain ⟨first, step⟩ := parts
  dsimp only at builds ⊢
  cases checked : (Form.called "ramp").checkTypes first step with
  | error fault =>
    rw [checked] at builds
    cases builds
  | ok checks =>
    rw [checked] at builds
    by_cases vector : first.dtype.isVector = true
    · rw [if_pos vector] at builds
      cases builds
    · rw [if_neg vector] at builds
      cases builds
      exact ⟨rfl, checkTypes_eq_ok checked, by simpa using vector⟩

theorem load_ramp? {base stride built : Expr} {lanes : Nat}
    (builds : ramp? base stride lanes = some built) :
    built.load sizes ≤ max 1 (max (base.load sizes) (stride.load sizes)) + 1 := by
  obtain ⟨rfl, -⟩ := ramp?_eq_some builds
  obtain ⟨first, step, -⟩ := load_unify sizes base stride
  rw [load]
  omega

/-! ### Loads of operands -/

theorem load_of_isWideConst {expr : Expr} (wide : expr.isWideConst = true) :
    expr.load sizes = 2 := by
  cases expr <;> simp_all [isWideConst, load]

theorem load_of_isSplat {expr : Expr} (splat : expr.isSplat = true) : expr.load sizes = 1 := by
  cases expr with
  | broadcast dtype value lanes =>
    simp only [isSplat, Bool.and_eq_true, Bool.not_eq_true'] at splat
    rw [load, (load_eq_zero_iff sizes).mpr ⟨splat.1.2, splat.2⟩]
  | _ => simp [isSplat] at splat

/-- An operand of a binary node is no heavier than the node, and lighter unless it is a constant. -/
theorem load_operand_le (dtype : DataType) (op : BinaryOp) (lhs rhs : Expr) :
    (lhs.load sizes ≤ (binary dtype op lhs rhs).load sizes ∧
      (lhs.isConst = false → lhs.load sizes < (binary dtype op lhs rhs).load sizes)) ∧
    rhs.load sizes ≤ (binary dtype op lhs rhs).load sizes ∧
      (rhs.isConst = false → rhs.load sizes < (binary dtype op lhs rhs).load sizes) := by
  have constant : ∀ expr : Expr, expr.isWideConst = true → expr.isConst = true := by
    intro expr wide
    cases expr <;> simp_all [isWideConst, isConst]
  rw [load]
  split_ifs with inert
  · simp only [isInert, Bool.and_eq_true, Bool.or_eq_true] at inert
    rcases inert.2 with ⟨wide, splat⟩ | ⟨splat, wide⟩ <;>
      simp [load_of_isWideConst sizes wide, load_of_isSplat sizes splat, constant _ wide]
  · have left := lt_combined_left op (lhs.load sizes) (rhs.load sizes)
    have right := lt_combined_right op (lhs.load sizes) (rhs.load sizes)
    exact ⟨⟨left.le, fun _ => left⟩, right.le, fun _ => right⟩

theorem load_lhs_le (dtype : DataType) (op : BinaryOp) (lhs rhs : Expr) :
    lhs.load sizes ≤ (binary dtype op lhs rhs).load sizes :=
  (load_operand_le sizes dtype op lhs rhs).1.1

theorem load_rhs_le (dtype : DataType) (op : BinaryOp) (lhs rhs : Expr) :
    rhs.load sizes ≤ (binary dtype op lhs rhs).load sizes :=
  (load_operand_le sizes dtype op lhs rhs).2.1

@[simp]
theorem isInert_intConst_right (op : BinaryOp) (lhs : Expr) (dtype : DataType) (value : Int) :
    isInert op lhs (intConst dtype value) = false := by
  simp [isInert, isSplat, isWideConst]

@[simp]
theorem isInert_intConst_left (op : BinaryOp) (rhs : Expr) (dtype : DataType) (value : Int) :
    isInert op (intConst dtype value) rhs = false := by
  simp [isInert, isSplat, isWideConst]

theorem isInert_of_ne {op : BinaryOp} (other : op ≠ .mul) (lhs rhs : Expr) :
    isInert op lhs rhs = false := by
  simp [isInert, other]

theorem le_loadList {exprs : List Expr} {expr : Expr} (member : expr ∈ exprs) :
    expr.load sizes ≤ loadList sizes exprs := by
  induction exprs with
  | nil => cases member
  | cons first rest inductionHypothesis =>
    rw [loadList]
    rcases List.mem_cons.mp member with rfl | later
    · exact le_max_left _ _
    · exact (inductionHypothesis later).trans (le_max_right _ _)

/-- An operand of a node that is no binding is no heavier than the node, and lighter unless it is a
constant. -/
theorem load_child_le {expr child : Expr} (notLet : expr.isLet = false)
    (member : child ∈ expr.children) : child.load sizes ≤ expr.load sizes ∧
      (child.isConst = false → child.load sizes < expr.load sizes) := by
  have lighter : child.load sizes < expr.load sizes → child.load sizes ≤ expr.load sizes ∧
      (child.isConst = false → child.load sizes < expr.load sizes) := fun less => ⟨less.le, fun _ => less⟩
  cases expr with
  | var | intConst | floatConst | boolConst => simp [children] at member
  | letIn => cases notLet
  | cast dtype value | not dtype value | broadcast dtype value lanes =>
    apply lighter
    rw [List.mem_singleton.mp member, load]
    exact Nat.lt_succ_self _
  | binary dtype op lhs rhs =>
    obtain ⟨left, right⟩ := load_operand_le sizes dtype op lhs rhs
    simp only [children, List.mem_cons, List.not_mem_nil, or_false] at member
    rcases member with rfl | rfl
    · exact left
    · exact right
  | select dtype cond onTrue onFalse =>
    apply lighter
    simp only [children, List.mem_cons, List.not_mem_nil, or_false] at member
    rw [load]
    rcases member with rfl | rfl | rfl <;> omega
  | ramp dtype base stride lanes =>
    apply lighter
    simp only [children, List.mem_cons, List.not_mem_nil, or_false] at member
    rw [load]
    rcases member with rfl | rfl <;> omega
  | shuffle dtype vectors indices =>
    apply lighter
    rw [load]
    exact Nat.lt_succ_of_le (le_loadList sizes member)
  | call dtype op args =>
    apply lighter
    rw [load]
    exact Nat.lt_succ_of_le (le_loadList sizes member)

/-- Operands are lighter than the node they belong to, but for constants in it. -/
theorem exists_load_child_lt {expr child : Expr} (member : child ∈ expr.children)
    (notConst : child.isConst = false) : ∃ inner, child.load inner < expr.load sizes := by
  by_cases isLet : expr.isLet = true
  · cases expr with
    | letIn dtype name value body =>
      simp only [children, List.mem_cons, List.not_mem_nil, or_false] at member
      rw [load]
      rcases member with rfl | rfl
      · exact ⟨sizes, by omega⟩
      · exact ⟨_, Nat.lt_succ_of_le (le_max_right _ _)⟩
    | _ => cases isLet
  · exact ⟨sizes, (load_child_le sizes (by simpa using isLet) member).2 notConst⟩

/-- An expression is as heavy as each variable that occurs free in it. -/
theorem size_le_load {expr : Expr} {name : Variable} (occurs : name ∈ expr.freeOccurrences) :
    sizes name ≤ expr.load sizes := by
  induction expr using childrenInduction generalizing sizes with
  | step expr inductionHypothesis =>
    by_cases isLet : expr.isLet = true
    · cases expr with
      | letIn dtype bound value body =>
        simp only [freeOccurrences, List.mem_append, List.mem_filter, decide_eq_true_eq] at occurs
        rw [load]
        rcases occurs with inValue | ⟨inBody, different⟩
        · have heavy := inductionHypothesis value (by simp [children]) sizes inValue
          omega
        · have heavy := inductionHypothesis body (by simp [children])
            (Function.update sizes bound (value.load sizes)) inBody
          rw [Function.update_of_ne different] at heavy
          omega
      | _ => cases isLet
    · rcases exists_child_of_mem_freeOccurrences occurs with ⟨dtype, rfl⟩ | ⟨child, isChild, inside⟩
      · exact le_max_left _ _
      · exact (inductionHypothesis child isChild sizes inside).trans
          (load_child_le sizes (by simpa using isLet) isChild).1

/-! ### Lighter operands -/

variable {sizes} {sizes' : Variable → Nat}

/-- The operand may stand where the child of a node stands: it is no heavier, and it is the child if
that is an expression which no rule changes. -/
def FitsChild (sizes sizes' : Variable → Nat) (operand child : Expr) : Prop :=
  operand.load sizes ≤ child.load sizes' ∧ (child.isFrozen = true → operand = child)

theorem loadList_le {operands exprs : List Expr}
    (fits : List.Forall₂ (FitsChild sizes sizes') operands exprs) :
    loadList sizes operands ≤ loadList sizes' exprs := by
  induction fits with
  | nil => exact le_rfl
  | cons head _ tail =>
    rw [loadList, loadList]
    exact max_le_max head.1 tail

/-- A binary node whose operands fit is no heavier. An inert product stays as it is. -/
theorem load_binary_mono {lhs rhs lhs' rhs' : Expr} (dtype dtype' : DataType) (op : BinaryOp)
    (left : FitsChild sizes sizes' lhs' lhs) (right : FitsChild sizes sizes' rhs' rhs) :
    (binary dtype op lhs' rhs').load sizes ≤ (binary dtype' op lhs rhs).load sizes' := by
  by_cases inert : isInert op lhs rhs = true
  · obtain ⟨frozenLeft, frozenRight⟩ := isFrozen_of_isInert inert
    rw [left.2 frozenLeft, right.2 frozenRight, load, load, if_pos inert, if_pos inert]
  · refine (load_binary_le sizes dtype op lhs' rhs').trans ?_
    rw [load, if_neg inert]
    exact combined_mono left.1 right.1

/-- A binding whose value and body fit is no heavier. -/
theorem load_letIn_mono {name name' : Variable} {value value' body body' : Expr}
    (dtype dtype' : DataType) (lighterValue : value'.load sizes ≤ value.load sizes')
    (lighterBody : body'.load (Function.update sizes name' (value'.load sizes)) ≤
      body.load (Function.update sizes' name (value.load sizes'))) :
    (letIn dtype name' value' body').load sizes ≤ (letIn dtype' name value body).load sizes' := by
  rw [load, load]
  exact Nat.succ_le_succ (max_le_max lighterValue lighterBody)

/-- A node whose operands fit is no heavier. Bindings are apart, since their body is weighed with the
load of their value. -/
theorem load_withChildren_le {expr : Expr} {operands : List Expr} (notLet : expr.isLet = false)
    (leaf : ∀ dtype name, expr = var dtype name → sizes name ≤ max (sizes' name) 1)
    (fits : List.Forall₂ (FitsChild sizes sizes') operands expr.children) :
    (expr.withChildren operands).load sizes ≤ expr.load sizes' := by
  cases expr with
  | var dtype name =>
    have bounded := leaf dtype name rfl
    simp only [withChildren, load]
    omega
  | intConst | floatConst | boolConst => exact le_rfl
  | letIn => cases notLet
  | shuffle dtype vectors indices =>
    simp only [withChildren, load]
    exact Nat.succ_le_succ (loadList_le fits)
  | call dtype op args =>
    simp only [withChildren, load]
    exact Nat.succ_le_succ (loadList_le fits)
  | binary dtype op lhs rhs =>
    simp only [children, List.forall₂_cons_right_iff, List.forall₂_nil_right_iff] at fits
    obtain ⟨lhs', _, left, ⟨rhs', _, right, rfl, rfl⟩, rfl⟩ := fits
    exact load_binary_mono dtype dtype op left right
  | cast dtype value | not dtype value | broadcast dtype value lanes =>
    simp only [children, List.forall₂_cons_right_iff, List.forall₂_nil_right_iff] at fits
    obtain ⟨value', _, lighter, rfl, rfl⟩ := fits
    exact Nat.succ_le_succ lighter.1
  | select dtype cond onTrue onFalse =>
    simp only [children, List.forall₂_cons_right_iff, List.forall₂_nil_right_iff] at fits
    obtain ⟨cond', _, first, ⟨taken', _, second, ⟨other', _, third, rfl, rfl⟩, rfl⟩, rfl⟩ := fits
    exact Nat.succ_le_succ (max_le_max le_rfl (max_le_max first.1 (max_le_max second.1 third.1)))
  | ramp dtype base stride lanes =>
    simp only [children, List.forall₂_cons_right_iff, List.forall₂_nil_right_iff] at fits
    obtain ⟨base', _, first, ⟨stride', _, second, rfl, rfl⟩, rfl⟩ := fits
    exact Nat.succ_le_succ (max_le_max le_rfl (max_le_max first.1 second.1))

/-- Heavier free variables make no expression lighter. -/
theorem load_mono {expr : Expr} (heavier : ∀ name ∈ expr.freeOccurrences,
    sizes name ≤ max (sizes' name) 1) : expr.load sizes ≤ expr.load sizes' := by
  induction expr using childrenInduction generalizing sizes sizes' with
  | step expr inductionHypothesis =>
    by_cases isLet : expr.isLet = true
    · cases expr with
      | letIn dtype name value body =>
        have lighterValue : value.load sizes ≤ value.load sizes' :=
          inductionHypothesis value (by simp [children]) fun other occurs =>
            heavier other (by simp [freeOccurrences, occurs])
        refine load_letIn_mono dtype dtype lighterValue
          (inductionHypothesis body (by simp [children]) fun other occurs => ?_)
        by_cases same : other = name
        · rw [same, Function.update_self, Function.update_self]
          omega
        · rw [Function.update_of_ne same, Function.update_of_ne same]
          exact heavier other (by simp [freeOccurrences, occurs, same])
      | _ => cases isLet
    · have notLet : expr.isLet = false := by simpa using isLet
      have fits : List.Forall₂ (FitsChild sizes sizes') expr.children expr.children :=
        List.forall₂_same.mpr fun child isChild =>
          ⟨inductionHypothesis child isChild fun name occurs =>
            heavier name (mem_freeOccurrences_of_child notLet isChild occurs), fun _ => rfl⟩
      have lighter := load_withChildren_le notLet
        (fun dtype name isVar => heavier name (by simp [isVar, freeOccurrences])) fits
      rwa [withChildren_children] at lighter

theorem load_congr {expr : Expr} (agree : ∀ name ∈ expr.freeOccurrences, sizes name = sizes' name) :
    expr.load sizes = expr.load sizes' :=
  le_antisymm (load_mono fun name occurs => by rw [agree name occurs]; exact le_max_left _ _)
    (load_mono fun name occurs => by rw [agree name occurs]; exact le_max_left _ _)

/-- The size of a variable that an expression does not use makes no difference. -/
theorem load_update_of_not_uses {expr : Expr} {name : Variable} (unused : expr.uses name = false)
    (size : Nat) : expr.load (Function.update sizes name size) = expr.load sizes :=
  load_congr fun other occurs => by
    refine Function.update_of_ne ?_ _ _
    rintro rfl
    exact not_uses_iff.mp unused (mem_mentions_of_mem_freeOccurrences occurs)

/-! ### Substitution -/

/-- What a free variable becomes: its replacement, unless it is hidden or has none. -/
def landing (replacement : Replacement) (hidden : List Variable) (name : Variable) : Expr :=
  if hidden.contains name then name.expr else (replacement name).getD name.expr

theorem landing_cons_of_ne {replacement : Replacement} {hidden : List Variable}
    {name other : Variable} (different : other ≠ name) :
    landing replacement (name :: hidden) other = landing replacement hidden other := by
  simp [landing, different]

/-- What a free variable of the body of a binding becomes does not use a variable that nothing
arriving in the body uses. -/
theorem landing_not_uses {replacement : Replacement} {hidden : List Variable}
    {bound name other : Variable} {body : Expr}
    (unused : ∀ arriving ∈ incoming replacement hidden bound body, arriving.uses name = false)
    (occurs : other ∈ body.freeOccurrences) (free : other ≠ bound) (different : other ≠ name) :
    (landing replacement hidden other).uses name = false := by
  have own : other.expr.uses name = false :=
    not_uses_iff.mpr fun mentioned => different (List.mem_singleton.mp mentioned).symm
  unfold landing
  split
  next => exact own
  next notHidden =>
    cases replaced : replacement other with
    | none => exact own
    | some value =>
      refine unused value (List.mem_filterMap.mpr ⟨other, List.mem_filter.mpr ⟨?_, ?_⟩, replaced⟩)
      · exact List.mem_eraseDups.mpr occurs
      · simpa [free] using notHidden

theorem substituteWithin_of_isFrozen (fuel : Nat) (replacement : Replacement)
    (hidden : List Variable) {expr : Expr} (frozen : expr.isFrozen = true) :
    substituteWithin fuel replacement hidden expr = expr := by
  have constant : ∀ (fuel : Nat) (expr : Expr), expr.isConst = true →
      substituteWithin fuel replacement hidden expr = expr := by
    intro fuel expr isConst
    cases fuel <;> cases expr <;> simp_all [IndexAlgebra.Expr.isConst, substituteWithin] <;> rfl
  cases fuel with
  | zero => rfl
  | succ fuel =>
    cases expr with
    | broadcast dtype value lanes =>
      simp only [isFrozen, Bool.and_eq_true] at frozen
      show broadcast dtype (substituteWithin fuel replacement hidden value) lanes = _
      rw [constant fuel value frozen.2]
    | _ => exact constant _ _ frozen

/-- Inside a binding, what the free variables become is weighed with the load of the new value in
the place of the bound variable. -/
theorem load_landing_le {replacement : Replacement} {hidden : List Variable}
    {bound name other : Variable} {body : Expr} {size size' : Nat} (lighter : size ≤ size')
    (unused : ∀ arriving ∈ incoming replacement hidden bound body, arriving.uses name = false)
    (occurs : other ∈ body.freeOccurrences) (free : other = name ∨ other ≠ bound)
    (heavier : other ≠ bound → (landing replacement hidden other).load sizes ≤ max (sizes' other) 1) :
    (landing replacement (name :: hidden) other).load (Function.update sizes name size) ≤
      max (Function.update sizes' name size' other) 1 := by
  by_cases same : other = name
  · subst same
    simp only [landing, List.contains_cons, beq_self_eq_true, Bool.true_or, if_true, Variable.expr,
      load, Function.update_self]
    omega
  · have outside := free.resolve_left same
    rw [landing_cons_of_ne same, Function.update_of_ne same,
      load_update_of_not_uses (landing_not_uses unused occurs outside same)]
    exact heavier outside

/-- There are sizes for the body of a binding between its renaming and its substitution: they leave
the free variables of the body as they are, and they are as heavy as what any variable becomes. -/
theorem exists_sizes_between {replacement : Replacement} {hidden : List Variable}
    {name fresh : Variable} {body : Expr} {size size' : Nat} (lighter : size ≤ size')
    (unused : ∀ expr ∈ body :: incoming replacement hidden name body, expr.uses fresh = false)
    (heavier : ∀ other ∈ body.freeOccurrences, other ≠ name →
      (landing replacement hidden other).load sizes ≤ max (sizes' other) 1) :
    ∃ between : Variable → Nat, between fresh = size' ∧
      (∀ other ∈ body.freeOccurrences, other ≠ name → between other = sizes' other) ∧
      ∀ other, (landing replacement (fresh :: hidden) other).load
        (Function.update sizes fresh size) ≤ max (between other) 1 := by
  have notInBody : fresh ∉ body.freeOccurrences := fun occurs =>
    not_uses_iff.mp (unused body List.mem_cons_self) (mem_mentions_of_mem_freeOccurrences occurs)
  refine ⟨Function.update (fun other =>
    if other ∈ body.freeOccurrences ∧ other ≠ name then sizes' other
    else (landing replacement (fresh :: hidden) other).load (Function.update sizes fresh size))
    fresh size', Function.update_self .., fun other occurs free => ?_, fun other => ?_⟩
  · rw [Function.update_of_ne (ne_of_mem_of_not_mem occurs notInBody), if_pos ⟨occurs, free⟩]
  · by_cases inside : other ∈ body.freeOccurrences ∧ other ≠ name
    · have bounded := load_landing_le lighter
        (fun arriving member => unused arriving (List.mem_cons_of_mem _ member)) inside.1
        (.inr inside.2) (heavier other inside.1)
      rw [Function.update_of_ne (ne_of_mem_of_not_mem inside.1 notInBody)] at bounded ⊢
      rwa [if_pos inside]
    · by_cases same : other = fresh
      · subst same
        simp only [landing, List.contains_cons, beq_self_eq_true, Bool.true_or, if_true,
          Variable.expr, load, Function.update_self]
        omega
      · rw [Function.update_of_ne same, if_neg inside]
        exact le_max_left _ _

/-- Replacing free variables by expressions makes an expression no heavier than it is with their
loads in the place of the variables. -/
theorem load_substituteWithin {fuel : Nat} {replacement : Replacement} {hidden : List Variable}
    {expr : Expr} (enough : expr.nodeCount ≤ fuel)
    (heavier : ∀ name ∈ expr.freeOccurrences,
      (landing replacement hidden name).load sizes ≤ max (sizes' name) 1) :
    (substituteWithin fuel replacement hidden expr).load sizes ≤ expr.load sizes' := by
  induction fuel generalizing replacement hidden expr sizes sizes' with
  | zero => exact absurd expr.nodeCount_pos (Nat.not_lt.mpr enough)
  | succ fuel inductionHypothesis =>
    have enoughFor : ∀ child ∈ expr.children, child.nodeCount ≤ fuel :=
      fun child isChild => Nat.le_of_lt_succ (Nat.lt_of_lt_of_le (nodeCount_child_lt isChild) enough)
    cases expr with
    | var dtype name =>
      have bounded := heavier name (by simp [freeOccurrences])
      rw [substituteWithin, load]
      unfold landing at bounded
      split
      next isHidden =>
        rw [if_pos isHidden] at bounded
        exact bounded
      next notHidden =>
        rw [if_neg notHidden] at bounded
        cases found : replacement name <;> rw [found] at bounded <;> exact bounded
    | letIn dtype name value body =>
      have enoughBody := enoughFor body (by simp [children])
      have lighterValue : (substituteWithin fuel replacement hidden value).load sizes ≤
          value.load sizes' :=
        inductionHypothesis (enoughFor value (by simp [children])) fun other occurs =>
          heavier other (by simp [freeOccurrences, occurs])
      have heavierInside : ∀ other ∈ body.freeOccurrences, other ≠ name →
          (landing replacement hidden other).load sizes ≤ max (sizes' other) 1 :=
        fun other occurs free => heavier other (by simp [freeOccurrences, occurs, free])
      rcases substituteWithin_letIn fuel replacement hidden dtype name value body with
        ⟨unused, walked⟩ | ⟨fresh, unused, -, walked⟩
      · rw [walked]
        refine load_letIn_mono dtype dtype lighterValue
          (inductionHypothesis enoughBody fun other occurs => ?_)
        exact load_landing_le lighterValue unused occurs (em _) (heavierInside other occurs)
      · rw [walked]
        refine load_letIn_mono dtype dtype lighterValue ?_
        obtain ⟨between, atFresh, inside, landed⟩ :=
          exists_sizes_between lighterValue unused heavierInside
        have renamedLighter : (substituteWithin fuel (.single name fresh.expr) [] body).load between ≤
            body.load (Function.update sizes' name (value.load sizes')) := by
          refine inductionHypothesis enoughBody fun other occurs => ?_
          by_cases same : other = name
          · simp [landing, Replacement.single, same, Variable.expr, load, atFresh]
          · simp [landing, Replacement.single, same, Variable.expr, load, inside other occurs same]
        refine (inductionHypothesis ?_ fun other _ => landed other).trans renamedLighter
        rwa [nodeCount_substituteWithin (single_expr_nodeCount name fresh)]
    | _ =>
      rw [substituteWithin_of_not_isLet fuel replacement hidden rfl rfl]
      refine load_withChildren_le rfl (fun dtype name isVar => by cases isVar) ?_
      rw [List.forall₂_map_left_iff, List.forall₂_same]
      exact fun child isChild => ⟨inductionHypothesis (enoughFor child isChild) fun name occurs =>
          heavier name (mem_freeOccurrences_of_child rfl isChild occurs),
        substituteWithin_of_isFrozen fuel replacement hidden⟩

/-! ### The load and the number of nodes -/

theorem loadList_le_of_forall {exprs : List Expr} {bound : Nat} (positive : 1 ≤ bound)
    (bounded : ∀ expr ∈ exprs, expr.load sizes ≤ bound) : loadList sizes exprs ≤ bound := by
  induction exprs with
  | nil => exact positive
  | cons first rest inductionHypothesis =>
    rw [loadList]
    exact max_le (bounded first List.mem_cons_self)
      (inductionHypothesis fun expr member => bounded expr (List.mem_cons_of_mem _ member))

/-- Every node doubles the load at most. -/
theorem load_le_pow {expr : Expr} {size : Nat} (bounded : ∀ name, max (sizes name) 1 ≤ size) :
    expr.load sizes ≤ size * 2 ^ expr.nodeCount := by
  induction expr using childrenInduction generalizing sizes size with
  | step expr inductionHypothesis =>
    have positive : 1 ≤ size := (le_max_right _ _).trans (bounded default)
    let inner := (expr.children.map nodeCount).sum
    have child : ∀ child ∈ expr.children, child.load sizes ≤ size * 2 ^ inner := by
      intro child isChild
      refine (inductionHypothesis child isChild bounded).trans
        (Nat.mul_le_mul_left size (Nat.pow_le_pow_right (by decide) ?_))
      exact List.single_le_sum (fun _ _ => Nat.zero_le _) _ (List.mem_map_of_mem isChild)
    have innerPositive : 1 ≤ size * 2 ^ inner := Nat.mul_pos positive (Nat.two_pow_pos inner)
    suffices doubled : expr.load sizes ≤ size * 2 ^ inner * 2 by
      rw [nodeCount_eq, pow_succ, ← mul_assoc]
      exact doubled
    cases expr with
    | var dtype name =>
      have own := bounded name
      simp only [load, inner, children, List.map_nil, List.sum_nil, pow_zero] at own ⊢
      omega
    | intConst | floatConst | boolConst =>
      simp only [load]
      split_ifs <;> omega
    | cast dtype value | not dtype value | broadcast dtype value lanes =>
      have operand := child value (by simp [children])
      rw [load]
      omega
    | binary dtype op lhs rhs =>
      have left := child lhs (by simp [children])
      have right := child rhs (by simp [children])
      have node := (load_binary_le sizes dtype op lhs rhs).trans (combined_le op _ _)
      omega
    | select dtype cond onTrue onFalse =>
      have first := child cond (by simp [children])
      have second := child onTrue (by simp [children])
      have third := child onFalse (by simp [children])
      rw [load]
      omega
    | ramp dtype base stride lanes =>
      have first := child base (by simp [children])
      have second := child stride (by simp [children])
      rw [load]
      omega
    | shuffle dtype vectors indices =>
      have operands := loadList_le_of_forall innerPositive child
      simp only [load, children] at operands ⊢
      omega
    | call dtype op args =>
      have operands := loadList_le_of_forall innerPositive child
      simp only [load, children] at operands ⊢
      omega
    | letIn dtype name value body =>
      have first := child value (by simp [children])
      have valueLoad := inductionHypothesis value (by simp [children]) bounded
      have inside : ∀ other, max (Function.update sizes name (value.load sizes) other) 1 ≤
          size * 2 ^ value.nodeCount := by
        intro other
        have grows : size ≤ size * 2 ^ value.nodeCount :=
          Nat.le_mul_of_pos_right size (Nat.two_pow_pos _)
        by_cases same : other = name
        · rw [same, Function.update_self]
          omega
        · rw [Function.update_of_ne same]
          exact (bounded other).trans grows
      have second := inductionHypothesis body (by simp [children]) inside
      rw [mul_assoc, ← pow_add] at second
      have counts : inner = value.nodeCount + body.nodeCount := by simp [inner, children]
      rw [← counts] at second
      rw [load]
      omega

end

end IndexAlgebra.Expr
