/-
This file replaces the operands of a node by others that keep their types and their exact values.
The node keeps its own then. What an operand has to keep is its value where the node evaluates it: the
body of a binding is evaluated with the value that is bound. An operand may also keep its value whatever
values the bound variables have.
-/
import IndexAlgebra.Proofs.Substitution
import IndexAlgebra.Proofs.SumExpr

namespace IndexAlgebra

variable {names : List Variable} {env : Environment}

/-- The environment in which a variable has the exact value of an expression, or none if the expression
has none. -/
def Environment.letting (env : Environment) (name : Variable) (value : Expr) : Environment :=
  fun other => if other = name then value.evalExact env else env other

theorem Environment.letting_eq_set {name : Variable} {value : Expr} {bound : Value}
    (isBound : value.evalExact env = some bound) : env.letting name value = env.set name bound := by
  funext other
  rw [Environment.letting, Environment.set, isBound]

theorem Environment.Kinded.letting (kinded : env.Kinded) {name : Variable} {value : Expr}
    (ofType : ∀ bound, value.evalExact env = some bound → bound.Kinded name.dtype) :
    (env.letting name value).Kinded := by
  intro other found isFound
  rw [Environment.letting] at isFound
  split at isFound
  next same => exact same ▸ ofType found isFound
  next => exact kinded other found isFound

namespace Expr

/-- The operands are as many as before, and each is well typed and of the type of the one it
replaces. -/
theorem wellTyped_withChildren {expr : Expr} {children : List Expr} (typed : expr.WellTyped)
    (types : children.map dtype = expr.children.map dtype)
    (typedChildren : ∀ child ∈ children, child.WellTyped) :
    (expr.withChildren children).WellTyped := by
  cases expr with
  | var | intConst | floatConst | boolConst =>
    rw [List.map_eq_nil_iff.mp types]
    exact typed
  | cast dtype value =>
    obtain ⟨value', rfl, isType⟩ := List.map_eq_singleton_iff.mp types
    rw [WellTyped, lanes] at typed
    rw [withChildren, WellTyped, lanes, isType]
    exact ⟨typedChildren value' (by simp), typed.2⟩
  | not dtype value =>
    obtain ⟨value', rfl, isType⟩ := List.map_eq_singleton_iff.mp types
    rw [WellTyped] at typed
    rw [withChildren, WellTyped, isType]
    exact ⟨typedChildren value' (by simp), typed.2⟩
  | broadcast dtype value count =>
    obtain ⟨value', rfl, isType⟩ := List.map_eq_singleton_iff.mp types
    rw [WellTyped, lanes] at typed
    rw [withChildren, WellTyped, lanes, isType]
    exact ⟨typedChildren value' (by simp), typed.2⟩
  | binary dtype op lhs rhs =>
    obtain ⟨lhs', rest, rfl, leftType, types⟩ := List.map_eq_cons_iff.mp types
    obtain ⟨rhs', rfl, rightType⟩ := List.map_eq_singleton_iff.mp types
    rw [WellTyped] at typed
    rw [withChildren, WellTyped, leftType, rightType]
    exact ⟨typedChildren lhs' (by simp), typedChildren rhs' (by simp), typed.2.2⟩
  | ramp dtype base stride count =>
    obtain ⟨base', rest, rfl, baseType, types⟩ := List.map_eq_cons_iff.mp types
    obtain ⟨stride', rfl, strideType⟩ := List.map_eq_singleton_iff.mp types
    rw [WellTyped, lanes] at typed
    rw [withChildren, WellTyped, lanes, baseType, strideType]
    exact ⟨typedChildren base' (by simp), typedChildren stride' (by simp), typed.2.2⟩
  | letIn dtype name value body =>
    obtain ⟨value', rest, rfl, valueType, types⟩ := List.map_eq_cons_iff.mp types
    obtain ⟨body', rfl, bodyType⟩ := List.map_eq_singleton_iff.mp types
    rw [WellTyped] at typed
    rw [withChildren, WellTyped, valueType, bodyType]
    exact ⟨typedChildren value' (by simp), typedChildren body' (by simp), typed.2.2⟩
  | select dtype cond onTrue onFalse =>
    obtain ⟨cond', rest, rfl, condType, types⟩ := List.map_eq_cons_iff.mp types
    obtain ⟨onTrue', rest', rfl, trueType, types⟩ := List.map_eq_cons_iff.mp types
    obtain ⟨onFalse', rfl, falseType⟩ := List.map_eq_singleton_iff.mp types
    rw [WellTyped, lanes, lanes] at typed
    rw [withChildren, WellTyped, lanes, lanes, condType, trueType, falseType]
    exact ⟨typedChildren cond' (by simp), typedChildren onTrue' (by simp),
      typedChildren onFalse' (by simp), typed.2.2.2⟩
  | shuffle dtype vectors indices =>
    rw [WellTyped] at typed
    rw [withChildren, WellTyped]
    refine ⟨allWellTyped_iff.mpr typedChildren, fun vector member => ?_, typed.2.2⟩
    obtain ⟨old, isOld, isType⟩ := List.mem_map.mp (types ▸ List.mem_map_of_mem member)
    rw [← isType]
    exact typed.2.1 old isOld
  | call dtype op args =>
    rw [WellTyped] at typed
    rw [withChildren, WellTyped]
    exact ⟨allWellTyped_iff.mpr typedChildren, typed.2.1, callTyped_of_map_dtype_eq types typed.2.2⟩

/-! ### Operands in their environments -/

/-- The result has the type of the expression, and its exact value in the environment if it has one. -/
structure KeepsIn (env : Environment) (expr result : Expr) : Prop where
  isType : result.dtype = expr.dtype
  evaluates : ∀ value, expr.evalExact env = some value → result.evalExact env = some value

/-- An operand of a node is evaluated in an environment when the node is evaluated in the given one. -/
inductive Enters (env : Environment) : Expr → Expr → Environment → Prop
  | operand {expr child : Expr} (notLet : expr.isLet = false) (isChild : child ∈ expr.children) :
      Enters env expr child env
  | bound {dtype : DataType} {name : Variable} {value body : Expr} :
      Enters env (letIn dtype name value body) value env
  | body {dtype : DataType} {name : Variable} {value body : Expr} :
      Enters env (letIn dtype name value body) body (env.letting name value)

theorem Enters.mem_children {expr child : Expr} {inner : Environment}
    (enters : Enters env expr child inner) : child ∈ expr.children := by
  cases enters with
  | operand _ isChild => exact isChild
  | bound => exact List.mem_cons_self
  | body => exact List.mem_cons_of_mem _ List.mem_cons_self

section

variable {exprs results : List Expr}

/-- Vectors that keep their types and values keep their lanes. -/
theorem evaluateLanes_of_keepsIn (kept : List.Forall₂ (KeepsIn env) exprs results) {lanes : List Value}
    (evaluated : evaluateLanes .unbounded env exprs = some lanes) :
    evaluateLanes .unbounded env results = some lanes := by
  induction kept generalizing lanes with
  | nil => exact evaluated
  | cons first rest inductionHypothesis =>
    simp only [evaluateLanes, Option.bind_eq_bind, Option.bind_eq_some_iff, Option.pure_def,
      Option.some.injEq] at evaluated ⊢
    obtain ⟨value, isValue, others, areOthers, rfl⟩ := evaluated
    refine ⟨value, first.evaluates value isValue, others, inductionHypothesis areOthers, ?_⟩
    rw [Expr.lanes, Expr.lanes, first.isType]

theorem evaluate_call_of_keepsIn {dtype : DataType} {op : CallOp}
    (kept : List.Forall₂ (KeepsIn env) exprs results) {value : Value}
    (evaluated : (call dtype op exprs).evalExact env = some value) :
    (call dtype op results).evalExact env = some value := by
  rcases call_cases evaluated with
    ⟨rfl, cond, onTrue, onFalse, rfl⟩ | ⟨rfl, operand, rfl⟩ | ⟨lhs, rhs, rfl⟩
  · obtain _ | ⟨isCond, _ | ⟨isTaken, _ | ⟨isRefused, _ | _⟩⟩⟩ := kept
    obtain ⟨scalar, holds, truth, isHolds, isTruth, isResult⟩ :=
      evaluate_ifThenElse_eq_some.mp evaluated
    refine evaluate_ifThenElse_eq_some.mpr
      ⟨scalar, holds, truth, isCond.evaluates _ isHolds, isTruth, ?_⟩
    cases truth
    · exact isRefused.evaluates _ isResult
    · exact isTaken.evaluates _ isResult
  · obtain _ | ⟨isOperand, _ | _⟩ := kept
    obtain ⟨scalar, input, number, isInput, isNumber, isResult⟩ :=
      evaluate_bitwiseNot_eq_some.mp evaluated
    exact evaluate_bitwiseNot_eq_some.mpr
      ⟨scalar, input, number, isOperand.evaluates _ isInput, isNumber, isResult⟩
  · obtain _ | ⟨isLhs, _ | ⟨isRhs, _ | _⟩⟩ := kept
    obtain ⟨scalar, left, left', right, right', bits, isLeft, leftInt, isRight, rightInt, isBits,
      isResult⟩ := evaluate_bitwise_eq_some.mp evaluated
    exact evaluate_bitwise_eq_some.mpr ⟨scalar, left, left', right, right', bits,
      isLhs.evaluates _ isLeft, leftInt, isRhs.evaluates _ isRight, rightInt, isBits, isResult⟩

end

/-- A node that is no binding evaluates its operands in its own environment. -/
theorem keepsIn_operands {expr : Expr} {children : List Expr} (notLet : expr.isLet = false)
    (kept : List.Forall₂ (fun old new => ∀ inner, Enters env expr old inner → KeepsIn inner old new)
      expr.children children) : List.Forall₂ (KeepsIn env) expr.children children :=
  List.forall₂_iff_zip.mpr ⟨kept.length_eq, fun pair =>
    (List.forall₂_iff_zip.mp kept).2 pair env (.operand notLet (List.of_mem_zip pair).1)⟩

/-- A node keeps its exact value when each operand keeps its own where the node evaluates it. -/
theorem evaluate_withChildren_of_keepsIn {expr : Expr} {children : List Expr}
    (kept : List.Forall₂ (fun old new => ∀ inner, Enters env expr old inner → KeepsIn inner old new)
      expr.children children) {result : Value} (evaluated : expr.evalExact env = some result) :
    (expr.withChildren children).evalExact env = some result := by
  cases expr with
  | letIn dtype name value body =>
    obtain _ | ⟨isValue, _ | ⟨isBody, _ | _⟩⟩ := kept
    obtain ⟨bound, isBound, isResult⟩ := evaluate_letIn_eq_some.mp evaluated
    rw [← Environment.letting_eq_set isBound] at isResult
    have kept := (isBody _ .body).evaluates _ isResult
    rw [Environment.letting_eq_set isBound] at kept
    exact evaluate_letIn_eq_some.mpr ⟨bound, (isValue env .bound).evaluates _ isBound, kept⟩
  | var | intConst | floatConst | boolConst =>
    cases kept
    exact evaluated
  | cast dtype value =>
    obtain _ | ⟨isValue, _ | _⟩ := keepsIn_operands rfl kept
    obtain ⟨input, lanes, isInput, equal, rfl⟩ := evaluate_cast_eq_some.mp evaluated
    exact evaluate_cast_eq_some.mpr ⟨input, lanes, isValue.evaluates _ isInput, equal, rfl⟩
  | not dtype value =>
    obtain _ | ⟨isValue, _ | _⟩ := keepsIn_operands rfl kept
    obtain ⟨input, lanes, isInput, equal, rfl⟩ := evaluate_not_eq_some.mp evaluated
    exact evaluate_not_eq_some.mpr ⟨input, lanes, isValue.evaluates _ isInput, equal, rfl⟩
  | broadcast dtype value count =>
    obtain _ | ⟨isValue, _ | _⟩ := keepsIn_operands rfl kept
    obtain ⟨input, isInput, rfl⟩ := evaluate_broadcast_eq_some.mp evaluated
    exact evaluate_broadcast_eq_some.mpr ⟨input, isValue.evaluates _ isInput, rfl⟩
  | binary dtype op lhs rhs =>
    obtain _ | ⟨isLhs, _ | ⟨isRhs, _ | _⟩⟩ := keepsIn_operands rfl kept
    obtain ⟨left, right, lanes, isLeft, isRight, equal, rfl⟩ := evaluate_binary_eq_some.mp evaluated
    refine evaluate_binary_eq_some.mpr ⟨left, right, lanes, isLhs.evaluates _ isLeft,
      isRhs.evaluates _ isRight, ?_, rfl⟩
    rw [isLhs.isType]
    exact equal
  | ramp dtype base stride count =>
    obtain _ | ⟨isBase, _ | ⟨isStride, _ | _⟩⟩ := keepsIn_operands rfl kept
    obtain ⟨first, first', step, step', lanes, isFirst, firstInt, isStep, stepInt, equal, rfl⟩ :=
      evaluate_ramp_eq_some.mp evaluated
    exact evaluate_ramp_eq_some.mpr ⟨first, first', step, step', lanes,
      isBase.evaluates _ isFirst, firstInt, isStride.evaluates _ isStep, stepInt, equal, rfl⟩
  | select dtype cond onTrue onFalse =>
    obtain _ | ⟨isCond, _ | ⟨isTaken, _ | ⟨isRefused, _ | _⟩⟩⟩ := keepsIn_operands rfl kept
    obtain ⟨truth, taken, refused, lanes, truthValue, takenValue, refusedValue, equal, rfl⟩ :=
      evaluate_select_eq_some.mp evaluated
    exact evaluate_select_eq_some.mpr ⟨truth, taken, refused, lanes,
      isCond.evaluates _ truthValue, isTaken.evaluates _ takenValue,
      isRefused.evaluates _ refusedValue, equal, rfl⟩
  | shuffle dtype vectors indices =>
    obtain ⟨lanes, chosen, areLanes, equal, rfl⟩ := evaluate_shuffle_eq_some.mp evaluated
    exact evaluate_shuffle_eq_some.mpr
      ⟨lanes, chosen, evaluateLanes_of_keepsIn (keepsIn_operands rfl kept) areLanes, equal, rfl⟩
  | call dtype op args => exact evaluate_call_of_keepsIn (keepsIn_operands rfl kept) evaluated

end Expr

/-! ### Operands in the scope of bindings -/

/-- The environment differs in the values of the given variables alone, which are of the kind of
their types. -/
structure Environment.Extends (names : List Variable) (env inner : Environment) : Prop where
  kinded : inner.Kinded
  agrees : ∀ name, name ∉ names → inner name = env name

namespace Environment.Extends

theorem refl (kinded : env.Kinded) : env.Extends names env := ⟨kinded, fun _ _ => rfl⟩

theorem letting {inner : Environment} (extend : env.Extends names inner) {name : Variable}
    (member : name ∈ names) {value : Expr}
    (ofType : ∀ bound, value.evalExact inner = some bound → bound.Kinded name.dtype) :
    env.Extends names (inner.letting name value) :=
  ⟨extend.kinded.letting ofType, fun other free =>
    (if_neg fun same => free (by rwa [same])).trans (extend.agrees other free)⟩

end Environment.Extends

namespace Expr

/-- The result has the type of the expression, and its exact value wherever it has one. -/
structure Keeps (names : List Variable) (env : Environment) (expr result : Expr) : Prop where
  within : result.Within names expr.dtype
  evaluates : ∀ inner, env.Extends names inner → ∀ value, expr.evalExact inner = some value →
    result.evalExact inner = some value

theorem Within.child {dtype : DataType} {expr child : Expr} (within : expr.Within names dtype)
    (isChild : child ∈ expr.children) : child.Within names child.dtype :=
  ⟨within.typed.child isChild, rfl, fun name member =>
    within.binders name (mem_binders.mpr (.inr ⟨child, isChild, member⟩))⟩

theorem binder?_withChildren (expr : Expr) (children : List Expr) :
    (expr.withChildren children).binder? = expr.binder? := by
  unfold withChildren
  split <;> rfl

/-- An operand that keeps its value whatever the bound variables are keeps it where it is evaluated. -/
theorem Keeps.keepsIn {expr old new : Expr} (within : expr.Within names expr.dtype)
    (kept : old.Keeps names env new) {inner scope : Environment} (extend : env.Extends names inner)
    (enters : Enters inner expr old scope) : KeepsIn scope old new := by
  refine ⟨kept.within.dtype_eq, fun value => kept.evaluates scope ?_ value⟩
  cases enters with
  | operand | bound => exact extend
  | body => exact extend.letting (within.binders _ (mem_binders.mpr (.inl rfl))) fun _ isBound =>
      within.typed.kinded_bound extend.kinded isBound

section

variable {exprs results : List Expr}

theorem map_dtype_eq_of_keeps (kept : List.Forall₂ (Keeps names env) exprs results) :
    results.map dtype = exprs.map dtype := by
  induction kept with
  | nil => rfl
  | cons first _ inductionHypothesis =>
    rw [List.map_cons, List.map_cons, first.within.dtype_eq, inductionHypothesis]

theorem within_of_keeps (kept : List.Forall₂ (Keeps names env) exprs results) {result : Expr}
    (member : result ∈ results) : result.Within names result.dtype := by
  induction kept with
  | nil => exact absurd member List.not_mem_nil
  | cons first _ inductionHypothesis =>
    rcases List.mem_cons.mp member with rfl | inRest
    · rw [first.within.dtype_eq]
      exact first.within
    · exact inductionHypothesis inRest

end

/-- A node with operands that keep their types and values keeps its own. -/
theorem keeps_withChildren {expr : Expr} {children : List Expr}
    (within : expr.Within names expr.dtype)
    (kept : List.Forall₂ (Keeps names env) expr.children children) :
    expr.Keeps names env (expr.withChildren children) := by
  refine ⟨⟨?_, dtype_withChildren expr children, fun name member => ?_⟩,
    fun inner extend value evaluated => ?_⟩
  · exact wellTyped_withChildren within.typed (map_dtype_eq_of_keeps kept)
      fun child member => (within_of_keeps kept member).typed
  · rcases mem_binders.mp member with isBinder | ⟨child, isChild, inside⟩
    · rw [binder?_withChildren] at isBinder
      exact within.binders name (mem_binders.mpr (.inl isBinder))
    · rw [children_withChildren kept.length_eq.symm] at isChild
      exact (within_of_keeps kept isChild).binders name inside
  · refine evaluate_withChildren_of_keepsIn (kept.imp fun old new isKept => ?_) evaluated
    exact fun scope enters => isKept.keepsIn within extend enters

end Expr

end IndexAlgebra
