/-
This file says which expressions are regular: they are well typed over integers and truth values, and
do not mix the two. The value of a regular expression then has truth values in its lanes exactly where
its type says so. Both kinds of lanes are told by an integer, so that two regular expressions of one
type have the same value if they have the same integers in their lanes.
-/
import IndexAlgebra.Proofs.Exact.Choices
import IndexAlgebra.Proofs.Exact.Comparisons
import IndexAlgebra.Proofs.Exact.Identities
import IndexAlgebra.Proofs.Replacement
import IndexAlgebra.Proofs.TypeSoundness

namespace IndexAlgebra

/-! ### Regular expressions -/

/-- Every variable has a value of the kind of its type, in which truth values stand for themselves. -/
structure Environment.Truthful (env : Environment) : Prop where
  kinded : env.Kinded
  truths : ∀ name value, env name = some value → name.dtype.isBool = true →
    ∀ lane ∈ value.toLanes name.dtype.lanes, ∃ truth, lane = .bool truth

theorem Environment.Typed.truthful {env : Environment} (typed : env.Typed) : env.Truthful := by
  refine ⟨typed.kinded, fun name value isValue isBool lane isLane => ?_⟩
  have hasType := Value.hasTypeUpTo_false.mpr (typed name value isValue).1
  have inLane := Value.inLaneUpTo_false.mp ((hasType.toLanes name.dtype.lanes (.inl rfl)).2 lane isLane)
  cases lane with
  | int number => simp [Value.InLane, DataType.isInteger_of_isBool isBool] at inLane
  | bool truth => exact ⟨truth, rfl⟩
  | float number => simp [Value.InLane, DataType.isFloat_of_isBool isBool] at inLane
  | vector lanes => exact inLane.elim

theorem Environment.Truthful.set {env : Environment} (truthful : env.Truthful) {name : Variable}
    {value : Value} (kinded : value.Kinded name.dtype) (truths : name.dtype.isBool = true →
      ∀ lane ∈ value.toLanes name.dtype.lanes, ∃ truth, lane = .bool truth) :
    (env.set name value).Truthful := by
  refine ⟨truthful.kinded.set kinded, fun other found isFound isBool => ?_⟩
  by_cases same : other = name
  · subst same
    rw [set_self] at isFound
    cases isFound
    exact truths isBool
  · rw [set_of_ne _ _ same] at isFound
    exact truthful.truths other found isFound isBool

namespace Expr

/-- The node computes a number, and its type is that of truth values. -/
def MixesTruths : Expr → Prop
  | call dtype op _ => op ≠ .ifThenElse ∧ dtype.isBool = true
  | expr => expr.OnTruths

instance (expr : Expr) : Decidable expr.MixesTruths := by
  unfold MixesTruths
  split <;> infer_instance

/-- A well-typed expression over integers and truth values, which it does not mix. -/
structure Regular (expr : Expr) : Prop where
  typed : expr.WellTyped
  integral : expr.Integral
  unmixed : ∀ node ∈ expr.postOrder, ¬node.MixesTruths

instance (expr : Expr) : Decidable expr.Regular :=
  decidable_of_iff
    (expr.WellTyped ∧ expr.Integral ∧ ∀ node ∈ expr.postOrder, ¬node.MixesTruths)
    ⟨fun ⟨typed, integral, unmixed⟩ => ⟨typed, integral, unmixed⟩,
      fun ⟨typed, integral, unmixed⟩ => ⟨typed, integral, unmixed⟩⟩

theorem regular_iff {expr : Expr} : expr.Regular ↔
    expr.WellTyped ∧ expr.dtype.isFloat = false ∧ ¬expr.MixesTruths ∧
      ∀ child ∈ expr.children, child.Regular := by
  constructor
  · rintro ⟨typed, integral, unmixed⟩
    obtain ⟨own, children⟩ := integral_iff.mp integral
    refine ⟨typed, own, unmixed expr expr.self_mem_postOrder, fun child isChild => ?_⟩
    exact ⟨typed.child isChild, children child isChild,
      fun node inside => unmixed node (mem_postOrder.mpr (.inr ⟨child, isChild, inside⟩))⟩
  · rintro ⟨typed, notFloat, own, children⟩
    have integral : expr.Integral :=
      integral_iff.mpr ⟨notFloat, fun child isChild => (children child isChild).integral⟩
    refine ⟨typed, integral, ?_⟩
    intro node member
    rcases mem_postOrder.mp member with rfl | ⟨child, isChild, inside⟩
    · exact own
    · exact (children child isChild).unmixed node inside

variable {check : RangeCheck} {env : Environment} {expr result cond lhs rhs a b : Expr} {op : BinaryOp}
  {dtype : DataType} {index : Nat} {number : Int}

namespace Regular

theorem child (regular : expr.Regular) {child : Expr} (isChild : child ∈ expr.children) :
    child.Regular := (regular_iff.mp regular).2.2.2 child isChild

theorem notFloat (regular : expr.Regular) : expr.dtype.isFloat = false := (regular_iff.mp regular).2.1

theorem not_mixesTruths (regular : expr.Regular) : ¬expr.MixesTruths := (regular_iff.mp regular).2.2.1

theorem isInteger_or_isBool (regular : expr.Regular) :
    expr.dtype.isInteger = true ∨ expr.dtype.isBool = true := by
  by_cases isBool : expr.dtype.isBool = true
  · exact .inr isBool
  · exact .inl (DataType.isInteger_of_other regular.notFloat (by simpa using isBool))

end Regular

theorem mixesTruths_withChildren (expr : Expr) (children : List Expr) :
    (expr.withChildren children).MixesTruths ↔ expr.MixesTruths := by
  unfold withChildren
  split <;> rfl

theorem Regular.withChildren {children : List Expr} (regular : expr.Regular)
    (types : children.map Expr.dtype = expr.children.map Expr.dtype)
    (regularChildren : ∀ child ∈ children, child.Regular) : (expr.withChildren children).Regular := by
  have length : children.length = expr.children.length := by
    simpa using congrArg List.length types
  refine regular_iff.mpr ⟨?_, ?_, ?_, ?_⟩
  · exact wellTyped_withChildren regular.typed types fun child member =>
      (regularChildren child member).typed
  · rw [dtype_withChildren]
    exact regular.notFloat
  · rw [mixesTruths_withChildren]
    exact regular.not_mixesTruths
  · rwa [children_withChildren length]

/-! ### Variables of regular expressions -/

theorem mixesTruths_iff_of_renamed {image : Variable → Variable} {expr renamed : Expr}
    (related : Renamed image expr renamed) : renamed.MixesTruths ↔ expr.MixesTruths := by
  cases related <;> rfl

theorem Regular.renamed {image : Variable → Variable} {expr renamed : Expr} (regular : expr.Regular)
    (related : Renamed image expr renamed)
    (types : ∀ name ∈ expr.freeOccurrences, (image name).dtype = name.dtype) : renamed.Regular :=
  ⟨related.wellTyped types regular.typed, related.integral regular.integral,
    related.forall_postOrder (fun node => not_congr (mixesTruths_iff_of_renamed node))
      regular.unmixed⟩

theorem regular_letIn {dtype : DataType} {name : Variable} {value body : Expr} :
    (letIn dtype name value body).Regular ↔
      value.Regular ∧ body.Regular ∧ value.dtype = name.dtype ∧ dtype = body.dtype := by
  rw [regular_iff, WellTyped]
  simp only [children, List.mem_cons, List.not_mem_nil, or_false, forall_eq_or_imp, forall_eq]
  constructor
  · rintro ⟨⟨-, -, bound, same⟩, -, -, isValue, isBody⟩
    exact ⟨isValue, isBody, bound, same⟩
  · rintro ⟨isValue, isBody, bound, rfl⟩
    exact ⟨⟨isValue.typed, isBody.typed, bound, rfl⟩, isBody.notFloat, id, isValue, isBody⟩

/-- A variable that may be bound to a regular expression is one. -/
theorem Regular.variable {value : Expr} (regular : value.Regular) {name : Variable}
    (isType : value.dtype = name.dtype) : name.expr.Regular := by
  refine regular_iff.mpr ⟨?_, ?_, id, fun _ isChild => by cases isChild⟩
  · rw [Variable.expr, WellTyped]
    exact ⟨rfl, isType ▸ regular.typed.valid⟩
  · show name.dtype.isFloat = false
    exact isType ▸ regular.notFloat

/-- An expression stays regular where regular expressions take the place of variables of their types. -/
theorem regular_substituteWithin {replacement : Replacement}
    (values : ∀ name value, replacement name = some value → value.Regular ∧ value.dtype = name.dtype)
    (fuel : Nat) (hidden : List Variable) {expr : Expr} (regular : expr.Regular) :
    (substituteWithin fuel replacement hidden expr).Regular ∧
      (substituteWithin fuel replacement hidden expr).dtype = expr.dtype := by
  induction fuel generalizing replacement hidden expr with
  | zero => exact ⟨regular, rfl⟩
  | succ fuel inductionHypothesis =>
    cases expr with
    | var dtype name =>
      have typed := regular.typed
      rw [WellTyped] at typed
      rw [substituteWithin]
      split
      · exact ⟨regular, rfl⟩
      · cases found : replacement name with
        | none => exact ⟨regular, rfl⟩
        | some value =>
          obtain ⟨isRegular, isType⟩ := values name value found
          exact ⟨isRegular, isType.trans typed.1.symm⟩
    | letIn dtype name value body =>
      obtain ⟨isValue, isBody, bound, rfl⟩ := regular_letIn.mp regular
      obtain ⟨newValue, sameValue⟩ := inductionHypothesis values hidden isValue
      rcases substituteWithin_letIn fuel replacement hidden body.dtype name value body with
        ⟨-, walked⟩ | ⟨fresh, -, freshType, walked⟩
      · obtain ⟨newBody, sameBody⟩ := inductionHypothesis values (name :: hidden) isBody
        rw [walked, regular_letIn]
        exact ⟨⟨newValue, newBody, sameValue.trans bound, sameBody.symm⟩, rfl⟩
      · have renames : ∀ other renamed, Replacement.single name fresh.expr other = some renamed →
            renamed.Regular ∧ renamed.dtype = other.dtype := by
          intro other renamed found
          obtain ⟨rfl, equal⟩ := Option.ite_none_right_eq_some.mp found
          cases equal
          exact ⟨isValue.variable (bound.trans freshType.symm), freshType⟩
        obtain ⟨renamedBody, sameRenamed⟩ := inductionHypothesis renames [] isBody
        obtain ⟨newBody, sameBody⟩ := inductionHypothesis values (fresh :: hidden) renamedBody
        rw [walked, regular_letIn]
        exact ⟨⟨newValue, newBody, sameValue.trans (bound.trans freshType.symm),
          (sameBody.trans sameRenamed).symm⟩, rfl⟩
    | _ =>
      rw [substituteWithin_of_not_isLet fuel replacement hidden rfl rfl, Expr.mapChildren]
      refine ⟨regular.withChildren ?_ fun child isChild => ?_, dtype_withChildren _ _⟩
      · rw [List.map_map]
        exact List.map_congr_left fun child isChild =>
          (inductionHypothesis values hidden (regular.child isChild)).2
      · obtain ⟨original, isOriginal, rfl⟩ := List.mem_map.mp isChild
        exact (inductionHypothesis values hidden (regular.child isOriginal)).1

/-! ### Values of truth values -/

/-- A value that is made of truth values has no other lanes. -/
theorem truths_of_ofLanes {lanes : List Value} {count : Nat}
    (truths : ∀ lane ∈ lanes, ∃ truth, lane = .bool truth) :
    ∀ lane ∈ (Value.ofLanes lanes).toLanes count, ∃ truth, lane = .bool truth := by
  refine fun lane member => truths lane (Value.mem_of_mem_toLanes (fun lane isLane => ?_) member)
  obtain ⟨truth, rfl⟩ := truths lane isLane
  rintro lanes equal
  cases equal

/-- A logical operator gives a truth value, and so does a comparison. -/
theorem exists_bool_of_binary? {element : DataType} {left right lane : Value}
    (notArithmetic : ¬op.opClass = .arithmetic)
    (computed : Scalar.binary? check element op left right = some lane) :
    ∃ truth, lane = .bool truth := by
  cases isClass : op.opClass with
  | arithmetic => exact absurd isClass notArithmetic
  | comparison =>
    exact Scalar.exists_bool_of_comparison (by rw [BinaryOp.isComparison, isClass]; rfl) computed
  | logical =>
    cases left <;> cases right <;> try contradiction
    all_goals
      cases op <;> cases isClass
      all_goals first | exact ⟨_, (Option.some.inj computed).symm⟩ | cases computed

/-- A branch that is taken in some lane has truth values if the value that is chosen has the lane. -/
theorem Chooses.hasTruths {onTrue onFalse : Expr} {value : Value}
    (chooses : Chooses check env dtype cond onTrue onFalse value)
    (trueLanes : onTrue.lanes = dtype.lanes) (falseLanes : onFalse.lanes = dtype.lanes)
    (taken : onTrue.HasTruths check env) (refused : onFalse.HasTruths check env) :
    ∀ lane ∈ value.toLanes dtype.lanes, ∃ truth, lane = .bool truth := by
  obtain ⟨isKinded, truths, -, chosen⟩ := chooses
  intro lane member
  obtain ⟨index, inside, rfl⟩ := List.getElem_of_mem member
  obtain ⟨truth, branch, -, isBranch, isLane⟩ :=
    chosen index ((isKinded.toLanes dtype.lanes (.inl rfl)).1 ▸ inside)
  rw [List.getElem?_eq_getElem inside] at isLane
  have isMember := List.mem_of_getElem? isLane.symm
  cases truth
  · exact refused branch isBranch _ (by rwa [falseLanes])
  · exact taken branch isBranch _ (by rwa [trueLanes])

/-- A regular expression whose type is that of truth values has one in every lane of its value. -/
theorem Regular.hasTruths (regular : expr.Regular) (truthful : env.Truthful)
    (isBool : expr.dtype.isBool = true) : expr.HasTruths check env := by
  induction expr using childrenInduction generalizing env with
  | step expr inductionHypothesis =>
    have ofChild {child : Expr} (isChild : child ∈ expr.children) (isBool : child.dtype.isBool = true) :
        child.HasTruths check env :=
      inductionHypothesis child isChild (regular.child isChild) truthful isBool
    have typed := regular.typed
    have unmixed := regular.not_mixesTruths
    intro value evaluated lane member
    rw [Expr.lanes] at member
    cases expr with
    | var dtype name =>
      rw [WellTyped] at typed
      rw [Expr.dtype, typed.1] at isBool member
      exact truthful.truths name value evaluated isBool lane member
    | intConst dtype number =>
      rw [WellTyped] at typed
      cases (DataType.isInteger_of_isBool isBool).symm.trans typed.2.1
    | floatConst dtype number =>
      rw [WellTyped] at typed
      cases (DataType.isFloat_of_isBool isBool).symm.trans typed.2.1
    | boolConst dtype truth =>
      cases evaluated
      exact ⟨truth, List.eq_of_mem_replicate member⟩
    | cast dtype operand =>
      obtain ⟨input, lanes, -, equal, rfl⟩ := evaluate_cast_eq_some.mp evaluated
      refine truths_of_ofLanes (fun lane isLane => ?_) lane member
      obtain ⟨source, -, converted⟩ := exists_of_mem_mapM equal isLane
      have isTruth : dtype.isBool = true := isBool
      unfold Scalar.cast? at converted
      rw [DataType.isBool_element, if_pos isTruth] at converted
      cases source <;> cases converted <;> exact ⟨_, rfl⟩
    | binary dtype op lhs rhs =>
      obtain ⟨left, right, lanes, -, -, equal, rfl⟩ := evaluate_binary_eq_some.mp evaluated
      refine truths_of_ofLanes (fun lane isLane => ?_) lane member
      obtain ⟨_, -, computed⟩ := exists_of_mem_mapM equal isLane
      exact exists_bool_of_binary? (fun arithmetic => unmixed ⟨arithmetic, isBool⟩) computed
    | not dtype operand =>
      obtain ⟨input, lanes, -, equal, rfl⟩ := evaluate_not_eq_some.mp evaluated
      refine truths_of_ofLanes (fun lane isLane => ?_) lane member
      obtain ⟨_, -, negated⟩ := exists_of_mem_mapM equal isLane
      obtain ⟨truth, -, rfl⟩ := Option.map_eq_some_iff.mp negated
      exact ⟨!truth, rfl⟩
    | select dtype cond onTrue onFalse =>
      obtain ⟨chooses, -, -⟩ := (evaluate_select_iff typed truthful.kinded).mp evaluated
      rw [WellTyped] at typed
      obtain ⟨-, -, -, -, same, rfl, -⟩ := typed
      exact chooses.hasTruths rfl (congrArg DataType.lanes same.symm)
        (ofChild (by simp [children]) isBool) (ofChild (by simp [children]) (same ▸ isBool)) lane member
    | ramp dtype base stride count => exact absurd isBool unmixed
    | broadcast dtype operand count =>
      obtain ⟨input, isInput, rfl⟩ := evaluate_broadcast_eq_some.mp evaluated
      rw [WellTyped] at typed
      obtain ⟨operandTyped, single, -, rfl⟩ := typed
      have ofKind := (evaluate_kinded operandTyped truthful.kinded isInput).ofKind single
      refine ofChild (List.mem_singleton_self operand) isBool input isInput lane ?_
      rw [List.eq_of_mem_replicate member, single, ofKind.toLanes_one]
      exact List.mem_singleton_self input
    | shuffle dtype vectors indices =>
      obtain ⟨lanes, chosen, areLanes, equal, rfl⟩ := evaluate_shuffle_eq_some.mp evaluated
      rw [WellTyped] at typed
      refine truths_of_ofLanes (fun lane isLane => ?_) lane member
      obtain ⟨index, -, found⟩ := exists_of_mem_mapM equal isLane
      obtain ⟨vector, isVector, input, isInput, inLanes⟩ :=
        exists_of_mem_evaluateLanes areLanes (List.mem_of_getElem? found)
      refine ofChild isVector ?_ input isInput lane inLanes
      rw [← DataType.isBool_element, typed.2.1 vector isVector, DataType.isBool_element]
      exact isBool
    | letIn dtype name bound body =>
      obtain ⟨input, isInput, isResult⟩ := evaluate_letIn_eq_some.mp evaluated
      have inputKinded := typed.kinded_bound truthful.kinded isInput
      rw [WellTyped] at typed
      obtain ⟨-, -, named, rfl⟩ := typed
      have isBound : bound ∈ (letIn body.dtype name bound body).children := by simp [children]
      have isBody : body ∈ (letIn body.dtype name bound body).children := by simp [children]
      refine inductionHypothesis body isBody (regular.child isBody)
        (truthful.set inputKinded ?_) isBool value isResult lane member
      rw [← named]
      exact fun isBool => ofChild isBound isBool input isInput
    | call dtype op args =>
      rcases call_cases evaluated with
        ⟨rfl, cond, onTrue, onFalse, rfl⟩ | ⟨rfl, -⟩ | ⟨left, right, rfl⟩
      · obtain ⟨chooses, -⟩ := (evaluate_ifThenElse_iff typed truthful.kinded).mp evaluated
        rw [WellTyped] at typed
        obtain ⟨-, -, -, trueType, falseType⟩ := typed
        refine chooses.hasTruths (congrArg DataType.lanes trueType) (congrArg DataType.lanes falseType)
          (ofChild (by simp [children]) (trueType ▸ isBool))
          (ofChild (by simp [children]) (falseType ▸ isBool)) lane member
      · exact absurd ⟨by simp, isBool⟩ unmixed
      · refine absurd ⟨?_, isBool⟩ unmixed
        rintro rfl
        rw [WellTyped] at typed
        exact typed.2.2.elim

/-- The integer in a lane of truth values is that of a truth value. -/
theorem Regular.exists_truth (regular : expr.Regular) (truthful : env.Truthful)
    (isBool : expr.dtype.isBool = true) (isNumber : expr.valueIn check env index = some number) :
    ∃ truth : Bool, number = truth.toNat := by
  obtain ⟨value, evaluated, lane, isLane, isInt⟩ := valueIn_eq_some.mp isNumber
  obtain ⟨truth, rfl⟩ :=
    regular.hasTruths truthful isBool value evaluated lane (List.mem_of_getElem? isLane)
  exact ⟨truth, (Option.some.inj isInt).symm⟩

/-- A negation is the opposite of its operand in every lane. -/
theorem Regular.valueIn_not (regular : (not dtype a).Regular) (truthful : env.Truthful)
    (isNumber : (not dtype a).valueIn check env index = some number) :
    ∃ truth : Bool, a.valueIn check env index = some (truth.toNat : Int) ∧ number = (!truth).toNat := by
  obtain ⟨value, evaluated, lane, isLane, isInt⟩ := valueIn_eq_some.mp isNumber
  have typed := regular.typed
  rw [WellTyped] at typed
  obtain ⟨truth, rfl⟩ :=
    regular.hasTruths truthful typed.2.2 value evaluated lane (List.mem_of_getElem? isLane)
  obtain ⟨operand, isOperand, opposite⟩ :=
    regular.typed.toLanes_of_eval_not truthful.kinded (.inl rfl) evaluated
  refine ⟨!truth, valueIn_eq_some.mpr ⟨operand, isOperand, .bool !truth, ?_, rfl⟩, ?_⟩
  · rw [Expr.lanes, ← typed.2.1]
    exact opposite index truth isLane
  · rw [Bool.not_not]
    exact (Option.some.inj isInt).symm

/-! ### Rewriting regular expressions -/

/-- Regular expressions of one type, whose values are asked for in the environment. -/
structure Alike (env : Environment) (expr result : Expr) : Prop where
  truthful : env.Truthful
  regular : expr.Regular
  resultRegular : result.Regular
  isType : result.dtype = expr.dtype

/-- Regular expressions of one type have the same value if they have the same integers in their
lanes. -/
theorem Alike.sameIn (alike : Alike env expr result)
    (same : ∀ {index first second}, expr.valueIn check env index = some first →
      result.valueIn check env index = some second → first = second) : SameIn check env expr result := by
  obtain ⟨truthful, regular, resultRegular, isType⟩ := alike
  have agrees : Agrees check env expr result := ⟨resultRegular.typed, isType, fun _ _ _ => same⟩
  rcases regular.isInteger_or_isBool with isInteger | isBool
  · exact agrees.sameIn regular.typed truthful.kinded isInteger
  · have settles : Settles check env expr result :=
      ⟨agrees, resultRegular.hasTruths truthful (isType ▸ isBool)⟩
    exact fun _ _ => settles.eq regular.typed truthful.kinded (regular.hasTruths truthful isBool)

variable [check.Lawful]

/-- The lanes of a regular node are made of those of its operands. -/
theorem Regular.valueIn_binary (regular : (binary dtype op lhs rhs).Regular) (truthful : env.Truthful)
    (isNumber : (binary dtype op lhs rhs).valueIn check env index = some number) :
    ∃ left, lhs.valueIn check env index = some left ∧ ∃ right, rhs.valueIn check env index = some right ∧
      op.onLane left right = some number :=
  regular.typed.valueIn_binary truthful.kinded (regular.child (by simp [children])).notFloat isNumber

/-- Two regular nodes of the same operands, in either order, have the same value where the operators make
the same of them. -/
theorem Alike.sameIn_binary {resultType : DataType} {op' : BinaryOp} {a b : Expr}
    (alike : Alike env (binary dtype op lhs rhs) (binary resultType op' a b))
    (same : ∀ {index x y p q first second}, lhs.valueIn check env index = some x →
      rhs.valueIn check env index = some y → a.valueIn check env index = some p →
      b.valueIn check env index = some q → op.onLane x y = some first → op'.onLane p q = some second →
      first = second) : SameIn check env (binary dtype op lhs rhs) (binary resultType op' a b) := by
  refine alike.sameIn fun {index first second} isFirst isSecond => ?_
  obtain ⟨x, isX, y, isY, made⟩ := alike.regular.valueIn_binary alike.truthful isFirst
  obtain ⟨p, isP, q, isQ, made'⟩ := alike.resultRegular.valueIn_binary alike.truthful isSecond
  exact same isX isY isP isQ made made'

end Expr

end IndexAlgebra
