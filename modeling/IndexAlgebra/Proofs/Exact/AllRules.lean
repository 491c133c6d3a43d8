/-
This file collects what has been proved of the rules: what a rule that is tried on a regular expression
makes of it has its value wherever both have one, if what the rule is told is true. It also proves so of
the rules for bindings, which put a value in the place of a variable or drop a variable that is not used.
-/
import IndexAlgebra.Proofs.Exact.Conversions
import IndexAlgebra.Proofs.Exact.Extrema
import IndexAlgebra.Proofs.Exact.Lanes
import IndexAlgebra.Proofs.Exact.Quotients
import IndexAlgebra.Proofs.Exact.Sums
import IndexAlgebra.Proofs.SimultaneousSubstitution
import IndexAlgebra.Reduction.Simplifier

namespace IndexAlgebra.Reduction

open IndexAlgebra.Expr

variable {check : RangeCheck} {env : Environment} {answers : Answers} {expr result : Expr}

/-! ### Bindings -/

namespace Bindings

theorem evaluate_drop? {value : Value} (applies : drop? expr = some result)
    (evaluated : expr.evaluate check env = some value) : result.evaluate check env = some value := by
  unfold drop? at applies
  split at applies
  next dtype name bound body =>
    obtain ⟨unused, equal⟩ := Option.ite_none_left_eq_some.mp applies
    cases equal
    obtain ⟨found, -, isBody⟩ := evaluate_letIn_eq_some.mp evaluated
    rwa [evaluate_congr fun other occurs => Environment.set_of_ne env found ?_] at isBody
    rintro rfl
    exact not_uses_iff.mp (by simpa using unused) (mem_mentions_of_mem_freeOccurrences occurs)
  next => cases applies

/-- A value in the place of a bound variable keeps the value of the binding. -/
theorem evaluate_substituteOne {name : Variable} {value body : Expr} {bound : Value}
    (isType : value.dtype = name.dtype) (typed : body.NamesTyped)
    (isBound : value.evaluate check env = some bound) :
    (body.substituteOne name value).evaluate check env = body.evaluate check (env.set name bound) := by
  have kept : (Replacement.single name value).Typed := by
    intro other replaced found
    obtain ⟨rfl, equal⟩ := Option.ite_none_right_eq_some.mp found
    cases equal
    exact isType
  rw [substituteOne, (substitute_substitutes kept typed).evaluate_eq]
  refine congrArg (fun env => evaluate check env body) (funext fun other => ?_)
  by_cases same : other = name
  · subst same
    simp [valuesOf, Replacement.image, Replacement.single, isBound, Environment.set_self]
  · simp [valuesOf, Replacement.image, Replacement.single, same, Environment.set_of_ne]

theorem evaluate_expand? {value : Value} (typed : expr.WellTyped) (applies : expand? expr = some result)
    (evaluated : expr.evaluate check env = some value) : result.evaluate check env = some value := by
  unfold expand? at applies
  split at applies
  next dtype name bound body =>
    obtain ⟨-, equal⟩ := Option.ite_none_right_eq_some.mp applies
    cases equal
    have namesTyped : body.NamesTyped :=
      typed.namesTyped.child (List.mem_cons_of_mem _ List.mem_cons_self)
    rw [WellTyped] at typed
    obtain ⟨found, isBound, isBody⟩ := evaluate_letIn_eq_some.mp evaluated
    rwa [evaluate_substituteOne typed.2.2.1 namesTyped isBound]
  next => cases applies

/-- What a rule makes of a binding has its value. -/
theorem evaluate_of_rewrites {rule : Rule} {value : Value} (member : rule ∈ rules)
    (typed : expr.WellTyped) (rewrites : rule.Rewrites answers expr result)
    (evaluated : expr.evaluate check env = some value) : result.evaluate check env = some value := by
  simp only [rules, Rule.pure, List.mem_cons, List.not_mem_nil, or_false] at member
  rcases member with rfl | rfl
  · exact evaluate_drop? rewrites evaluated
  · exact evaluate_expand? typed rewrites evaluated

theorem sameIn_of_rewrites {rule : Rule} (member : rule ∈ rules) (typed : expr.WellTyped)
    (rewrites : rule.Rewrites answers expr result) : SameIn check env expr result :=
  fun _ _ isFirst isSecond =>
    Option.some.inj ((evaluate_of_rewrites member typed rewrites isFirst).symm.trans isSecond)

end Bindings

/-! ### Vectors -/

theorem Lanes.sameIn_of_rewrites [check.Lawful] {rule : Rule} (member : rule ∈ Lanes.rules)
    (typed : expr.WellTyped) (kinded : env.Kinded) (rewrites : rule.Rewrites answers expr result) :
    SameIn check env expr result := by
  simp only [Lanes.rules, Rule.pure, List.mem_cons, List.not_mem_nil, or_false] at member
  rcases member with rfl | rfl | rfl | rfl | rfl | rfl
  · exact sameIn_broadcastOp typed kinded rewrites
  · exact sameIn_rampAddRamp typed kinded rewrites
  · exact sameIn_rampAddBroadcast typed kinded rewrites
  · exact sameIn_rampMulBroadcast typed kinded rewrites
  · exact sameIn_rampZeroStride typed kinded rewrites
  · exact sameIn_broadcastUnary typed kinded rewrites

/-! ### All rules -/

/-- What the rules are told is true: what is found for every expression holds of its integers, and so
does what is found for every two expressions. -/
structure Informed (check : RangeCheck) (env : Environment) (answers : Answers) : Prop where
  reliable : answers.evidence.Reliable check env
  related : ∀ lhs rhs, answers.TrueIn check env (.relation lhs rhs)

theorem Informed.told (informed : Informed check env answers) (question : Question) :
    answers.TrueIn check env question := by
  cases question with
  | bound expr => exact informed.reliable.bound expr
  | congruence expr => exact informed.reliable.congruence expr
  | relation lhs rhs => exact informed.related lhs rhs

variable [check.Lawful] {rule : Rule}

/-- What a rule that is tried on every node makes of one has its value. -/
theorem Identities.sameIn_of_informed (member : rule ∈ Identities.rules) (alike : Alike env expr result)
    (informed : Informed check env answers) (rewrites : rule.Rewrites answers expr result) :
    SameIn check env expr result := by
  have overIntegers (operands : expr.IntegerOperands) : SameIn check env expr result :=
    Identities.sameIn_of_rewrites member ⟨alike.regular.typed, alike.truthful.kinded, operands⟩
      (.inr alike.resultRegular.typed) informed.told rewrites
  cases expr with
  | binary dtype op lhs rhs =>
    have isLhs : lhs.Regular := alike.regular.child List.mem_cons_self
    rcases isLhs.isInteger_or_isBool with isInteger | isBool
    · exact overIntegers isInteger
    · exact Identities.sameIn_of_rewrites_truths member ⟨alike, isBool⟩ rewrites
  | _ => exact overIntegers trivial

/-- What a rule for the operator of a binary node makes of the node has its value. -/
theorem sameIn_of_rulesOfOp {dtype : DataType} {op : BinaryOp} {lhs rhs : Expr}
    (member : rule ∈ rulesOfOp dtype op) (alike : Alike env (binary dtype op lhs rhs) result)
    (informed : Informed check env answers)
    (rewrites : rule.Rewrites answers (binary dtype op lhs rhs) result) :
    SameIn check env (binary dtype op lhs rhs) result := by
  have typed := alike.regular.typed
  have kinded := alike.truthful.kinded
  have isLhs : lhs.Regular := alike.regular.child List.mem_cons_self
  have node := typed
  rw [WellTyped] at node
  obtain ⟨-, -, -, isType, -⟩ := node
  unfold rulesOfOp at member
  dsimp only at member
  split at member
  next arithmetic =>
    obtain ⟨isInteger, member⟩ := List.mem_ite_nil_right.mp member
    have onIntegers : OverIntegers check env (binary dtype op lhs rhs) := by
      refine ⟨typed, kinded, ?_⟩
      rw [isType, binaryType_of_arithmetic arithmetic] at isInteger
      exact isInteger
    have divided (member : rule ∈ Quotients.quotientRules ++ Quotients.remainderRules) :
        SameIn check env (binary dtype op lhs rhs) result :=
      have exact := Quotients.exact_of_rewrites member typed kinded informed.told rewrites
      exact.agrees.sameIn typed kinded exact.isInteger
    split at member
    · exact Sums.sameIn_of_sumRules member onIntegers rewrites
    · exact Sums.sameIn_of_differenceRules member onIntegers rewrites
    · exact Sums.sameIn_of_productRules member onIntegers rewrites
    · exact divided (List.mem_append_left _ member)
    · exact divided (List.mem_append_left _ member)
    · exact divided (List.mem_append_right _ member)
    · exact divided (List.mem_append_right _ member)
    · exact Extrema.sameIn_of_rewrites member onIntegers informed.told rewrites
    · exact Extrema.sameIn_of_rewrites member onIntegers informed.told rewrites
    · cases member
  next comparison =>
    rcases isLhs.isInteger_or_isBool with isInteger | isBool
    · have compares : Compares check env dtype op lhs rhs :=
        ⟨typed, kinded, by rw [BinaryOp.isComparison, comparison]; rfl, isInteger⟩
      exact (Comparisons.settles_of_rewrites member compares informed.told rewrites).sameIn compares
    · exact Comparisons.sameIn_of_rewrites_truths member ⟨alike, isBool⟩ rewrites
  next =>
    exact Conditions.sameIn_of_rewrites (List.mem_append_left _ member) alike informed.reliable rewrites

/-- What a rule that is tried on a regular expression makes of it has its value wherever both have one,
if what the rule is told is true and what is converted has values of its types. -/
theorem sameIn_of_rulesFor (member : rule ∈ rulesFor expr) (alike : Alike env expr result)
    (informed : Informed check env answers) (held : Conversions.Held check env expr)
    (passes : PassesIntegers check env) (rewrites : rule.Rewrites answers expr result) :
    SameIn check env expr result := by
  have typed := alike.regular.typed
  have kinded := alike.truthful.kinded
  simp only [rulesFor, List.mem_append, List.mem_ite_nil_right] at member
  rcases member with ((general | ⟨-, vectors⟩) | known) | ofKind
  · exact Identities.sameIn_of_informed general alike informed rewrites
  · exact Lanes.sameIn_of_rewrites vectors typed kinded rewrites
  · exact Conditions.sameIn_of_rewrites (List.mem_append_right _ known) alike informed.reliable rewrites
  · unfold rulesOfKind at ofKind
    split at ofKind
    · exact sameIn_of_rulesOfOp ofKind alike informed rewrites
    · exact Conditions.sameIn_of_rewrites (List.mem_append_left _ ofKind) alike informed.reliable
        rewrites
    · exact Choices.sameIn_of_rewrites ofKind typed kinded passes rewrites
    · exact Choices.sameIn_of_rewrites ofKind typed kinded passes rewrites
    · exact Conversions.sameIn_of_rewrites ofKind alike held informed.reliable rewrites
    · exact Bindings.sameIn_of_rewrites ofKind typed rewrites
    · cases ofKind

end IndexAlgebra.Reduction
