/-
This file proves that flattening does not depend on how much fuel it has, once it has enough. Whatever
has a result with some fuel has the same one with more: the parts of a step each have, and fuel is
spent by nothing else.
-/
import IndexAlgebra.Analyzer.Flattening

namespace IndexAlgebra

/-- The second has the result that the first one has. -/
def Refines {α : Type} (first second : Option α) : Prop :=
  ∀ result, first = some result → second = some result

namespace Refines

variable {α β : Type} {first second : Option α}

theorem refl (first : Option α) : Refines first first := fun _ equal => equal

theorem bind {next next' : α → Option β} (refines : Refines first second)
    (rest : ∀ result, Refines (next result) (next' result)) :
    Refines (first.bind next) (second.bind next') := by
  intro result equal
  obtain ⟨between, isBetween, equal⟩ := Option.bind_eq_some_iff.mp equal
  exact Option.bind_eq_some_iff.mpr ⟨between, refines between isBetween, rest between result equal⟩

theorem map (change : α → β) (refines : Refines first second) :
    Refines (first.map change) (second.map change) := by
  intro result equal
  obtain ⟨value, isValue, rfl⟩ := Option.map_eq_some_iff.mp equal
  rw [refines value isValue, Option.map_some]

theorem mapM {f g : α → Option β} (each : ∀ input, Refines (f input) (g input)) (inputs : List α) :
    Refines (inputs.mapM f) (inputs.mapM g) := by
  induction inputs with
  | nil =>
    rw [List.mapM_nil, List.mapM_nil]
    exact refl _
  | cons input rest inductionHypothesis =>
    rw [List.mapM_cons, List.mapM_cons]
    exact (each input).bind fun _ => inductionHypothesis.bind fun _ => refl _

end Refines

namespace Flattening

variable {setting : Setting} {fuel more : Nat}

/-- With more fuel, everything has the result that it has with less. -/
structure Grows (setting : Setting) (fuel more : Nat) : Prop where
  flatten : ∀ expr, Refines (flatten? setting fuel expr) (flatten? setting more expr)
  flattenChildren : ∀ expr,
    Refines (flattenChildren? setting fuel expr) (flattenChildren? setting more expr)
  sumOf : ∀ expr, Refines (sumOf? setting fuel expr) (sumOf? setting more expr)
  binarySum : ∀ op lhs rhs,
    Refines (binarySum? setting fuel op lhs rhs) (binarySum? setting more op lhs rhs)
  recombine : ∀ sum, Refines (recombine? setting fuel sum) (recombine? setting more sum)

theorem grows_zero : Grows setting 0 more where
  flatten _ _ flattened := by cases flattened
  flattenChildren _ _ flattened := by cases flattened
  sumOf _ _ isSum := by cases isSum
  binarySum _ _ _ _ isSum := by cases isSum
  recombine _ _ recombined := by cases recombined

theorem Grows.flattenChildren_succ (grows : Grows setting fuel more) (expr : Expr) :
    Refines (flattenChildren? setting (fuel + 1) expr) (flattenChildren? setting (more + 1) expr) := by
  unfold flattenChildren?
  exact (Refines.mapM grows.flatten expr.children).map _

theorem Grows.leaf (grows : Grows setting fuel more) (expr : Expr) :
    Refines ((flattenChildren? setting fuel expr).map .ofLeaf)
      ((flattenChildren? setting more expr).map SumForm.ofLeaf) :=
  (grows.flattenChildren expr).map _

theorem Grows.flatten_succ (grows : Grows setting fuel more) (expr : Expr) :
    Refines (flatten? setting (fuel + 1) expr) (flatten? setting (more + 1) expr) := by
  unfold flatten?
  split
  next dtype op lhs rhs =>
    split
    next =>
      refine (grows.sumOf lhs).bind fun left => (grows.sumOf rhs).bind fun right => ?_
      split
      next => exact .refl _
      next => exact grows.flattenChildren _
    next =>
      split
      next =>
        refine (grows.sumOf _).bind fun sum => ?_
        split
        next => exact .refl _
        next => exact grows.flattenChildren _
      next => exact grows.flattenChildren _
  next => exact grows.flattenChildren expr

theorem Grows.sumOf_succ (grows : Grows setting fuel more) (expr : Expr) :
    Refines (sumOf? setting (fuel + 1) expr) (sumOf? setting (more + 1) expr) := by
  unfold sumOf?
  split
  next => exact .refl _
  next dtype op lhs rhs =>
    split
    next =>
      refine (grows.binarySum op lhs rhs).bind fun sum? => ?_
      split
      next sum =>
        refine (grows.recombine sum).bind fun recombined => ?_
        split
        next => exact .refl _
        next => exact grows.leaf _
      next => exact grows.leaf _
    next => exact grows.leaf _
  next => exact grows.leaf expr

theorem Grows.binarySum_succ (grows : Grows setting fuel more) (op : BinaryOp) (lhs rhs : Expr) :
    Refines (binarySum? setting (fuel + 1) op lhs rhs) (binarySum? setting (more + 1) op lhs rhs) := by
  unfold binarySum?
  split
  next => exact (grows.sumOf lhs).bind fun left => (grows.sumOf rhs).bind fun right => .refl _
  next => exact (grows.sumOf lhs).bind fun left => (grows.sumOf rhs).bind fun right => .refl _
  next => exact (grows.sumOf lhs).bind fun left => (grows.sumOf rhs).bind fun right => .refl _
  next =>
    split
    next =>
      split
      next => exact .refl _
      next => exact (grows.sumOf lhs).bind fun left => .refl _
    next => exact .refl _

theorem Grows.recombine_succ (grows : Grows setting fuel more) (sum : SumForm) :
    Refines (recombine? setting (fuel + 1) sum) (recombine? setting (more + 1) sum) := by
  unfold recombine?
  split
  next => exact .refl _
  next pair _ =>
    refine (grows.sumOf pair.dividend).bind fun dividend => ?_
    split
    next sum _ => exact grows.recombine sum
    next => exact .refl _

theorem grows_of_le (enough : fuel ≤ more) : Grows setting fuel more := by
  induction fuel generalizing more with
  | zero => exact grows_zero
  | succ fuel inductionHypothesis =>
    cases more with
    | zero => exact absurd enough (Nat.not_succ_le_zero fuel)
    | succ more =>
      have grows := inductionHypothesis (Nat.le_of_succ_le_succ enough)
      exact ⟨grows.flatten_succ, grows.flattenChildren_succ, grows.sumOf_succ, grows.binarySum_succ,
        grows.recombine_succ⟩

/-- An expression has at most one sum form. -/
theorem sumOf?_unique {expr : Expr} {first second : SumForm}
    (isFirst : sumOf? setting fuel expr = some first)
    (isSecond : sumOf? setting more expr = some second) : first = second := by
  rcases Nat.le_total fuel more with less | less
  · exact Option.some.inj (((grows_of_le less).sumOf expr first isFirst).symm.trans isSecond)
  · exact Option.some.inj (isFirst.symm.trans ((grows_of_le less).sumOf expr second isSecond))

end Flattening

end IndexAlgebra
