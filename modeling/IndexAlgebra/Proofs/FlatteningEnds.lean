/-
This file proves that flattening ends. Putting a quotient and its remainder together puts the sum form
of their dividend in their place, which may hold other quotients, but none that nests divisions as
deeply. Every dividend is given a weight greater than that of its own sum form, one level of nesting
after the other, so that a sum loses weight each time two of its terms are put together.
-/
import IndexAlgebra.Proofs.DivisionDepth
import IndexAlgebra.Proofs.Typing

namespace IndexAlgebra

/-! ### Weights of sums -/

/-- The weight of a quotient or a remainder alone is that of its dividend. No other product is ever put
together with another one, and it weighs nothing. -/
def Product.weight (weights : Expr → Nat) : Product → Nat
  | [.split dividend _ _] => weights dividend
  | _ => 0

namespace SumForm

/-- The weights of all products together. -/
def totalWeight (weights : Expr → Nat) : List (Product × Int) → Nat
  | [] => 0
  | term :: rest => term.1.weight weights + totalWeight weights rest

def weight (weights : Expr → Nat) (sum : SumForm) : Nat := totalWeight weights sum.terms

variable (weights : Expr → Nat) {weights' : Expr → Nat} {sum left right result : SumForm} {factor : Int}

theorem totalWeight_insertTerm? {product : Product} {coefficient : Int}
    {terms result : List (Product × Int)} (inserted : insertTerm? product coefficient terms = some result) :
    totalWeight weights result ≤ totalWeight weights terms + product.weight weights := by
  induction terms generalizing result with
  | nil =>
    cases inserted
    simp only [totalWeight]
    omega
  | cons head rest inductionHypothesis =>
    obtain ⟨first, value⟩ := head
    rw [insertTerm?] at inserted
    split at inserted
    next =>
      cases inserted
      simp only [totalWeight]
      omega
    next =>
      obtain ⟨total, -, rfl⟩ := Option.map_eq_some_iff.mp inserted
      split <;> simp only [totalWeight] <;> omega
    next =>
      obtain ⟨tail, isTail, rfl⟩ := Option.map_eq_some_iff.mp inserted
      have isLess := inductionHypothesis isTail
      simp only [totalWeight]
      omega

theorem weight_addTerm? {product : Product} {coefficient : Int}
    (added : sum.addTerm? product coefficient = some result) :
    result.weight weights ≤ sum.weight weights + product.weight weights := by
  unfold addTerm? at added
  split at added
  next =>
    cases added
    omega
  next =>
    obtain ⟨terms, inserted, rfl⟩ := Option.map_eq_some_iff.mp added
    exact totalWeight_insertTerm? weights inserted

/-- A sum of two sums weighs no more than both. -/
theorem weight_add? (added : left.add? right = some result) :
    result.weight weights ≤ left.weight weights + right.weight weights := by
  obtain ⟨sum, isSum, added⟩ := Option.bind_eq_some_iff.mp added
  obtain ⟨constant, -, equal⟩ := Option.bind_eq_some_iff.mp added
  cases equal
  have folded : ∀ (terms : List (Product × Int)) (start sum : SumForm),
      terms.foldlM (fun sum (term : Product × Int) => sum.addTerm? term.1 term.2) start = some sum →
        sum.weight weights ≤ start.weight weights + totalWeight weights terms := by
    intro terms
    induction terms with
    | nil =>
      intro start sum isSum
      cases isSum
      exact Nat.le_add_right _ _
    | cons term rest inductionHypothesis =>
      intro start sum isSum
      rw [List.foldlM_cons] at isSum
      obtain ⟨next, isNext, isSum⟩ := Option.bind_eq_some_iff.mp isSum
      have first := weight_addTerm? weights isNext
      have others := inductionHypothesis next sum isSum
      rw [totalWeight]
      omega
  exact folded right.terms left sum isSum

theorem weight_scale? (scaled : sum.scale? factor = some result) :
    result.weight weights ≤ sum.weight weights := by
  unfold weight
  rcases exists_map_of_scale? scaled with none | ⟨change, mapped⟩
  · rw [none]
    exact Nat.zero_le _
  · rw [mapped]
    induction sum.terms with
    | nil => exact Nat.le_refl _
    | cons term rest inductionHypothesis =>
      rw [List.map_cons, totalWeight, totalWeight]
      exact Nat.add_le_add_left inductionHypothesis _

theorem totalWeight_filter (keep : Product × Int → Bool) (terms : List (Product × Int)) :
    totalWeight weights (terms.filter keep) ≤ totalWeight weights terms := by
  induction terms with
  | nil => exact Nat.le_refl _
  | cons term rest inductionHypothesis =>
    rw [List.filter_cons]
    split <;> simp only [totalWeight] <;> omega

/-- What is left out makes terms lighter by its own weight at least. -/
theorem totalWeight_filter_add {keep : Product × Int → Bool} {terms : List (Product × Int)}
    {term : Product × Int} (member : term ∈ terms) (leftOut : keep term = false) :
    totalWeight weights (terms.filter keep) + term.1.weight weights ≤ totalWeight weights terms := by
  induction terms with
  | nil => cases member
  | cons head rest inductionHypothesis =>
    rw [List.filter_cons]
    rcases List.mem_cons.mp member with rfl | inRest
    · have isLess := totalWeight_filter weights keep rest
      rw [if_neg (by simp [leftOut]), totalWeight]
      omega
    · have isLess := inductionHypothesis inRest
      split <;> simp only [totalWeight] <;> omega

/-- Without its pair a sum is lighter by the weight of the dividend at least. -/
theorem weight_withoutPair {pair : Pair} (found : sum.findPair? = some pair) :
    (sum.withoutPair pair).weight weights + weights pair.dividend ≤ sum.weight weights := by
  obtain ⟨divisor, kind, -, -, isQuotient, -, inTerms, -⟩ := exists_of_findPair? found
  have isWeight : pair.quotient.weight weights = weights pair.dividend := by
    rw [isQuotient]
    rfl
  rw [← isWeight]
  refine totalWeight_filter_add weights inTerms ?_
  simp

/-- The weight of a sum depends on the weights of less deep dividends alone. -/
theorem weight_congr {weights} {depth : Nat} (isSum : sum.NestsUpTo depth)
    (same : ∀ expr : Expr, expr.divisionDepth < depth → weights expr = weights' expr) :
    sum.weight weights = sum.weight weights' := by
  have each : ∀ term ∈ sum.terms, term.1.weight weights = term.1.weight weights' := by
    intro term isTerm
    unfold Product.weight
    split
    next dividend divisor kind isProduct =>
      exact same dividend (isSum term isTerm (.split dividend divisor kind) (by simp [isProduct]))
    next => rfl
  unfold weight
  generalize sum.terms = terms at each
  induction terms with
  | nil => rfl
  | cons term rest inductionHypothesis =>
    obtain ⟨first, others⟩ := List.forall_mem_cons.mp each
    rw [totalWeight, totalWeight, first, inductionHypothesis others]

end SumForm

namespace Flattening

/-! ### Sums that are put together -/

variable {setting : Setting} {depth : Nat} {weights : Expr → Nat} {expr : Expr}

/-- Expressions that are less deep have a sum form, which weighs less than they do. -/
def WeighsMore (setting : Setting) (depth : Nat) (weights : Expr → Nat) : Prop :=
  ∀ expr : Expr, expr.divisionDepth < depth → ∃ fuel sum,
    sumOf? setting fuel expr = some sum ∧ sum.weight weights < weights expr

/-- The expression has a sum form. -/
def HasSum (setting : Setting) (expr : Expr) : Prop := ∃ fuel sum, sumOf? setting fuel expr = some sum

/-- The expression is flattened to another one. -/
def IsFlattened (setting : Setting) (expr : Expr) : Prop :=
  ∃ fuel result, flatten? setting fuel expr = some result

/-- Putting quotients and remainders together ends. -/
def Recombines (setting : Setting) (sum : SumForm) : Prop :=
  ∃ fuel result?, recombine? setting fuel sum = some result?

/-- Each pair that is put together makes a sum lighter, so that it ends. -/
theorem recombines_of_weighsMore (keeps : setting.divide.KeepsProducts)
    (weighsMore : WeighsMore setting depth weights) {sum : SumForm} (isSum : sum.NestsUpTo depth) :
    Recombines setting sum := by
  induction isWeight : sum.weight weights using Nat.strongRecOn generalizing sum with
  | ind weight inductionHypothesis =>
    cases found : sum.findPair? with
    | none =>
      refine ⟨1, some sum, ?_⟩
      rw [recombine?, found]
      rfl
    | some pair =>
      have less := divisionDepth_lt_of_findPair? isSum found
      obtain ⟨fuel, dividend, isDividend, lighter⟩ := weighsMore pair.dividend less
      cases together : (dividend.scale? pair.coefficient).bind (sum.withoutPair pair).add? with
      | none =>
        refine ⟨fuel + 1, none, ?_⟩
        rw [recombine?, found]
        simp only [isDividend, Option.bind_eq_bind, Option.bind_some, together]
        rfl
      | some next =>
        obtain ⟨multiple, scaled, added⟩ := Option.bind_eq_some_iff.mp together
        have shallow : dividend.NestsUpTo depth :=
          ((shallow_of_keepsProducts keeps fuel).sumOf _ dividend isDividend).mono (Nat.le_of_lt less)
        have isRest : (sum.withoutPair pair).NestsUpTo depth := isSum.filter _ _ _
        have isNext : next.NestsUpTo depth := isRest.add (shallow.scale scaled) added
        have nextWeight : next.weight weights < weight := by
          have ofSum := SumForm.weight_add? weights added
          have ofMultiple := SumForm.weight_scale? weights scaled
          have ofRest := SumForm.weight_withoutPair weights found
          omega
        obtain ⟨more, result?, recombined⟩ := inductionHypothesis _ nextWeight isNext rfl
        refine ⟨max fuel more + 1, result?, ?_⟩
        have isSumForm := (grows_of_le (Nat.le_max_left fuel more)).sumOf _ dividend isDividend
        rw [recombine?, found]
        simp only [isSumForm, Option.bind_eq_bind, Option.bind_some, together]
        exact (grows_of_le (Nat.le_max_right fuel more)).recombine next result? recombined

/-! ### Expressions that are flattened -/

theorem exists_mapM_flatten? {exprs : List Expr} (flattened : ∀ expr ∈ exprs, IsFlattened setting expr) :
    ∃ fuel results, exprs.mapM (flatten? setting fuel) = some results := by
  induction exprs with
  | nil => exact ⟨0, [], rfl⟩
  | cons expr rest inductionHypothesis =>
    obtain ⟨first, others⟩ := List.forall_mem_cons.mp flattened
    obtain ⟨fuel, result, isResult⟩ := first
    obtain ⟨more, results, areResults⟩ := inductionHypothesis others
    refine ⟨max fuel more, result :: results, ?_⟩
    have isFirst := (grows_of_le (Nat.le_max_left fuel more)).flatten expr result isResult
    have areOthers := Refines.mapM (grows_of_le (Nat.le_max_right fuel more)).flatten rest results
      areResults
    rw [List.mapM_cons, isFirst, areOthers]
    rfl

theorem exists_flattenChildren? (children : ∀ child ∈ expr.children, IsFlattened setting child) :
    ∃ fuel result, flattenChildren? setting fuel expr = some result := by
  obtain ⟨fuel, results, areResults⟩ := exists_mapM_flatten? children
  refine ⟨fuel + 1, expr.withChildren results, ?_⟩
  rw [flattenChildren?, areResults]
  rfl

/-- The sum form of a binary node needs those of its operands. -/
theorem exists_binarySum? (op : BinaryOp) {lhs rhs : Expr} (left : HasSum setting lhs)
    (right : HasSum setting rhs) : ∃ fuel sum?, binarySum? setting fuel op lhs rhs = some sum? := by
  obtain ⟨fuel, leftSum, isLeft⟩ := left
  obtain ⟨more, rightSum, isRight⟩ := right
  have first := (grows_of_le (Nat.le_max_left fuel more)).sumOf lhs leftSum isLeft
  have second := (grows_of_le (Nat.le_max_right fuel more)).sumOf rhs rightSum isRight
  refine ⟨max fuel more + 1, ?_⟩
  unfold binarySum?
  simp only [first, second, Option.bind_eq_bind, Option.bind_some]
  split
  next => exact ⟨_, rfl⟩
  next => exact ⟨_, rfl⟩
  next => exact ⟨_, rfl⟩
  next =>
    split
    next =>
      split
      next => exact ⟨_, rfl⟩
      next => exact ⟨_, rfl⟩
    next => exact ⟨_, rfl⟩

/-- An expression has a sum form if its operands are flattened and have one, and if the sum of its
operands can be put together. -/
theorem hasSum_of_children (children : ∀ child ∈ expr.children, IsFlattened setting child)
    (sums : ∀ child ∈ expr.children, HasSum setting child)
    (recombines : ∀ fuel type op lhs rhs sum, expr = .binary type op lhs rhs →
      binarySum? setting fuel op lhs rhs = some (some sum) → Recombines setting sum) :
    HasSum setting expr := by
  obtain ⟨fuel, leaf, isLeaf⟩ := exists_flattenChildren? children
  have leafEnds : ∀ more, fuel ≤ more →
      (flattenChildren? setting more expr).map SumForm.ofLeaf = some (.ofLeaf leaf) := by
    intro more enough
    rw [(grows_of_le enough).flattenChildren expr leaf isLeaf]
    rfl
  cases expr with
  | binary type op lhs rhs =>
    by_cases isIndex : (type.isInteger && type.isScalar) = true
    · obtain ⟨binaryFuel, sum?, isSum⟩ := exists_binarySum? op (sums lhs List.mem_cons_self)
        (sums rhs (List.mem_cons_of_mem _ List.mem_cons_self))
      cases sum? with
      | none =>
        refine ⟨max fuel binaryFuel + 1, .ofLeaf leaf, ?_⟩
        have noSum := (grows_of_le (Nat.le_max_right fuel binaryFuel)).binarySum op lhs rhs none isSum
        simp only [sumOf?, isIndex, if_true, noSum, Option.bind_eq_bind, Option.bind_some]
        exact leafEnds _ (Nat.le_max_left _ _)
      | some sum =>
        obtain ⟨more, result?, recombined⟩ := recombines binaryFuel type op lhs rhs sum rfl isSum
        have isSum' : binarySum? setting (max fuel (max binaryFuel more)) op lhs rhs = some (some sum) :=
          (grows_of_le (by omega)).binarySum op lhs rhs _ isSum
        have recombined' : recombine? setting (max fuel (max binaryFuel more)) sum = some result? :=
          (grows_of_le (by omega)).recombine sum _ recombined
        refine ⟨max fuel (max binaryFuel more) + 1, ?_⟩
        simp only [sumOf?, isIndex, if_true, isSum', recombined', Option.bind_eq_bind, Option.bind_some]
        cases result? with
        | none => exact ⟨_, leafEnds _ (Nat.le_max_left _ _)⟩
        | some result => exact ⟨_, rfl⟩
    · refine ⟨fuel + 1, .ofLeaf leaf, ?_⟩
      rw [sumOf?, if_neg isIndex]
      exact leafEnds fuel (Nat.le_refl _)
  | intConst type value =>
    refine ⟨1, ?_⟩
    by_cases isIndex : (type.isInteger && type.isScalar) = true
    · exact ⟨_, by rw [sumOf?, if_pos isIndex]⟩
    · exact ⟨_, by rw [sumOf?, if_neg isIndex]⟩
  | _ => exact ⟨fuel + 1, .ofLeaf leaf, leafEnds fuel (Nat.le_refl _)⟩

/-- An expression is flattened if its operands are, and it and they have sum forms. -/
theorem isFlattened_of_children (children : ∀ child ∈ expr.children, IsFlattened setting child)
    (sums : ∀ child ∈ expr.children, HasSum setting child) (isSum : HasSum setting expr) :
    IsFlattened setting expr := by
  obtain ⟨fuel, leaf, isLeaf⟩ := exists_flattenChildren? children
  have leafEnds : ∀ more, fuel ≤ more → flattenChildren? setting more expr = some leaf :=
    fun more enough => (grows_of_le enough).flattenChildren expr leaf isLeaf
  cases expr with
  | binary type op lhs rhs =>
    by_cases compares : isScalarComparison op lhs = true
    · obtain ⟨leftFuel, left, isLeft⟩ := sums lhs List.mem_cons_self
      obtain ⟨rightFuel, right, isRight⟩ := sums rhs (List.mem_cons_of_mem _ List.mem_cons_self)
      have first : sumOf? setting (max fuel (max leftFuel rightFuel)) lhs = some left :=
        (grows_of_le (by omega)).sumOf lhs left isLeft
      have second : sumOf? setting (max fuel (max leftFuel rightFuel)) rhs = some right :=
        (grows_of_le (by omega)).sumOf rhs right isRight
      refine ⟨max fuel (max leftFuel rightFuel) + 1, ?_⟩
      simp only [flatten?, compares, if_true, first, second, Option.bind_eq_bind, Option.bind_some]
      split
      next => exact ⟨_, rfl⟩
      next => exact ⟨leaf, leafEnds _ (Nat.le_max_left _ _)⟩
    by_cases isScalarSum : isScalarSum type op = true
    · obtain ⟨sumFuel, sum, isSum⟩ := isSum
      have ofSum := (grows_of_le (Nat.le_max_right fuel sumFuel)).sumOf _ sum isSum
      refine ⟨max fuel sumFuel + 1, ?_⟩
      rw [flatten?, if_neg compares, if_pos isScalarSum]
      simp only [ofSum, Option.bind_eq_bind, Option.bind_some]
      split
      next => exact ⟨_, rfl⟩
      next => exact ⟨leaf, leafEnds _ (Nat.le_max_left _ _)⟩
    · refine ⟨fuel + 1, leaf, ?_⟩
      rw [flatten?, if_neg compares, if_neg isScalarSum]
      exact leafEnds fuel (Nat.le_refl _)
  | _ => exact ⟨fuel + 1, leaf, leafEnds fuel (Nat.le_refl _)⟩

/-! ### One level of nesting after the other -/

/-- What nests divisions no deeper than the depth has a sum form and is flattened. -/
theorem ends_of_weighsMore (keeps : setting.divide.KeepsProducts)
    (weighsMore : WeighsMore setting depth weights) (notDeeper : expr.divisionDepth ≤ depth) :
    HasSum setting expr ∧ IsFlattened setting expr := by
  induction expr using Expr.childrenInduction with
  | step expr inductionHypothesis =>
    have children : ∀ child ∈ expr.children, HasSum setting child ∧ IsFlattened setting child :=
      fun child isChild => inductionHypothesis child isChild
        (Nat.le_trans (Expr.divisionDepth_child isChild) notDeeper)
    have isSum : HasSum setting expr := by
      refine hasSum_of_children (fun child isChild => (children child isChild).2)
        (fun child isChild => (children child isChild).1) fun fuel type op lhs rhs sum same isSum => ?_
      have shallow := (shallow_of_keepsProducts keeps fuel).binarySum op lhs rhs sum isSum
      rw [same, Expr.divisionDepth] at notDeeper
      exact recombines_of_weighsMore keeps weighsMore (shallow.mono notDeeper)
    exact ⟨isSum, isFlattened_of_children (fun child isChild => (children child isChild).2)
      (fun child isChild => (children child isChild).1) isSum⟩

/-- Weights for one more level: an expression of the last level weighs one more than its sum form, and
those that are less deep weigh what they did. -/
theorem exists_weighsMore (keeps : setting.divide.KeepsProducts) (depth : Nat) :
    ∃ weights, WeighsMore setting depth weights := by
  induction depth with
  | zero => exact ⟨fun _ => 0, fun _ less => absurd less (Nat.not_lt_zero _)⟩
  | succ depth inductionHypothesis =>
    obtain ⟨weights, weighsMore⟩ := inductionHypothesis
    have heavier : ∀ expr : Expr, ∃ weight, (expr.divisionDepth < depth → weights expr = weight) ∧
        (expr.divisionDepth ≤ depth → ∃ fuel sum,
          sumOf? setting fuel expr = some sum ∧ sum.weight weights < weight) := by
      intro expr
      by_cases less : expr.divisionDepth < depth
      · exact ⟨weights expr, fun _ => rfl, fun _ => weighsMore expr less⟩
      by_cases last : expr.divisionDepth ≤ depth
      · obtain ⟨fuel, sum, isSum⟩ := (ends_of_weighsMore keeps weighsMore last).1
        exact ⟨sum.weight weights + 1, fun isLess => absurd isLess less,
          fun _ => ⟨fuel, sum, isSum, Nat.lt_succ_self _⟩⟩
      · exact ⟨0, fun isLess => absurd isLess less, fun isLast => absurd isLast last⟩
    obtain ⟨weights', isHeavier⟩ := Classical.axiomOfChoice heavier
    refine ⟨weights', fun expr less => ?_⟩
    obtain ⟨fuel, sum, isSum, lighter⟩ := (isHeavier expr).2 (Nat.le_of_lt_succ less)
    have shallow : sum.NestsUpTo depth :=
      ((shallow_of_keepsProducts keeps fuel).sumOf expr sum isSum).mono (Nat.le_of_lt_succ less)
    have same := SumForm.weight_congr shallow fun other isLess => (isHeavier other).1 isLess
    exact ⟨fuel, sum, isSum, same ▸ lighter⟩

theorem hasSum (keeps : setting.divide.KeepsProducts) (expr : Expr) : HasSum setting expr := by
  obtain ⟨weights, weighsMore⟩ := exists_weighsMore keeps expr.divisionDepth
  exact (ends_of_weighsMore keeps weighsMore (Nat.le_refl _)).1

theorem isFlattened (keeps : setting.divide.KeepsProducts) (expr : Expr) :
    IsFlattened setting expr := by
  obtain ⟨weights, weighsMore⟩ := exists_weighsMore keeps expr.divisionDepth
  exact (ends_of_weighsMore keeps weighsMore (Nat.le_refl _)).2

/-- Fuel that runs out is less than any that is enough. -/
theorem lt_of_outOfFuel {enough fuel : Nat} {result : Expr}
    (isResult : flatten? setting enough expr = some result)
    (outOfFuel : ¬ (flatten? setting fuel expr).isSome) : fuel < enough := by
  refine Nat.lt_of_not_le fun atLeast => outOfFuel ?_
  rw [(grows_of_le atLeast).flatten expr result isResult, Option.isSome_some]

/-- Whatever the sum, putting its quotients and remainders together ends. -/
theorem recombines (keeps : setting.divide.KeepsProducts) (sum : SumForm) :
    Recombines setting sum := by
  have isSum : sum.NestsUpTo (((sum.terms.flatMap (·.1)).map Atom.divisionDepth).max?.getD 0) :=
    fun term isTerm atom isAtom => List.le_max?_getD_of_mem
      (List.mem_map_of_mem (List.mem_flatMap_of_mem isTerm isAtom))
  obtain ⟨weights, weighsMore⟩ := exists_weighsMore keeps _
  exact recombines_of_weighsMore keeps weighsMore isSum

end Flattening

end IndexAlgebra
