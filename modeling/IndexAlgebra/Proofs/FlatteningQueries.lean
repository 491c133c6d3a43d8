/-
This file says what flattening asks: for the quotients of sums by constants, and for the bounds of
expressions. Settings that give the same answers to what is asked flatten alike, by induction on the fuel,
whatever they answer to anything else.
-/
import IndexAlgebra.Analyzer.Flattening

namespace IndexAlgebra

namespace Flattening

/-- A sum is divided by an integer, or an expression is bounded. -/
inductive Query where
  | quotient (sum : SumForm) (divisor : Int)
  | bound (expr : Expr)
  deriving DecidableEq

/-- The settings give the same answer. -/
def Setting.SameAt (other setting : Setting) : Query → Prop
  | .quotient sum divisor => other.divide sum divisor = setting.divide sum divisor
  | .bound expr => other.bound expr = setting.bound expr

/-! ### Queries of sums -/

/-- What is asked to see that a sum is not negative. -/
def signQueries (sum : SumForm) : List Query := sum.expr?.toList.map .bound

/-- What is asked when the multiples of a divisor are taken out of a sum. -/
def peelQueries (kind : Split) (divisor : Int) (sum : SumForm) : List Query :=
  if kind.isFloored then []
  else
    let (multiples, rest) := sum.peelTruncated divisor
    if 0 ≤ divisor then signQueries multiples ++ signQueries rest else []

/-- What is asked when what is left of a sum is divided. -/
def restQueries (divisor : Int) (rest : SumForm) : List Query :=
  if rest.asConst?.isSome then [.quotient rest divisor] else []

/-- What is asked for the quotient or the remainder of a sum by a constant. -/
def splitQueries (setting : Setting) (kind : Split) (divisor : Int) (sum : SumForm) : List Query :=
  .quotient sum divisor ::
    if (setting.divide sum divisor).isSome || sum.asConst?.isSome then []
    else peelQueries kind divisor sum ++
      match sum.peel? setting.bound kind divisor with
      | some (multiples, rest) =>
        restQueries divisor rest ++ if kind.isQuotient then [.quotient multiples divisor] else []
      | none => []

/-- What is asked when a difference is compared with zero: the sum is divided by its content. -/
def comparisonQueries (op : BinaryOp) (difference : SumForm) : List Query :=
  match SumForm.normalizeComparison? op difference with
  | some (_, sum) =>
    if sum.asConst?.isSome || decide (sum.content ≤ 1) then []
    else [.quotient { sum with constant := 0 } sum.content]
  | none => []

/-! ### Queries of expressions -/

mutual

/-- What is asked when an expression is flattened. -/
def flattenQueries (setting : Setting) : Nat → Expr → List Query
  | 0, _ => []
  | fuel + 1, expr =>
    match expr with
    | .binary dtype op lhs rhs =>
      if isScalarComparison op lhs then
        sumQueries setting fuel lhs ++ sumQueries setting fuel rhs ++
          match sumOf? setting fuel lhs, sumOf? setting fuel rhs with
          | some left, some right =>
            ((left.sub? right).elim [] (comparisonQueries op)) ++
              match (left.sub? right).bind (SumForm.comparison? setting.divide op) with
              | some _ => []
              | none => childrenQueries setting fuel expr
          | _, _ => []
      else if isScalarSum dtype op then
        sumQueries setting fuel expr ++
          match (sumOf? setting fuel expr).bind SumForm.expr? with
          | some _ => []
          | none => childrenQueries setting fuel expr
      else childrenQueries setting fuel expr
    | _ => childrenQueries setting fuel expr

/-- What is asked when the operands of a node are flattened. -/
def childrenQueries (setting : Setting) : Nat → Expr → List Query
  | 0, _ => []
  | fuel + 1, expr => expr.children.flatMap (flattenQueries setting fuel)

/-- What is asked for the sum form of an expression. -/
def sumQueries (setting : Setting) : Nat → Expr → List Query
  | 0, _ => []
  | fuel + 1, expr =>
    match expr with
    | .intConst .. => []
    | .binary dtype op lhs rhs =>
      if dtype.isInteger && dtype.isScalar then
        binarySumQueries setting fuel op lhs rhs ++
          match binarySum? setting fuel op lhs rhs with
          | some (some sum) =>
            recombineQueries setting fuel sum ++
              match recombine? setting fuel sum with
              | some none => childrenQueries setting fuel expr
              | _ => []
          | some none => childrenQueries setting fuel expr
          | none => []
      else childrenQueries setting fuel expr
    | _ => childrenQueries setting fuel expr

/-- What is asked for the sum form of a binary node. -/
def binarySumQueries (setting : Setting) : Nat → BinaryOp → Expr → Expr → List Query
  | 0, _, _, _ => []
  | fuel + 1, op, lhs, rhs =>
    match op with
    | .add | .sub | .mul => sumQueries setting fuel lhs ++ sumQueries setting fuel rhs
    | _ =>
      match Split.ofOp? op, rhs.asInt? with
      | some kind, some divisor =>
        if divisor = 0 then []
        else sumQueries setting fuel lhs ++
          (sumOf? setting fuel lhs).elim [] (splitQueries setting kind divisor)
      | _, _ => []

/-- What is asked when the quotients and remainders in a sum are put together. -/
def recombineQueries (setting : Setting) : Nat → SumForm → List Query
  | 0, _ => []
  | fuel + 1, sum =>
    match sum.findPair? with
    | none => []
    | some pair =>
      sumQueries setting fuel pair.dividend ++
        match sumOf? setting fuel pair.dividend with
        | some dividend =>
          match (dividend.scale? pair.coefficient).bind (sum.withoutPair pair).add? with
          | some sum => recombineQueries setting fuel sum
          | none => []
        | none => []

end

/-! ### Settings that agree on what is asked -/

section

variable {setting other : Setting} {kind : Split} {divisor : Int} {sum : SumForm} {op : BinaryOp}

theorem isNonNegative_congr (same : ∀ query ∈ signQueries sum, other.SameAt setting query) :
    sum.isNonNegative other.bound = sum.isNonNegative setting.bound := by
  unfold signQueries at same
  unfold SumForm.isNonNegative
  cases built : sum.expr? with
  | none => rfl
  | some expr =>
    have isSame : other.bound expr = setting.bound expr := same (.bound expr) (by simp [built])
    dsimp only
    rw [isSame]

theorem peel?_congr (same : ∀ query ∈ peelQueries kind divisor sum, other.SameAt setting query) :
    sum.peel? other.bound kind divisor = sum.peel? setting.bound kind divisor := by
  unfold peelQueries at same
  unfold SumForm.peel?
  split
  next => rfl
  next notFloored =>
    rw [if_neg notFloored] at same
    dsimp only at same ⊢
    by_cases nonneg : 0 ≤ divisor
    · rw [if_pos nonneg] at same
      rw [isNonNegative_congr fun query member => same query (List.mem_append_left _ member),
        isNonNegative_congr fun query member => same query (List.mem_append_right _ member)]
    · simp [nonneg]

theorem splitRest?_congr (same : ∀ query ∈ restQueries divisor sum, other.SameAt setting query) :
    sum.splitRest? other.divide kind divisor = sum.splitRest? setting.divide kind divisor := by
  unfold restQueries at same
  unfold SumForm.splitRest?
  split
  next isConst =>
    have isSame : other.divide sum divisor = setting.divide sum divisor :=
      same (.quotient sum divisor) (by simp [isConst])
    rw [SumForm.splitExact?, SumForm.splitExact?, isSame]
  next => rfl

theorem split?_congr
    (same : ∀ query ∈ splitQueries setting kind divisor sum, other.SameAt setting query) :
    sum.split? other.divide other.bound kind divisor =
      sum.split? setting.divide setting.bound kind divisor := by
  unfold splitQueries at same
  rw [List.forall_mem_cons] at same
  obtain ⟨isSame, same⟩ := same
  have isExact : sum.splitExact? other.divide kind divisor =
      sum.splitExact? setting.divide kind divisor := by
    have equal : other.divide sum divisor = setting.divide sum divisor := isSame
    rw [SumForm.splitExact?, SumForm.splitExact?, equal]
  unfold SumForm.split?
  rw [isExact]
  split
  next => rfl
  next => rfl
  next notExact notConst =>
    have undivided : setting.divide sum divisor = none := by
      simpa [SumForm.splitExact?] using notExact
    simp only [undivided, notConst, Option.isSome_none, Bool.or_self, Bool.false_eq_true, if_false] at same
    rw [List.forall_mem_append] at same
    obtain ⟨peels, rest⟩ := same
    rw [peel?_congr peels]
    split
    next multiples left peeled =>
      simp only [peeled, List.forall_mem_append] at rest
      rw [splitRest?_congr rest.1]
      split
      next isQuotient =>
        rw [if_pos isQuotient] at rest
        have equal : other.divide multiples divisor = setting.divide multiples divisor :=
          rest.2 _ (List.mem_singleton_self _)
        rw [equal]
      next => rfl
    next => rfl

theorem comparison?_congr (same : ∀ query ∈ comparisonQueries op sum, other.SameAt setting query) :
    sum.comparison? other.divide op = sum.comparison? setting.divide op := by
  unfold comparisonQueries at same
  unfold SumForm.comparison?
  cases normalizes : SumForm.normalizeComparison? op sum with
  | none => rfl
  | some normal =>
    obtain ⟨op', difference⟩ := normal
    simp only [normalizes] at same
    simp only [Option.bind_eq_bind, Option.bind_some]
    split
    next => rfl
    next notConst =>
      have divides : difference.divideContent? other.divide op' =
          difference.divideContent? setting.divide op' := by
        unfold SumForm.divideContent?
        dsimp only
        split
        next => rfl
        next several =>
          simp only [notConst, several, Option.isSome_none, decide_false, Bool.or_self,
            Bool.false_eq_true, if_false] at same
          have equal : other.divide { difference with constant := 0 } difference.content =
            setting.divide { difference with constant := 0 } difference.content :=
              same _ (List.mem_singleton_self _)
          rw [equal]
      rw [divides]

end

/-- With this much fuel, settings that agree on what one of them asks give the same results. -/
structure Determined (setting other : Setting) (fuel : Nat) : Prop where
  flatten : ∀ expr, (∀ query ∈ flattenQueries setting fuel expr, other.SameAt setting query) →
    flatten? other fuel expr = flatten? setting fuel expr
  flattenChildren : ∀ expr, (∀ query ∈ childrenQueries setting fuel expr, other.SameAt setting query) →
    flattenChildren? other fuel expr = flattenChildren? setting fuel expr
  sumOf : ∀ expr, (∀ query ∈ sumQueries setting fuel expr, other.SameAt setting query) →
    sumOf? other fuel expr = sumOf? setting fuel expr
  binarySum : ∀ op lhs rhs,
    (∀ query ∈ binarySumQueries setting fuel op lhs rhs, other.SameAt setting query) →
      binarySum? other fuel op lhs rhs = binarySum? setting fuel op lhs rhs
  recombine : ∀ sum, (∀ query ∈ recombineQueries setting fuel sum, other.SameAt setting query) →
    recombine? other fuel sum = recombine? setting fuel sum

section

variable {setting other : Setting} {fuel : Nat} {expr lhs rhs : Expr} {op : BinaryOp} {sum : SumForm}

theorem mapM_congr {α β : Type} {f g : α → Option β} {items : List α}
    (same : ∀ item ∈ items, f item = g item) : items.mapM f = items.mapM g := by
  induction items with
  | nil => rfl
  | cons first others inductionHypothesis =>
    rw [List.forall_mem_cons] at same
    rw [List.mapM_cons, List.mapM_cons, same.1, inductionHypothesis same.2]

theorem determined_zero : Determined setting other 0 where
  flatten _ _ := rfl
  flattenChildren _ _ := rfl
  sumOf _ _ := rfl
  binarySum _ _ _ _ := rfl
  recombine _ _ := rfl

theorem Determined.flattenChildren_succ (determined : Determined setting other fuel)
    (same : ∀ query ∈ childrenQueries setting (fuel + 1) expr, other.SameAt setting query) :
    flattenChildren? other (fuel + 1) expr = flattenChildren? setting (fuel + 1) expr := by
  unfold childrenQueries at same
  unfold flattenChildren?
  have each : ∀ child ∈ expr.children, flatten? other fuel child = flatten? setting fuel child :=
    fun child isChild => determined.flatten child fun query member =>
      same query (List.mem_flatMap.mpr ⟨child, isChild, member⟩)
  rw [mapM_congr each]

theorem Determined.flatten_succ (determined : Determined setting other fuel)
    (same : ∀ query ∈ flattenQueries setting (fuel + 1) expr, other.SameAt setting query) :
    flatten? other (fuel + 1) expr = flatten? setting (fuel + 1) expr := by
  unfold flattenQueries at same
  unfold flatten?
  cases expr with
  | binary dtype op lhs rhs =>
    dsimp only at same ⊢
    split
    next isComparison =>
      rw [if_pos isComparison, List.forall_mem_append, List.forall_mem_append] at same
      obtain ⟨⟨ofLeft, ofRight⟩, rest⟩ := same
      rw [determined.sumOf lhs ofLeft, determined.sumOf rhs ofRight]
      cases leftSum : sumOf? setting fuel lhs with
      | none => rfl
      | some left =>
        cases rightSum : sumOf? setting fuel rhs with
        | none => rfl
        | some right =>
          simp only [leftSum, rightSum, List.forall_mem_append] at rest
          obtain ⟨ofDifference, ofChildren⟩ := rest
          have compares : (left.sub? right).bind (SumForm.comparison? other.divide op) =
              (left.sub? right).bind (SumForm.comparison? setting.divide op) := by
            cases subtracts : left.sub? right with
            | none => rfl
            | some difference =>
              rw [subtracts] at ofDifference
              exact comparison?_congr ofDifference
          simp only [Option.bind_eq_bind, Option.bind_some, compares]
          split
          next => rfl
          next notCompared =>
            rw [notCompared] at ofChildren
            exact determined.flattenChildren _ ofChildren
    next notComparison =>
      rw [if_neg notComparison] at same
      split
      next isSum =>
        rw [if_pos isSum, List.forall_mem_append] at same
        rw [determined.sumOf _ same.1]
        cases isSumForm : sumOf? setting fuel (.binary dtype op lhs rhs) with
        | none => rfl
        | some sum =>
          simp only [isSumForm, Option.bind_some] at same
          simp only [Option.bind_eq_bind, Option.bind_some]
          split
          next => rfl
          next unbuilt =>
            rw [unbuilt] at same
            exact determined.flattenChildren _ same.2
      next notSum =>
        rw [if_neg notSum] at same
        exact determined.flattenChildren _ same
  | _ => exact determined.flattenChildren _ same

theorem Determined.sumOf_succ (determined : Determined setting other fuel)
    (same : ∀ query ∈ sumQueries setting (fuel + 1) expr, other.SameAt setting query) :
    sumOf? other (fuel + 1) expr = sumOf? setting (fuel + 1) expr := by
  unfold sumQueries at same
  unfold sumOf?
  have leaf {expr : Expr}
      (same : ∀ query ∈ childrenQueries setting fuel expr, other.SameAt setting query) :
      (flattenChildren? other fuel expr).map SumForm.ofLeaf =
        (flattenChildren? setting fuel expr).map .ofLeaf := by
    rw [determined.flattenChildren expr same]
  cases expr with
  | intConst => rfl
  | binary dtype op lhs rhs =>
    dsimp only at same ⊢
    split
    next isIndex =>
      rw [if_pos isIndex, List.forall_mem_append] at same
      obtain ⟨ofOperands, rest⟩ := same
      rw [determined.binarySum op lhs rhs ofOperands]
      cases isSum : binarySum? setting fuel op lhs rhs with
      | none => rfl
      | some sum? =>
        rw [isSum] at rest
        cases sum? with
        | none => exact leaf rest
        | some sum =>
          simp only [List.forall_mem_append] at rest
          obtain ⟨ofSum, ofChildren⟩ := rest
          simp only [Option.bind_eq_bind, Option.bind_some]
          rw [determined.recombine sum ofSum]
          cases recombined : recombine? setting fuel sum with
          | none => rfl
          | some together =>
            rw [recombined] at ofChildren
            cases together with
            | none => exact leaf ofChildren
            | some => rfl
    next notIndex =>
      rw [if_neg notIndex] at same
      exact leaf same
  | _ => exact leaf same

theorem Determined.binarySum_succ (determined : Determined setting other fuel)
    (sameTerms : other.maxTerms = setting.maxTerms)
    (same : ∀ query ∈ binarySumQueries setting (fuel + 1) op lhs rhs, other.SameAt setting query) :
    binarySum? other (fuel + 1) op lhs rhs = binarySum? setting (fuel + 1) op lhs rhs := by
  unfold binarySumQueries at same
  unfold binarySum?
  have operands (same : ∀ query ∈ sumQueries setting fuel lhs ++ sumQueries setting fuel rhs,
      other.SameAt setting query) :
      sumOf? other fuel lhs = sumOf? setting fuel lhs ∧
        sumOf? other fuel rhs = sumOf? setting fuel rhs := by
    rw [List.forall_mem_append] at same
    exact ⟨determined.sumOf lhs same.1, determined.sumOf rhs same.2⟩
  have divided (same : ∀ query ∈ (match Split.ofOp? op, rhs.asInt? with
      | some kind, some divisor =>
        if divisor = 0 then []
        else sumQueries setting fuel lhs ++
          (sumOf? setting fuel lhs).elim [] (splitQueries setting kind divisor)
      | _, _ => []), other.SameAt setting query) :
      (match Split.ofOp? op, rhs.asInt? with
      | some kind, some divisor =>
        if divisor = 0 then pure none
        else do return (← sumOf? other fuel lhs).split? other.divide other.bound kind divisor
      | _, _ => pure none : Option (Option SumForm)) =
      (match Split.ofOp? op, rhs.asInt? with
      | some kind, some divisor =>
        if divisor = 0 then pure none
        else do return (← sumOf? setting fuel lhs).split? setting.divide setting.bound kind divisor
      | _, _ => pure none) := by
    split
    next kind divisor isKind isDivisor =>
      rw [isKind, isDivisor] at same
      dsimp only at same
      split
      next => rfl
      next nonzero =>
        rw [if_neg nonzero, List.forall_mem_append] at same
        rw [determined.sumOf lhs same.1]
        cases isSum : sumOf? setting fuel lhs with
        | none => rfl
        | some dividend =>
          rw [isSum] at same
          simp only [Option.bind_eq_bind, Option.bind_some]
          rw [split?_congr same.2]
    next => rfl
  cases op with
  | add | sub =>
    dsimp only
    rw [(operands same).1, (operands same).2]
  | mul =>
    dsimp only
    rw [(operands same).1, (operands same).2, sameTerms]
  | _ => exact divided same

theorem Determined.recombine_succ (determined : Determined setting other fuel)
    (same : ∀ query ∈ recombineQueries setting (fuel + 1) sum, other.SameAt setting query) :
    recombine? other (fuel + 1) sum = recombine? setting (fuel + 1) sum := by
  unfold recombineQueries at same
  unfold recombine?
  split
  next => rfl
  next pair found =>
    rw [found] at same
    dsimp only at same
    rw [List.forall_mem_append] at same
    rw [determined.sumOf pair.dividend same.1]
    cases isSum : sumOf? setting fuel pair.dividend with
    | none => rfl
    | some dividend =>
      replace same := same.2
      rw [isSum] at same
      simp only [Option.bind_eq_bind, Option.bind_some] at same ⊢
      split
      next together isTogether =>
        rw [isTogether] at same
        exact determined.recombine together same
      next => rfl

/-- Settings that agree on what one of them asks give the same results with any fuel. -/
theorem determined (sameTerms : other.maxTerms = setting.maxTerms) (fuel : Nat) :
    Determined setting other fuel := by
  induction fuel with
  | zero => exact determined_zero
  | succ fuel inductionHypothesis =>
    exact {
      flatten := fun _ => inductionHypothesis.flatten_succ
      flattenChildren := fun _ => inductionHypothesis.flattenChildren_succ
      sumOf := fun _ => inductionHypothesis.sumOf_succ
      binarySum := fun _ _ _ => inductionHypothesis.binarySum_succ sameTerms
      recombine := fun _ => inductionHypothesis.recombine_succ }

end

end Flattening

end IndexAlgebra
