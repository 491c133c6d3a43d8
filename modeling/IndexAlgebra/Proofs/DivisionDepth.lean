/-
This file proves that flattening nests divisions no deeper. An atom that is a quotient or a remainder
counts one more than its dividend, and every other atom counts as much as its expression. Flattening an
expression, rebuilding a sum as an expression and putting a quotient and its remainder together keep
the depth, and a dividend that is put together is less deep than the sum it is found in.
-/
import IndexAlgebra.Proofs.FlatteningFuel
import IndexAlgebra.Proofs.RuleForms
import IndexAlgebra.Proofs.SumTerms

namespace IndexAlgebra

namespace Expr

/-! ### Depth of expressions -/

/-- The levels that a node adds: one for a quotient or a remainder. -/
def divisionLevel (op : BinaryOp) : Nat := if op.isDivision then 1 else 0

mutual

/-- The number of quotients and remainders nested in each other. -/
def divisionDepth : Expr → Nat
  | var .. | intConst .. | floatConst .. | boolConst .. => 0
  | cast _ value | not _ value | broadcast _ value _ => divisionDepth value
  | binary _ op lhs rhs => max (divisionDepth lhs) (divisionDepth rhs) + divisionLevel op
  | select _ cond onTrue onFalse =>
    max (divisionDepth cond) (max (divisionDepth onTrue) (divisionDepth onFalse))
  | ramp _ base stride _ => max (divisionDepth base) (divisionDepth stride)
  | shuffle _ vectors _ => divisionDepthList vectors
  | letIn _ _ value body => max (divisionDepth value) (divisionDepth body)
  | call _ _ args => divisionDepthList args

/-- The depth of the deepest expression. -/
def divisionDepthList : List Expr → Nat
  | [] => 0
  | expr :: rest => max (divisionDepth expr) (divisionDepthList rest)

end

variable {expr child lhs rhs built : Expr} {op : BinaryOp} {depth : Nat}

theorem divisionDepthList_le {exprs : List Expr} :
    divisionDepthList exprs ≤ depth ↔ ∀ expr ∈ exprs, expr.divisionDepth ≤ depth := by
  induction exprs with
  | nil => simp [divisionDepthList]
  | cons expr rest inductionHypothesis =>
    rw [divisionDepthList, Nat.max_le, inductionHypothesis, List.forall_mem_cons]

theorem divisionDepth_child (isChild : child ∈ expr.children) :
    child.divisionDepth ≤ expr.divisionDepth := by
  have inside : divisionDepthList expr.children ≤ expr.divisionDepth := by
    cases expr <;> simp only [children, divisionDepthList, divisionDepth] <;> omega
  exact divisionDepthList_le.mp inside child isChild

/-- Operands that are no deeper make the node no deeper. -/
theorem divisionDepth_withChildren {exprs : List Expr}
    (shallow : divisionDepthList exprs ≤ divisionDepthList expr.children) :
    (expr.withChildren exprs).divisionDepth ≤ expr.divisionDepth := by
  unfold withChildren
  split <;> simp only [children, divisionDepthList, divisionDepth] at shallow ⊢ <;> omega

/-! ### Depth of what the builders build -/

theorem divisionDepth_ofInt (dtype : DataType) (value : Int) : (ofInt dtype value).divisionDepth = 0 := by
  unfold ofInt scalarOfInt
  split <;> split <;> (try split) <;> rfl

theorem divisionDepth_ofFloat (dtype : DataType) (number : Binary64) :
    (ofFloat dtype number).divisionDepth = 0 := by
  unfold ofFloat
  split <;> rfl

theorem divisionDepth_retype? {dtype : DataType} (retypes : retype? dtype expr = some built) :
    built.divisionDepth = 0 := by
  have scalar : ∀ value, retypeScalar? dtype value = some built → built.divisionDepth = 0 := by
    intro value retypes
    unfold retypeScalar? at retypes
    split at retypes
    · obtain ⟨-, equal⟩ := Option.ite_none_right_eq_some.mp retypes
      exact Option.some.inj equal ▸ divisionDepth_ofInt dtype _
    · obtain ⟨-, equal⟩ := Option.ite_none_right_eq_some.mp retypes
      exact Option.some.inj equal ▸ divisionDepth_ofFloat dtype _
    · cases retypes
  unfold retype? at retypes
  split at retypes
  · exact scalar _ retypes
  · exact scalar _ retypes

/-- Operands are no deeper after a constant among them took the type of the other one. -/
theorem divisionDepth_unify (lhs rhs : Expr) :
    (unify lhs rhs).1.divisionDepth ≤ lhs.divisionDepth ∧
      (unify lhs rhs).2.divisionDepth ≤ rhs.divisionDepth := by
  have left : (((retype? rhs.dtype lhs).map fun lhs => (lhs, rhs)).getD (lhs, rhs)).1.divisionDepth ≤
      lhs.divisionDepth ∧
      (((retype? rhs.dtype lhs).map fun lhs => (lhs, rhs)).getD (lhs, rhs)).2.divisionDepth ≤
        rhs.divisionDepth := by
    cases retypes : retype? rhs.dtype lhs with
    | none => exact ⟨Nat.le_refl _, Nat.le_refl _⟩
    | some retyped =>
      exact ⟨Nat.le_trans (Nat.le_of_eq (divisionDepth_retype? retypes)) (Nat.zero_le _), Nat.le_refl _⟩
  unfold unify
  split
  next => exact ⟨Nat.le_refl _, Nat.le_refl _⟩
  next =>
    dsimp only
    split
    next retyped retypes =>
      split
      next =>
        exact ⟨Nat.le_refl _,
          Nat.le_trans (Nat.le_of_eq (divisionDepth_retype? retypes)) (Nat.zero_le _)⟩
      next => exact left
    next => exact left

theorem divisionDepth_binary? (builds : binary? op lhs rhs = some built) :
    built.divisionDepth ≤ max lhs.divisionDepth rhs.divisionDepth + divisionLevel op := by
  have shallow := divisionDepth_unify lhs rhs
  obtain ⟨-, rfl, -⟩ := binary?_unify builds
  rw [divisionDepth]
  omega

/-- A node that does not divide is no deeper than its operands. -/
theorem divisionDepth_of_not_isDivision (notDivision : op.isDivision = false)
    (isLeft : lhs.divisionDepth ≤ depth) (isRight : rhs.divisionDepth ≤ depth)
    (builds : binary? op lhs rhs = some built) : built.divisionDepth ≤ depth := by
  have isBuilt := divisionDepth_binary? builds
  rw [divisionLevel, notDivision] at isBuilt
  simp only [Bool.false_eq_true, if_false] at isBuilt
  omega

end Expr

/-! ### Depth of sums -/

/-- A quotient or a remainder is one deeper than its dividend. -/
def Atom.divisionDepth : Atom → Nat
  | leaf expr => expr.divisionDepth
  | split dividend _ _ => dividend.divisionDepth + 1

variable {depth : Nat} {built : Expr}

theorem Atom.divisionDepth_expr? {atom : Atom} (builds : atom.expr? = some built) :
    built.divisionDepth ≤ atom.divisionDepth := by
  cases atom with
  | leaf expr =>
    cases builds
    exact Nat.le_refl _
  | split dividend divisor kind =>
    have isBuilt := Expr.divisionDepth_binary? builds
    have one : Expr.divisionLevel kind.op = 1 := by cases kind <;> rfl
    rw [Expr.divisionDepth_ofInt, one] at isBuilt
    rw [divisionDepth]
    omega

namespace SumForm

variable {sum left right result : SumForm}

/-- No atom of the sum is deeper. -/
def NestsUpTo (depth : Nat) (sum : SumForm) : Prop := sum.Over fun atom => atom.divisionDepth ≤ depth

theorem NestsUpTo.mono {depth' : Nat} (isSum : sum.NestsUpTo depth) (deeper : depth ≤ depth') :
    sum.NestsUpTo depth' :=
  isSum.imp fun _ shallow => Nat.le_trans shallow deeper

theorem keptByArithmetic_divisionDepth (dtype : DataType) (depth : Nat) :
    KeptByArithmetic dtype fun expr => expr.divisionDepth ≤ depth where
  constant value built builds := by
    obtain ⟨-, equal⟩ := Option.ite_none_right_eq_some.mp builds
    rw [← Option.some.inj equal, Expr.divisionDepth_ofInt]
    exact Nat.zero_le _
  node op lhs rhs built isOp isLeft isRight builds := by
    refine Expr.divisionDepth_of_not_isDivision ?_ isLeft isRight builds
    simp only [List.mem_cons, List.not_mem_nil, or_false] at isOp
    rcases isOp with rfl | rfl | rfl <;> rfl

/-- A sum is rebuilt as an expression that is no deeper. -/
theorem NestsUpTo.expr (isSum : sum.NestsUpTo depth) (builds : sum.expr? = some built) :
    built.divisionDepth ≤ depth := by
  refine (keptByArithmetic_divisionDepth sum.dtype depth).sumExpr (isSum.imp ?_) builds
  exact fun atom shallow expr isExpr => Nat.le_trans (Atom.divisionDepth_expr? isExpr) shallow

/-! ### Depth of quotients and comparisons -/

variable {divide : Divide} {bound : Expr → Bound} {kind : Split} {divisor : Int} {op op' : BinaryOp}

theorem NestsUpTo.splitAtom (isSum : sum.NestsUpTo depth)
    (divided : sum.splitAtom? kind divisor = some result) : result.NestsUpTo (depth + 1) := by
  obtain ⟨dividend, isDividend, rfl⟩ := Option.map_eq_some_iff.mp divided
  exact over_ofAtom (Nat.succ_le_succ (isSum.expr isDividend))

theorem NestsUpTo.splitRest (keeps : divide.KeepsProducts) (isSum : sum.NestsUpTo depth)
    (divided : sum.splitRest? divide kind divisor = some result) : result.NestsUpTo (depth + 1) := by
  rcases cases_of_splitRest? divided with isExact | ⟨constant, isConstant⟩ | isAtom
  · exact NestsUpTo.mono (isSum.splitExact keeps isExact) (Nat.le_succ depth)
  · exact over_splitConstant? isConstant
  · exact isSum.splitAtom isAtom

/-- A quotient or a remainder of a sum is one deeper at most. -/
theorem NestsUpTo.split (keeps : divide.KeepsProducts) (isSum : sum.NestsUpTo depth)
    (divided : sum.split? divide bound kind divisor = some result) : result.NestsUpTo (depth + 1) := by
  rcases cases_of_split? divided with isExact | ⟨constant, isConstant⟩ | isAtom |
    ⟨multiples, rest, remainder, peeled, isRemainder, apart⟩
  · exact NestsUpTo.mono (isSum.splitExact keeps isExact) (Nat.le_succ depth)
  · exact over_splitConstant? isConstant
  · exact isSum.splitAtom isAtom
  · obtain ⟨isMultiples, isRest⟩ := isSum.peel peeled
    have shallow := NestsUpTo.splitRest keeps isRest isRemainder
    obtain rfl | ⟨quotient, isQuotient, added⟩ := apart
    · exact shallow
    · have ofMultiples := isMultiples.of_products (keeps _ _ quotient isQuotient)
      exact (NestsUpTo.mono ofMultiples (Nat.le_succ depth)).add shallow added

theorem NestsUpTo.normalizeComparison (isSum : sum.NestsUpTo depth)
    (normalizes : normalizeComparison? op sum = some (op', result)) :
    op'.isDivision = false ∧ result.NestsUpTo depth := by
  obtain ⟨isNormal, isResult⟩ := cases_of_normalizeComparison? normalizes
  simp only [List.mem_cons, List.not_mem_nil, or_false] at isNormal
  refine ⟨by rcases isNormal with rfl | rfl | rfl <;> rfl, ?_⟩
  obtain rfl | shifted | ⟨opposite, isOpposite, rfl | shifted⟩ := isResult
  · exact isSum
  · exact isSum.add (over_ofInt _ _) shifted
  · exact isSum.scale isOpposite
  · exact (isSum.scale isOpposite).add (over_ofInt _ _) shifted

theorem NestsUpTo.divideContent (keeps : divide.KeepsProducts) (isSum : sum.NestsUpTo depth)
    (divided : sum.divideContent? divide op = some (.ok result)) : result.NestsUpTo depth := by
  obtain rfl | ⟨quotient, constant, isQuotient, rfl⟩ := cases_of_divideContent? divided
  · exact isSum
  · have isDividend : NestsUpTo depth { sum with constant := 0 } := isSum
    exact isDividend.of_products (keeps _ _ quotient isQuotient)

theorem NestsUpTo.comparisonExpr (notDivision : op.isDivision = false) (isSum : sum.NestsUpTo depth)
    (builds : sum.comparisonExpr? op = some built) : built.divisionDepth ≤ depth := by
  obtain ⟨negative, left, right, isNegative, isLeft, isRight, builds⟩ :=
    exists_sides_of_comparisonExpr? builds
  have positives : NestsUpTo depth ⟨sum.dtype, sum.terms.filter fun term => decide (0 < term.2), 0⟩ :=
    isSum.filter _ _ _
  have negatives : negative.NestsUpTo depth := (isSum.filter _ _ _).scale isNegative
  exact Expr.divisionDepth_of_not_isDivision notDivision (positives.expr isLeft)
    (negatives.expr isRight) builds

/-- A comparison of a sum with zero is no deeper. -/
theorem NestsUpTo.comparison (keeps : divide.KeepsProducts) (isSum : sum.NestsUpTo depth)
    (builds : sum.comparison? divide op = some built) : built.divisionDepth ≤ depth := by
  obtain ⟨⟨op', difference⟩, normalizes, builds⟩ := Option.bind_eq_some_iff.mp builds
  obtain ⟨notDivision, isDifference⟩ := isSum.normalizeComparison normalizes
  dsimp only at builds
  split at builds
  next =>
    cases builds
    exact Nat.zero_le _
  next =>
    obtain ⟨reduced, isReduced, builds⟩ := Option.bind_eq_some_iff.mp builds
    split at builds
    next =>
      cases builds
      exact Nat.zero_le _
    next => exact (isDifference.divideContent keeps isReduced).comparisonExpr notDivision builds

end SumForm

namespace Flattening

/-! ### Depth of what is flattened -/

/-- With this much fuel, whatever has a result nests divisions no deeper. -/
structure Shallow (setting : Setting) (fuel : Nat) : Prop where
  flatten : ∀ expr result, flatten? setting fuel expr = some result →
    result.divisionDepth ≤ expr.divisionDepth
  flattenChildren : ∀ expr result, flattenChildren? setting fuel expr = some result →
    result.divisionDepth ≤ expr.divisionDepth
  sumOf : ∀ expr sum, sumOf? setting fuel expr = some sum → sum.NestsUpTo expr.divisionDepth
  binarySum : ∀ op lhs rhs sum, binarySum? setting fuel op lhs rhs = some (some sum) →
    sum.NestsUpTo (max lhs.divisionDepth rhs.divisionDepth + Expr.divisionLevel op)
  recombine : ∀ depth sum result, SumForm.NestsUpTo depth sum →
    recombine? setting fuel sum = some (some result) → result.NestsUpTo depth

variable {setting : Setting} {fuel : Nat}

theorem shallow_zero : Shallow setting 0 where
  flatten _ _ flattened := by cases flattened
  flattenChildren _ _ flattened := by cases flattened
  sumOf _ _ isSum := by cases isSum
  binarySum _ _ _ _ isSum := by cases isSum
  recombine _ _ _ _ recombined := by cases recombined

theorem Shallow.mapM (shallow : Shallow setting fuel) {exprs results : List Expr}
    (flattened : exprs.mapM (flatten? setting fuel) = some results) :
    Expr.divisionDepthList results ≤ Expr.divisionDepthList exprs := by
  induction exprs generalizing results with
  | nil =>
    rw [List.mapM_nil] at flattened
    cases flattened
    exact Nat.le_refl _
  | cons expr rest inductionHypothesis =>
    rw [List.mapM_cons] at flattened
    obtain ⟨first, isFirst, flattened⟩ := Option.bind_eq_some_iff.mp flattened
    obtain ⟨others, areOthers, flattened⟩ := Option.bind_eq_some_iff.mp flattened
    cases flattened
    have isShallow := shallow.flatten expr first isFirst
    have areShallow := inductionHypothesis areOthers
    rw [Expr.divisionDepthList, Expr.divisionDepthList]
    omega

theorem Shallow.flattenChildren_succ (shallow : Shallow setting fuel) {expr result : Expr}
    (flattened : flattenChildren? setting (fuel + 1) expr = some result) :
    result.divisionDepth ≤ expr.divisionDepth := by
  obtain ⟨children, areChildren, rfl⟩ := Option.map_eq_some_iff.mp flattened
  exact Expr.divisionDepth_withChildren (shallow.mapM areChildren)

theorem Shallow.leaf (shallow : Shallow setting fuel) {expr : Expr} {sum : SumForm}
    (isLeaf : (flattenChildren? setting fuel expr).map .ofLeaf = some sum) :
    sum.NestsUpTo expr.divisionDepth := by
  obtain ⟨leaf, flattened, rfl⟩ := Option.map_eq_some_iff.mp isLeaf
  exact SumForm.over_ofAtom (shallow.flattenChildren expr leaf flattened)

theorem Shallow.sumOf_succ (shallow : Shallow setting fuel) {expr : Expr} {sum : SumForm}
    (isSum : sumOf? setting (fuel + 1) expr = some sum) : sum.NestsUpTo expr.divisionDepth := by
  unfold sumOf? at isSum
  split at isSum
  next type number =>
    split at isSum
    · cases isSum
      exact SumForm.over_ofInt _ _
    · cases isSum
      exact SumForm.over_ofAtom (Nat.le_refl _)
  next type op lhs rhs =>
    split at isSum
    next =>
      obtain ⟨sum?, isSum?, isSum⟩ := Option.bind_eq_some_iff.mp isSum
      split at isSum
      next sum =>
        obtain ⟨recombined?, isRecombined, isSum⟩ := Option.bind_eq_some_iff.mp isSum
        split at isSum
        next =>
          cases isSum
          exact shallow.recombine _ sum _ (shallow.binarySum op lhs rhs sum isSum?) isRecombined
        next => exact shallow.leaf isSum
      next => exact shallow.leaf isSum
    next => exact shallow.leaf isSum
  next => exact shallow.leaf isSum

theorem Shallow.binarySum_succ (shallow : Shallow setting fuel)
    (keeps : setting.divide.KeepsProducts) {op : BinaryOp} {lhs rhs : Expr} {sum : SumForm}
    (isSum : binarySum? setting (fuel + 1) op lhs rhs = some (some sum)) :
    sum.NestsUpTo (max lhs.divisionDepth rhs.divisionDepth + Expr.divisionLevel op) := by
  -- the sum forms of both operands, for the operators that are computed on sum forms
  have operands {compute : SumForm → SumForm → Option SumForm}
      (computed : ((sumOf? setting fuel lhs).bind fun left =>
        (sumOf? setting fuel rhs).bind fun right => some (compute left right)) = some (some sum)) :
      ∃ left right : SumForm, compute left right = some sum ∧
        left.NestsUpTo (max lhs.divisionDepth rhs.divisionDepth + Expr.divisionLevel op) ∧
        right.NestsUpTo (max lhs.divisionDepth rhs.divisionDepth + Expr.divisionLevel op) := by
    obtain ⟨leftSum, isLeft, computed⟩ := Option.bind_eq_some_iff.mp computed
    obtain ⟨rightSum, isRight, equal⟩ := Option.bind_eq_some_iff.mp computed
    exact ⟨leftSum, rightSum, Option.some.inj equal, (shallow.sumOf lhs leftSum isLeft).mono (by omega),
      (shallow.sumOf rhs rightSum isRight).mono (by omega)⟩
  unfold binarySum? at isSum
  split at isSum
  next =>
    obtain ⟨_, _, added, isLeft, isRight⟩ := operands isSum
    exact isLeft.add isRight added
  next =>
    obtain ⟨_, _, subtracted, isLeft, isRight⟩ := operands isSum
    exact isLeft.sub isRight subtracted
  next =>
    obtain ⟨_, _, multiplied, isLeft, isRight⟩ := operands isSum
    exact isLeft.mul isRight multiplied
  next =>
    split at isSum
    next kind divisor isKind isDivisor =>
      split at isSum
      next => cases isSum
      next =>
        obtain ⟨dividend, isDividend, equal⟩ := Option.bind_eq_some_iff.mp isSum
        have isSplit := (shallow.sumOf lhs dividend isDividend).split keeps (Option.some.inj equal)
        refine isSplit.mono ?_
        have one : Expr.divisionLevel op = 1 := by
          cases op <;> first | rfl | cases isKind
        omega
    next => cases isSum

/-- A dividend that is put together is less deep than the sum that it is found in. -/
theorem divisionDepth_lt_of_findPair? {depth : Nat} {sum : SumForm} {pair : SumForm.Pair}
    (isSum : sum.NestsUpTo depth) (found : sum.findPair? = some pair) :
    pair.dividend.divisionDepth < depth := by
  obtain ⟨divisor, kind, -, -, isQuotient, -, inTerms, -⟩ := SumForm.exists_of_findPair? found
  exact isSum _ inTerms (.split pair.dividend divisor kind) (by simp [isQuotient])

theorem Shallow.recombine_succ (shallow : Shallow setting fuel) {depth : Nat} {sum result : SumForm}
    (isSum : sum.NestsUpTo depth)
    (recombined : recombine? setting (fuel + 1) sum = some (some result)) :
    result.NestsUpTo depth := by
  unfold recombine? at recombined
  split at recombined
  next =>
    cases recombined
    exact isSum
  next pair found =>
    obtain ⟨dividend, dividendSum, recombined⟩ := Option.bind_eq_some_iff.mp recombined
    split at recombined
    next together isSome =>
      obtain ⟨multiple, scaled, added⟩ := Option.bind_eq_some_iff.mp isSome
      have isDividend : dividend.NestsUpTo depth := (shallow.sumOf _ dividend dividendSum).mono
        (Nat.le_of_lt (divisionDepth_lt_of_findPair? isSum found))
      have isRest : (sum.withoutPair pair).NestsUpTo depth := isSum.filter _ _ _
      exact shallow.recombine depth together result (isRest.add (isDividend.scale scaled) added)
        recombined
    next => cases recombined

theorem Shallow.flatten_succ (shallow : Shallow setting fuel) (keeps : setting.divide.KeepsProducts)
    {expr result : Expr} (flattened : flatten? setting (fuel + 1) expr = some result) :
    result.divisionDepth ≤ expr.divisionDepth := by
  unfold flatten? at flattened
  split at flattened
  next type op lhs rhs =>
    split at flattened
    next =>
      obtain ⟨leftSum, isLeft, flattened⟩ := Option.bind_eq_some_iff.mp flattened
      obtain ⟨rightSum, isRight, flattened⟩ := Option.bind_eq_some_iff.mp flattened
      split at flattened
      next rebuilt isSome =>
        cases flattened
        obtain ⟨difference, subtracted, compared⟩ := Option.bind_eq_some_iff.mp isSome
        have left : leftSum.NestsUpTo (Expr.binary type op lhs rhs).divisionDepth :=
          (shallow.sumOf lhs leftSum isLeft).mono (Expr.divisionDepth_child List.mem_cons_self)
        have right : rightSum.NestsUpTo (Expr.binary type op lhs rhs).divisionDepth :=
          (shallow.sumOf rhs rightSum isRight).mono
            (Expr.divisionDepth_child (List.mem_cons_of_mem _ List.mem_cons_self))
        exact SumForm.NestsUpTo.comparison keeps (left.sub right subtracted) compared
      next => exact shallow.flattenChildren _ result flattened
    next =>
      split at flattened
      next =>
        obtain ⟨sum, isSum, flattened⟩ := Option.bind_eq_some_iff.mp flattened
        split at flattened
        next rebuilt isSome =>
          cases flattened
          exact (shallow.sumOf _ sum isSum).expr isSome
        next => exact shallow.flattenChildren _ result flattened
      next => exact shallow.flattenChildren _ result flattened
  next => exact shallow.flattenChildren _ result flattened

theorem shallow_of_keepsProducts (keeps : setting.divide.KeepsProducts) (fuel : Nat) :
    Shallow setting fuel := by
  induction fuel with
  | zero => exact shallow_zero
  | succ fuel shallow =>
    exact {
      flatten := fun expr result => shallow.flatten_succ keeps
      flattenChildren := fun expr result => shallow.flattenChildren_succ
      sumOf := fun expr sum => shallow.sumOf_succ
      binarySum := fun op lhs rhs sum => shallow.binarySum_succ keeps
      recombine := fun depth sum result isSum => shallow.recombine_succ isSum }

end Flattening

end IndexAlgebra
