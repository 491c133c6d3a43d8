/-
This file proves that flattening keeps types. A sum has a type when it is of the type and so is the
expression of each of its atoms, whatever integers these stand for: every operation on sums keeps
that, and a sum of a type is rebuilt as an expression of the type. No exactness is asked of the
division of sums, only that a quotient is made of the atoms of its dividend.
-/
import IndexAlgebra.Analyzer.Canonical
import IndexAlgebra.Proofs.Coherence
import IndexAlgebra.Proofs.SumComparison

namespace IndexAlgebra

variable {dtype : DataType}

/-! ### Atoms -/

/-- The expression that the atom stands for or divides has the type. -/
def Atom.HasType (dtype : DataType) (atom : Atom) : Prop := atom.base.HasType dtype

theorem Atom.HasType.expr {atom : Atom} {built : Expr} (typed : atom.HasType dtype)
    (builds : atom.expr? = some built) : built.HasType dtype := by
  cases atom with
  | leaf expr =>
    cases builds
    exact typed
  | split dividend divisor kind =>
    have isDividend : dividend.HasType dtype := typed
    have isDivisor : (Expr.ofInt dividend.dtype divisor).HasType dtype := by
      rw [isDividend.isType]
      exact Expr.hasType_ofInt isDividend.sound divisor
    exact isDividend.arithmetic isDivisor (by cases kind <;> rfl) builds

namespace SumForm

/-! ### Sums of a type -/

/-- The sum is of the type, and it is made of atoms of the type, in order. -/
def HasType (dtype : DataType) (sum : SumForm) : Prop :=
  ∃ total, sum.Totals dtype (Atom.HasType dtype) (fun _ => 0) total

variable {sum left right result : SumForm}

theorem HasType.isType (isSum : sum.HasType dtype) : sum.dtype = dtype := by
  obtain ⟨_, totals⟩ := isSum
  exact totals.dtype_eq

theorem HasType.atoms (isSum : sum.HasType dtype) :
    ∀ term ∈ sum.terms, ∀ atom ∈ term.1, atom.HasType dtype := by
  obtain ⟨_, totals⟩ := isSum
  exact totals.allowed

theorem hasType_ofInt (value : Int) : (ofInt dtype value).HasType dtype := ⟨value, totals_ofInt value⟩

theorem hasType_ofAtom {atom : Atom} (isAtom : atom.HasType dtype) :
    (ofAtom dtype atom).HasType dtype := ⟨0, totals_ofAtom isAtom⟩

theorem hasType_ofLeaf {expr : Expr} (typed : expr.HasType dtype) : (ofLeaf expr).HasType dtype := by
  rw [ofLeaf, typed.isType]
  exact hasType_ofAtom typed

theorem HasType.add (isLeft : left.HasType dtype) (isRight : right.HasType dtype)
    (added : left.add? right = some result) : result.HasType dtype := by
  obtain ⟨_, first⟩ := isLeft
  obtain ⟨_, second⟩ := isRight
  exact ⟨_, first.add second added⟩

theorem HasType.sub (isLeft : left.HasType dtype) (isRight : right.HasType dtype)
    (subtracted : left.sub? right = some result) : result.HasType dtype := by
  obtain ⟨_, first⟩ := isLeft
  obtain ⟨_, second⟩ := isRight
  exact ⟨_, first.sub second subtracted⟩

theorem HasType.mul {maxTerms : Nat} (isLeft : left.HasType dtype) (isRight : right.HasType dtype)
    (multiplied : left.mul? right maxTerms = some result) : result.HasType dtype := by
  obtain ⟨_, first⟩ := isLeft
  obtain ⟨_, second⟩ := isRight
  exact ⟨_, first.mul second multiplied⟩

theorem HasType.scale {factor : Int} (isSum : sum.HasType dtype)
    (scaled : sum.scale? factor = some result) : result.HasType dtype := by
  obtain ⟨_, totals⟩ := isSum
  exact ⟨_, totals.scale scaled⟩

theorem HasType.withConstant (isSum : sum.HasType dtype) (constant : Int) :
    SumForm.HasType dtype { sum with constant } := by
  obtain ⟨_, totals⟩ := isSum
  exact ⟨_, totals.withConstant constant⟩

theorem HasType.filter (isSum : sum.HasType dtype) (keep : Product × Int → Bool) (constant : Int) :
    SumForm.HasType dtype ⟨sum.dtype, sum.terms.filter keep, constant⟩ := by
  obtain ⟨_, totals⟩ := isSum
  exact ⟨_, totals.filter keep constant⟩

theorem HasType.partition (isSum : sum.HasType dtype) (divisor : Int) :
    (sum.partition divisor).1.HasType dtype ∧ (sum.partition divisor).2.HasType dtype := by
  rw [partition_eq]
  exact ⟨isSum.filter _ 0, isSum.filter _ sum.constant⟩

/-- A quotient keeps the type of its dividend. -/
def Divide.KeepsType (divide : Divide) : Prop :=
  ∀ dtype sum divisor quotient, SumForm.HasType dtype sum → divide sum divisor = some quotient →
    SumForm.HasType dtype quotient

/-- Dividing changes coefficients alone. -/
theorem divideExact?_keepsType : Divide.KeepsType divideExact? := by
  rintro dtype sum divisor quotient ⟨_, totals⟩ divided
  obtain ⟨change, constant, rfl⟩ := exists_map_of_divideExact? divided
  refine ⟨_, totals.dtype_eq, (inOrder_map change).mpr totals.inOrder, ?_, rfl⟩
  rw [List.forall_mem_map]
  exact totals.allowed

/-! ### Sums as expressions -/

theorem keptByArithmetic_hasType (sound : dtype.Sound) :
    KeptByArithmetic dtype fun expr => expr.HasType dtype where
  constant value built builds := by
    obtain ⟨-, equal⟩ := Option.ite_none_right_eq_some.mp builds
    exact Option.some.inj equal ▸ Expr.hasType_ofInt sound value
  node op lhs rhs built isOp isLeft isRight builds := by
    refine isLeft.arithmetic isRight ?_ builds
    simp only [List.mem_cons, List.not_mem_nil, or_false] at isOp
    rcases isOp with rfl | rfl | rfl <;> rfl

/-- A sum is an expression of its type. -/
theorem HasType.expr (isSum : sum.HasType dtype) (sound : dtype.Sound) {built : Expr}
    (builds : sum.expr? = some built) : built.HasType dtype := by
  obtain rfl := isSum.isType
  exact (keptByArithmetic_hasType sound).sumExpr
    (fun term isTerm atom isAtom _ isExpr => (isSum.atoms term isTerm atom isAtom).expr isExpr) builds

/-! ### Division by a constant -/

section

variable {divide : Divide} {kind : Split} {divisor : Int}

theorem HasType.splitExact (keeps : divide.KeepsType) (isSum : sum.HasType dtype)
    (divided : sum.splitExact? divide kind divisor = some result) : result.HasType dtype := by
  obtain ⟨quotient, isQuotient, rfl⟩ := Option.map_eq_some_iff.mp divided
  split
  · exact keeps dtype sum divisor quotient isSum isQuotient
  · rw [isSum.isType]
    exact hasType_ofInt 0

theorem hasType_splitConstant? {constant : Int}
    (divided : splitConstant? kind divisor dtype constant = some result) : result.HasType dtype := by
  obtain ⟨number, rfl⟩ := exists_ofInt_of_splitConstant? divided
  exact hasType_ofInt number

theorem HasType.splitAtom (sound : dtype.Sound) (isSum : sum.HasType dtype)
    (divided : sum.splitAtom? kind divisor = some result) : result.HasType dtype := by
  obtain ⟨dividend, isDividend, rfl⟩ := Option.map_eq_some_iff.mp divided
  rw [isSum.isType]
  exact hasType_ofAtom (isSum.expr sound isDividend)

theorem HasType.splitRest (keeps : divide.KeepsType) (sound : dtype.Sound)
    (isSum : sum.HasType dtype) (divided : sum.splitRest? divide kind divisor = some result) :
    result.HasType dtype := by
  rcases cases_of_splitRest? divided with isExact | ⟨constant, isConstant⟩ | isAtom
  · exact isSum.splitExact keeps isExact
  · exact hasType_splitConstant? (isSum.isType ▸ isConstant)
  · exact isSum.splitAtom sound isAtom

theorem HasType.peel {bound : Expr → Bound} {multiples rest : SumForm} (isSum : sum.HasType dtype)
    (peeled : sum.peel? bound kind divisor = some (multiples, rest)) :
    multiples.HasType dtype ∧ rest.HasType dtype := by
  obtain ⟨first, second⟩ := isSum.partition divisor
  obtain ⟨constant, left, rfl, rfl⟩ := exists_constants_of_peel? peeled
  exact ⟨first.withConstant constant, second.withConstant left⟩

theorem HasType.split {bound : Expr → Bound} (keeps : divide.KeepsType) (sound : dtype.Sound)
    (isSum : sum.HasType dtype) (divided : sum.split? divide bound kind divisor = some result) :
    result.HasType dtype := by
  rcases cases_of_split? divided with isExact | ⟨constant, isConstant⟩ | isAtom |
    ⟨multiples, rest, remainder, peeled, isRemainder, apart⟩
  · exact isSum.splitExact keeps isExact
  · exact hasType_splitConstant? (isSum.isType ▸ isConstant)
  · exact isSum.splitAtom sound isAtom
  · obtain ⟨isMultiples, isRest⟩ := isSum.peel peeled
    have typed := isRest.splitRest keeps sound isRemainder
    obtain rfl | ⟨quotient, isQuotient, added⟩ := apart
    · exact typed
    · exact (keeps dtype _ divisor quotient isMultiples isQuotient).add typed added

/-! ### Comparisons -/

variable {op op' : BinaryOp}

theorem HasType.normalizeComparison (isSum : sum.HasType dtype)
    (normalizes : normalizeComparison? op sum = some (op', result)) :
    op'.isComparison = true ∧ result.HasType dtype := by
  have minusOne : (ofInt sum.dtype (-1)).HasType dtype := isSum.isType ▸ hasType_ofInt (-1)
  obtain ⟨isNormal, isResult⟩ := cases_of_normalizeComparison? normalizes
  simp only [List.mem_cons, List.not_mem_nil, or_false] at isNormal
  refine ⟨by rcases isNormal with rfl | rfl | rfl <;> rfl, ?_⟩
  obtain rfl | shifted | ⟨opposite, isOpposite, rfl | shifted⟩ := isResult
  · exact isSum
  · exact isSum.add minusOne shifted
  · exact isSum.scale isOpposite
  · exact (isSum.scale isOpposite).add minusOne shifted

theorem HasType.divideContent (keeps : divide.KeepsType) (isSum : sum.HasType dtype)
    (divides : sum.divideContent? divide op = some (.ok result)) : result.HasType dtype := by
  obtain rfl | ⟨quotient, constant, isQuotient, rfl⟩ := cases_of_divideContent? divides
  · exact isSum
  · exact (keeps dtype _ _ quotient (isSum.withConstant 0) isQuotient).withConstant constant

theorem HasType.comparisonExpr (sound : dtype.Sound) (isSum : sum.HasType dtype) {built : Expr}
    (builds : sum.comparisonExpr? op = some built) :
    built.HasType (Expr.binaryType op dtype) := by
  obtain ⟨negative, left, right, isNegative, isLeft, isRight, builds⟩ :=
    exists_sides_of_comparisonExpr? builds
  have typed := (isSum.filter _ sum.constant).scale isNegative
  exact ((isSum.filter _ 0).expr sound isLeft).binary? (typed.expr sound isRight) builds

/-- A comparison of scalars is a scalar truth value. -/
theorem HasType.comparison (keeps : divide.KeepsType) (sound : dtype.Sound) (scalar : dtype.lanes = 1)
    (isSum : sum.HasType dtype) {built : Expr} (builds : sum.comparison? divide op = some built) :
    built.HasType .bool := by
  obtain ⟨⟨op', difference⟩, normalizes, builds⟩ := Option.bind_eq_some_iff.mp builds
  obtain ⟨isComparison, isDifference⟩ := isSum.normalizeComparison normalizes
  dsimp only at builds
  split at builds
  · cases builds
    exact Expr.hasType_ofBool _
  obtain ⟨reduced, isReduced, builds⟩ := Option.bind_eq_some_iff.mp builds
  cases reduced with
  | error truth =>
    cases builds
    exact Expr.hasType_ofBool truth
  | ok reducedSum =>
    have typed := (isDifference.divideContent keeps isReduced).comparisonExpr sound builds
    rwa [Expr.binaryType, if_pos isComparison, scalar] at typed

end

end SumForm

namespace Flattening

open IndexAlgebra.Expr

/-! ### One step -/

/-- With this much fuel, whatever has a result keeps types. -/
structure Typed (setting : Setting) (fuel : Nat) : Prop where
  flatten : ∀ expr result, flatten? setting fuel expr = some result → result.KeepsType expr
  flattenChildren : ∀ expr result, flattenChildren? setting fuel expr = some result →
    result.KeepsType expr
  sumOf : ∀ dtype expr sum, expr.HasType dtype → sumOf? setting fuel expr = some sum →
    sum.HasType dtype
  binarySum : ∀ dtype op lhs rhs sum, lhs.HasType dtype → rhs.HasType dtype →
    binarySum? setting fuel op lhs rhs = some (some sum) → sum.HasType dtype
  recombine : ∀ dtype sum result, SumForm.HasType dtype sum →
    recombine? setting fuel sum = some (some result) → result.HasType dtype

variable {setting : Setting} {fuel : Nat}

theorem typed_zero : Typed setting 0 where
  flatten _ _ flattened := by cases flattened
  flattenChildren _ _ flattened := by cases flattened
  sumOf _ _ _ _ isSum := by cases isSum
  binarySum _ _ _ _ _ _ _ isSum := by cases isSum
  recombine _ _ _ _ recombined := by cases recombined

theorem Typed.flattenChildren_succ (typed : Typed setting fuel) {expr result : Expr}
    (flattened : flattenChildren? setting (fuel + 1) expr = some result) : result.KeepsType expr := by
  obtain ⟨children, areChildren, rfl⟩ := Option.map_eq_some_iff.mp flattened
  have keeps : List.Forall₂ KeepsType children expr.children :=
    ((forall₂_of_mapM areChildren).imp fun child result found => typed.flatten child result found).flip
  exact fun type isType => isType.withChildren keeps

theorem Typed.leaf (typed : Typed setting fuel) {expr : Expr} (isType : expr.HasType dtype)
    {result : SumForm} (isLeaf : (flattenChildren? setting fuel expr).map .ofLeaf = some result) :
    result.HasType dtype := by
  obtain ⟨leaf, flattened, rfl⟩ := Option.map_eq_some_iff.mp isLeaf
  exact SumForm.hasType_ofLeaf (typed.flattenChildren expr leaf flattened dtype isType)

/-- The operands of a node of integers have the type of the node. -/
theorem hasType_operands {type : DataType} {op : BinaryOp} {lhs rhs : Expr}
    (isType : (binary type op lhs rhs).HasType dtype) (isInteger : dtype.isInteger = true) :
    lhs.HasType dtype ∧ rhs.HasType dtype := by
  obtain ⟨operand, left, right, -, -, same⟩ := hasType_binary.mp isType
  rw [binaryType] at same
  split at same
  next =>
    rw [same] at isInteger
    cases isInteger
  next => exact ⟨same ▸ left, same ▸ right⟩

theorem Typed.sumOf_succ (typed : Typed setting fuel) {expr : Expr} (isType : expr.HasType dtype)
    {result : SumForm} (isSum : sumOf? setting (fuel + 1) expr = some result) :
    result.HasType dtype := by
  unfold sumOf? at isSum
  split at isSum
  next type number =>
    obtain rfl : type = dtype := isType.isType
    split at isSum
    · cases isSum
      exact SumForm.hasType_ofInt number
    · cases isSum
      exact SumForm.hasType_ofLeaf isType
  next type op lhs rhs =>
    obtain rfl : type = dtype := isType.isType
    split at isSum
    next isIndex =>
      obtain ⟨left, right⟩ := hasType_operands isType (Bool.and_eq_true_iff.mp isIndex).1
      obtain ⟨sum?, isSum?, isSum⟩ := Option.bind_eq_some_iff.mp isSum
      split at isSum
      next sum =>
        have isBinary := typed.binarySum type op lhs rhs sum left right isSum?
        obtain ⟨recombined?, isRecombined, isSum⟩ := Option.bind_eq_some_iff.mp isSum
        split at isSum
        next =>
          cases isSum
          exact typed.recombine type sum _ isBinary isRecombined
        next => exact typed.leaf isType isSum
      next => exact typed.leaf isType isSum
    next => exact typed.leaf isType isSum
  next => exact typed.leaf isType isSum

theorem Typed.binarySum_succ (typed : Typed setting fuel) (keeps : setting.divide.KeepsType)
    {op : BinaryOp} {lhs rhs : Expr} (left : lhs.HasType dtype) (right : rhs.HasType dtype)
    {result : SumForm} (isSum : binarySum? setting (fuel + 1) op lhs rhs = some (some result)) :
    result.HasType dtype := by
  -- the sum forms of both operands, for the operators that are computed on sum forms
  have operands {compute : SumForm → SumForm → Option SumForm}
      (computed : ((sumOf? setting fuel lhs).bind fun left =>
        (sumOf? setting fuel rhs).bind fun right => some (compute left right)) = some (some result)) :
      ∃ left right, compute left right = some result ∧ left.HasType dtype ∧ right.HasType dtype := by
    obtain ⟨leftSum, isLeft, computed⟩ := Option.bind_eq_some_iff.mp computed
    obtain ⟨rightSum, isRight, equal⟩ := Option.bind_eq_some_iff.mp computed
    exact ⟨leftSum, rightSum, Option.some.inj equal, typed.sumOf dtype lhs leftSum left isLeft,
      typed.sumOf dtype rhs rightSum right isRight⟩
  unfold binarySum? at isSum
  split at isSum
  next =>
    obtain ⟨_, _, added, isLeft, isRight⟩ := operands isSum
    exact isLeft.add isRight added
  next =>
    obtain ⟨_, _, subtracted, isLeft, isRight⟩ := operands isSum
    exact isLeft.sub isRight subtracted
  next =>
    obtain ⟨_, _, multiplied, isLeft, isRight⟩ := operands isSum
    exact isLeft.mul isRight multiplied
  next =>
    split at isSum
    next kind divisor isKind isDivisor =>
      split at isSum
      next => cases isSum
      next =>
        obtain ⟨dividend, isDividend, equal⟩ := Option.bind_eq_some_iff.mp isSum
        exact (typed.sumOf dtype lhs dividend left isDividend).split keeps left.sound
          (Option.some.inj equal)
    next => cases isSum

theorem Typed.recombine_succ (typed : Typed setting fuel) {sum result : SumForm}
    (isSum : sum.HasType dtype)
    (recombined : recombine? setting (fuel + 1) sum = some (some result)) : result.HasType dtype := by
  unfold recombine? at recombined
  split at recombined
  next =>
    cases recombined
    exact isSum
  next pair found =>
    obtain ⟨divisor, kind, -, -, isQuotient, -, inTerms, -⟩ := SumForm.exists_of_findPair? found
    have isDividend : pair.dividend.HasType dtype :=
      isSum.atoms _ inTerms (.split pair.dividend divisor kind) (by simp [isQuotient])
    obtain ⟨dividend, dividendSum, recombined⟩ := Option.bind_eq_some_iff.mp recombined
    split at recombined
    next together isSome =>
      obtain ⟨multiple, scaled, added⟩ := Option.bind_eq_some_iff.mp isSome
      have isMultiple := (typed.sumOf dtype _ dividend isDividend dividendSum).scale scaled
      exact typed.recombine dtype together result ((isSum.filter _ sum.constant).add isMultiple added)
        recombined
    next => cases recombined

theorem Typed.flatten_succ (typed : Typed setting fuel) (keeps : setting.divide.KeepsType)
    {expr result : Expr} (flattened : flatten? setting (fuel + 1) expr = some result) :
    result.KeepsType expr := by
  intro dtype isType
  unfold flatten? at flattened
  split at flattened
  next type op lhs rhs =>
    split at flattened
    next isComparison =>
      simp only [isScalarComparison, Bool.and_eq_true] at isComparison
      obtain ⟨operand, left, right, -, -, rfl⟩ := hasType_binary.mp isType
      have scalar : operand.lanes = 1 := by
        rw [← left.isType]
        exact beq_iff_eq.mp isComparison.2
      obtain ⟨leftSum, isLeft, flattened⟩ := Option.bind_eq_some_iff.mp flattened
      obtain ⟨rightSum, isRight, flattened⟩ := Option.bind_eq_some_iff.mp flattened
      split at flattened
      next rebuilt isSome =>
        cases flattened
        obtain ⟨difference, subtracted, compared⟩ := Option.bind_eq_some_iff.mp isSome
        have isDifference := (typed.sumOf operand lhs leftSum left isLeft).sub
          (typed.sumOf operand rhs rightSum right isRight) subtracted
        rw [binaryType, if_pos isComparison.1.1, scalar]
        exact isDifference.comparison keeps left.sound scalar compared
      next => exact typed.flattenChildren _ result flattened _ isType
    next =>
      split at flattened
      next =>
        obtain ⟨sum, isSum, flattened⟩ := Option.bind_eq_some_iff.mp flattened
        split at flattened
        next rebuilt isSome =>
          cases flattened
          exact (typed.sumOf dtype _ sum isType isSum).expr isType.sound isSome
        next => exact typed.flattenChildren _ result flattened _ isType
      next => exact typed.flattenChildren _ result flattened _ isType
  next => exact typed.flattenChildren _ result flattened _ isType

/-! ### Every depth of the recursion -/

theorem typed_of_keepsType (keeps : setting.divide.KeepsType) (fuel : Nat) : Typed setting fuel := by
  induction fuel with
  | zero => exact typed_zero
  | succ fuel typed =>
    exact {
      flatten := fun expr result => typed.flatten_succ keeps
      flattenChildren := fun expr result => typed.flattenChildren_succ
      sumOf := fun dtype expr sum isType => typed.sumOf_succ isType
      binarySum := fun dtype op lhs rhs sum left right => typed.binarySum_succ keeps left right
      recombine := fun dtype sum result isSum => typed.recombine_succ isSum }

/-- Flattening keeps types if the division of sums does. -/
theorem flatten_keepsType (keeps : setting.divide.KeepsType) (expr : Expr) :
    (flatten setting expr).KeepsType expr := by
  intro type isType
  unfold flatten
  cases flattened : flatten? setting (fuelFor setting expr) expr with
  | none => exact isType
  | some result => exact (typed_of_keepsType keeps _).flatten expr result flattened type isType

end Flattening

end IndexAlgebra
