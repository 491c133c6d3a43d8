/-
This file proves that like terms meet however far apart they stand. Sums obey the laws of commutative
rings wherever the operations have results. So expressions that are built of leaves and constants by
sums, differences and products, and that are equal by those laws, have the same sum form, as long as
no sum on the way leaves the range of words or grows too large.
-/
import IndexAlgebra.Analyzer.Canonical
import IndexAlgebra.Proofs.FlatteningFuel
import IndexAlgebra.Proofs.SumCanonical

namespace IndexAlgebra

/-! ### Expressions over leaves -/

namespace Expr

/-- The sum form does not look into the expression: it is no constant, no sum, difference or product,
and no division by a constant other than zero. -/
def isLeaf : Expr → Bool
  | intConst .. => false
  | binary _ op _ rhs =>
    !(op == .add || op == .sub || op == .mul || op.isDivision && rhs.asInt?.any (· ≠ 0))
  | _ => true

/-- The value in the ring of integers, where the leaves have the given values. -/
def ringValue (leaves : Expr → Int) : Expr → Int
  | intConst _ value => value
  | binary _ .add lhs rhs => ringValue leaves lhs + ringValue leaves rhs
  | binary _ .sub lhs rhs => ringValue leaves lhs - ringValue leaves rhs
  | binary _ .mul lhs rhs => ringValue leaves lhs * ringValue leaves rhs
  | leaf => leaves leaf

theorem ringValue_of_isLeaf {expr : Expr} (isLeaf : expr.isLeaf = true) (leaves : Expr → Int) :
    expr.ringValue leaves = leaves expr := by
  cases expr with
  | intConst => cases isLeaf
  | binary dtype op lhs rhs => cases op <;> first | rfl | cases isLeaf
  | _ => rfl

end Expr

namespace Flattening

open SumForm

variable {setting : Setting} {dtype : DataType} {fuel : Nat} {expr expr' lhs rhs : Expr}
  {sum sum' left right : SumForm}

/-- The sum is that of an expression over leaves, and no operation on the way is without a result. -/
inductive Expands (setting : Setting) (dtype : DataType) : Expr → SumForm → Prop
  | constant (value : Int) : Expands setting dtype (.intConst dtype value) (.ofInt dtype value)
  | leaf {expr : Expr} {sum : SumForm} (isLeaf : expr.isLeaf = true) (isType : expr.dtype = dtype)
      (fuel : Nat) (isSum : sumOf? setting fuel expr = some sum) : Expands setting dtype expr sum
  | add {lhs rhs : Expr} {left right sum : SumForm} (isLeft : Expands setting dtype lhs left)
      (isRight : Expands setting dtype rhs right) (added : left.add? right = some sum) :
      Expands setting dtype (.binary dtype .add lhs rhs) sum
  | sub {lhs rhs : Expr} {left right sum : SumForm} (isLeft : Expands setting dtype lhs left)
      (isRight : Expands setting dtype rhs right) (subtracted : left.sub? right = some sum) :
      Expands setting dtype (.binary dtype .sub lhs rhs) sum
  | mul {lhs rhs : Expr} {left right sum : SumForm} (isLeft : Expands setting dtype lhs left)
      (isRight : Expands setting dtype rhs right)
      (multiplied : left.mul? right setting.maxTerms = some sum) :
      Expands setting dtype (.binary dtype .mul lhs rhs) sum

/-! ### Leaves -/

theorem binarySum?_of_isLeaf {op : BinaryOp} (isLeaf : (Expr.binary dtype op lhs rhs).isLeaf = true) :
    binarySum? setting (fuel + 1) op lhs rhs = some none := by
  unfold binarySum?
  split
  next => cases isLeaf
  next => cases isLeaf
  next => cases isLeaf
  next =>
    split
    next kind divisor isKind isDivisor =>
      split
      next => rfl
      next nonzero =>
        have division : op.isDivision = true := by
          rw [← (by simpa using List.find?_some isKind : kind.op = op)]
          cases kind <;> rfl
        simp [Expr.isLeaf, division, isDivisor, nonzero] at isLeaf
    next => rfl

/-- A leaf is an atom, with its operands flattened. -/
theorem exists_eq_ofLeaf (isLeaf : expr.isLeaf = true) (isSum : sumOf? setting fuel expr = some sum) :
    ∃ leaf : Expr, leaf.dtype = expr.dtype ∧ sum = .ofLeaf leaf := by
  have ofChildren {fuel : Nat}
      (isAtom : (flattenChildren? setting fuel expr).map .ofLeaf = some sum) :
      ∃ leaf : Expr, leaf.dtype = expr.dtype ∧ sum = .ofLeaf leaf := by
    obtain ⟨leaf, flattened, rfl⟩ := Option.map_eq_some_iff.mp isAtom
    cases fuel with
    | zero => cases flattened
    | succ fuel =>
      obtain ⟨children, -, rfl⟩ := Option.map_eq_some_iff.mp flattened
      exact ⟨_, Expr.dtype_withChildren expr children, rfl⟩
  cases fuel with
  | zero => cases isSum
  | succ fuel =>
    unfold sumOf? at isSum
    split at isSum
    next => cases isLeaf
    next dtype op lhs rhs =>
      split at isSum
      next =>
        cases fuel with
        | zero => cases isSum
        | succ fuel =>
          rw [binarySum?_of_isLeaf isLeaf] at isSum
          exact ofChildren isSum
      next => exact ofChildren isSum
    next => exact ofChildren isSum

/-- Integers for the atoms give integers for the leaves, since an expression has one sum form. -/
theorem exists_leafValues (setting : Setting) (values : Atom → Int) :
    ∃ leaves : Expr → Int, ∀ fuel expr sum, sumOf? setting fuel expr = some sum →
      leaves expr = sum.valueAt values := by
  have each (expr : Expr) : ∃ value, ∀ fuel sum, sumOf? setting fuel expr = some sum →
      value = sum.valueAt values := by
    by_cases isSome : ∃ fuel sum, sumOf? setting fuel expr = some sum
    · obtain ⟨fuel, sum, isSum⟩ := isSome
      exact ⟨sum.valueAt values, fun _ _ isSum' => by rw [sumOf?_unique isSum isSum']⟩
    · exact ⟨0, fun fuel sum isSum => absurd ⟨fuel, sum, isSum⟩ isSome⟩
  choose leaves isValue using each
  exact ⟨leaves, fun fuel expr sum => isValue expr fuel sum⟩

/-! ### Expansions -/

/-- The product is sorted, and its factors are expressions. -/
structure OfLeaves (product : Product) : Prop where
  sorted : product.Sorted
  leaves : ∀ atom ∈ product, ∃ expr, atom = .leaf expr

theorem ofLeaves_mul (first second : Product) (isFirst : OfLeaves first)
    (isSecond : OfLeaves second) : OfLeaves (first.mul second) :=
  ⟨Product.sorted_mul first second, fun atom member =>
    (Product.mem_mul.mp member).elim (isFirst.leaves atom) (isSecond.leaves atom)⟩

/-- The sum of an expression over leaves has its value in the ring of integers. -/
theorem Expands.represents (expands : Expands setting dtype expr sum)
    {leaves : (Atom → Int) → Expr → Int} (isValue : ∀ values fuel expr sum,
      sumOf? setting fuel expr = some sum → leaves values expr = sum.valueAt values) :
    sum.Represents OfLeaves dtype (expr.ringValue fun _ => 0)
      fun values => expr.ringValue (leaves values) := by
  induction expands with
  | constant value => exact represents_ofInt value
  | leaf isLeaf isType fuel isSum =>
    obtain ⟨leaf, sameType, rfl⟩ := exists_eq_ofLeaf isLeaf isSum
    have isAtom : (ofLeaf leaf).Represents OfLeaves dtype 0 fun values => values (.leaf leaf) := by
      rw [ofLeaf, sameType.trans isType]
      exact represents_ofAtom ⟨List.pairwise_singleton _ _, by simp⟩
    refine isAtom.congr ?_ fun values => ?_
    · rw [Expr.ringValue_of_isLeaf isLeaf]
    · rw [Expr.ringValue_of_isLeaf isLeaf, isValue values fuel _ _ isSum]
      exact (isAtom.totals values).value_eq.symm
  | add _ _ added isLeft isRight => exact isLeft.add isRight added
  | sub _ _ subtracted isLeft isRight => exact isLeft.sub isRight subtracted
  | mul _ _ multiplied isLeft isRight => exact isLeft.mul ofLeaves_mul isRight multiplied

theorem findPair?_eq_none (leaves : ∀ term ∈ sum.terms, OfLeaves term.1) :
    sum.findPair? = none := by
  refine List.findSome?_eq_none_iff.mpr fun term member => ?_
  unfold pairOf?
  split
  next dividend divisor kind coefficient =>
    obtain ⟨_, isLeaf⟩ := (leaves _ member).leaves _ List.mem_cons_self
    cases isLeaf
  next => rfl

/-- Two expressions with sum forms have them with the same fuel. -/
theorem exists_sumOf_both (hasLeft : ∃ fuel, sumOf? setting fuel lhs = some left)
    (hasRight : ∃ fuel, sumOf? setting fuel rhs = some right) :
    ∃ fuel, ∀ more, fuel ≤ more →
      sumOf? setting more lhs = some left ∧ sumOf? setting more rhs = some right := by
  obtain ⟨fuel, isLeft⟩ := hasLeft
  obtain ⟨fuel', isRight⟩ := hasRight
  exact ⟨max fuel fuel', fun more enough =>
    ⟨(grows_of_le ((Nat.le_max_left fuel fuel').trans enough)).sumOf lhs left isLeft,
      (grows_of_le ((Nat.le_max_right fuel fuel').trans enough)).sumOf rhs right isRight⟩⟩

section

variable (isInteger : dtype.isInteger = true) (scalar : dtype.lanes = 1)
include isInteger scalar

theorem sumOf?_constant (value : Int) :
    sumOf? setting 1 (.intConst dtype value) = some (.ofInt dtype value) := by
  unfold sumOf?
  exact if_pos (by simp [isInteger, DataType.isScalar, scalar])

/-- The sum form of a node whose operands are summed up and have no quotients. -/
theorem sumOf?_binary {op : BinaryOp} (isSum : binarySum? setting (fuel + 1) op lhs rhs = some (some sum))
    (leaves : ∀ term ∈ sum.terms, OfLeaves term.1) :
    sumOf? setting (fuel + 2) (.binary dtype op lhs rhs) = some sum := by
  have isRecombined : recombine? setting (fuel + 1) sum = some (some sum) := by
    unfold recombine?
    rw [findPair?_eq_none leaves]
    rfl
  unfold sumOf?
  dsimp only
  rw [if_pos (by simp [isInteger, DataType.isScalar, scalar]), isSum]
  simp only [Option.bind_eq_bind, Option.bind_some, isRecombined]
  rfl

/-- A node has the sum form that its operator gives of those of its operands. -/
theorem exists_sumOf_binary {op : BinaryOp} (hasLeft : ∃ fuel, sumOf? setting fuel lhs = some left)
    (hasRight : ∃ fuel, sumOf? setting fuel rhs = some right)
    (computes : ∀ fuel, sumOf? setting fuel lhs = some left → sumOf? setting fuel rhs = some right →
      binarySum? setting (fuel + 1) op lhs rhs = some (some sum))
    (leaves : ∀ term ∈ sum.terms, OfLeaves term.1) :
    ∃ fuel, sumOf? setting fuel (.binary dtype op lhs rhs) = some sum := by
  obtain ⟨fuel, both⟩ := exists_sumOf_both hasLeft hasRight
  obtain ⟨isLeft, isRight⟩ := both fuel (Nat.le_refl fuel)
  exact ⟨fuel + 2, sumOf?_binary isInteger scalar (computes fuel isLeft isRight) leaves⟩

/-- The sum form of an expression over leaves is the sum that its operations give. -/
theorem Expands.exists_sumOf (expands : Expands setting dtype expr sum) :
    ∃ fuel, sumOf? setting fuel expr = some sum := by
  obtain ⟨leaves, isValue⟩ := Classical.skolem.mp (exists_leafValues setting)
  have ofLeaves {expr : Expr} {sum : SumForm} (expands : Expands setting dtype expr sum) :
      ∀ term ∈ sum.terms, OfLeaves term.1 :=
    (expands.represents isValue).reduced.allowed
  induction expands with
  | constant value => exact ⟨1, sumOf?_constant isInteger scalar value⟩
  | leaf _ _ fuel isSum => exact ⟨fuel, isSum⟩
  | add isLeft isRight added hasLeft hasRight =>
    refine exists_sumOf_binary isInteger scalar hasLeft hasRight (fun fuel first second => ?_)
      (ofLeaves (.add isLeft isRight added))
    simp [binarySum?, first, second, added]
  | sub isLeft isRight subtracted hasLeft hasRight =>
    refine exists_sumOf_binary isInteger scalar hasLeft hasRight (fun fuel first second => ?_)
      (ofLeaves (.sub isLeft isRight subtracted))
    simp [binarySum?, first, second, subtracted]
  | mul isLeft isRight multiplied hasLeft hasRight =>
    refine exists_sumOf_binary isInteger scalar hasLeft hasRight (fun fuel first second => ?_)
      (ofLeaves (.mul isLeft isRight multiplied))
    simp [binarySum?, first, second, multiplied]

/-- Expressions over leaves with the same value in the ring of integers have the same sum form. -/
theorem Expands.same_sumOf (expands : Expands setting dtype expr sum)
    (expands' : Expands setting dtype expr' sum')
    (same : ∀ leaves, expr.ringValue leaves = expr'.ringValue leaves) :
    ∃ fuel, ∀ more, fuel ≤ more →
      sumOf? setting more expr = some sum ∧ sumOf? setting more expr' = some sum := by
  obtain ⟨leaves, isValue⟩ := Classical.skolem.mp (exists_leafValues setting)
  have isFirst := (expands.represents isValue).mono fun _ => OfLeaves.sorted
  have isSecond := (expands'.represents isValue).mono fun _ => OfLeaves.sorted
  obtain rfl := isFirst.unique isSecond (same _) fun values => same (leaves values)
  exact exists_sumOf_both (expands.exists_sumOf isInteger scalar)
    (expands'.exists_sumOf isInteger scalar)

end

end Flattening

/-! ### The laws of rings -/

namespace SumForm

/-- The two are equal wherever both have a result. -/
def Agree (first second : Option SumForm) : Prop :=
  ∀ left right, first = some left → second = some right → left = right

variable {first second third : SumForm}

/-- Sums of one type are a commutative ring as far as the operations have results: both sides of a law
are the same data. Hence two expressions over leaves that are equal in every ring, as they are if their
values agree for all integers, have the same sum form. -/
theorem ring_laws_agree (isFirst : first.Canonical) (isSecond : second.Canonical)
    (isThird : third.Canonical) (sameType : second.dtype = first.dtype)
    (sameType' : third.dtype = first.dtype) :
    Agree (first.add? second) (second.add? first) ∧
      Agree ((first.add? second).bind (·.add? third)) ((second.add? third).bind first.add?) ∧
      (∀ maxTerms maxTerms', Agree (first.mul? second maxTerms) (second.mul? first maxTerms')) ∧
      (∀ maxTerms maxTerms', Agree ((first.mul? second maxTerms).bind (·.mul? third maxTerms))
        ((second.mul? third maxTerms').bind (first.mul? · maxTerms'))) ∧
      (∀ maxTerms maxTerms', Agree ((second.add? third).bind (first.mul? · maxTerms))
        ((first.mul? second maxTerms').bind fun product =>
          (first.mul? third maxTerms').bind product.add?)) ∧
      (∀ maxTerms, Agree (first.sub? second)
        ((second.mul? (ofInt second.dtype (-1)) maxTerms).bind first.add?)) ∧
      Agree (first.sub? first) (some (ofInt first.dtype 0)) ∧
      ∀ setting dtype expr expr' sum sum', dtype.isInteger = true → dtype.lanes = 1 →
        Flattening.Expands setting dtype expr sum → Flattening.Expands setting dtype expr' sum' →
        (∀ leaves, expr.ringValue leaves = expr'.ringValue leaves) →
        ∃ fuel, ∀ more, fuel ≤ more → Flattening.sumOf? setting more expr = some sum ∧
          Flattening.sumOf? setting more expr' = some sum := by
  have a := isFirst.represents rfl
  have b := isSecond.represents sameType
  have c := isThird.represents sameType'
  have sorted (first second : Product) (_ : first.Sorted) (_ : second.Sorted) :
      (first.mul second).Sorted := first.sorted_mul second
  refine ⟨fun _ _ left right => ?_, fun _ _ left right => ?_, fun _ _ _ _ left right => ?_,
    fun _ _ _ _ left right => ?_, fun _ _ _ _ left right => ?_, fun _ _ _ left right => ?_,
    fun _ _ left right => ?_, fun _ _ _ _ _ _ isInteger scalar expands expands' same =>
      expands.same_sumOf isInteger scalar expands' same⟩
  · exact (a.add b left).unique (b.add a right) (add_comm _ _) fun _ => add_comm _ _
  · obtain ⟨_, inner, left⟩ := Option.bind_eq_some_iff.mp left
    obtain ⟨_, inner', right⟩ := Option.bind_eq_some_iff.mp right
    exact ((a.add b inner).add c left).unique (a.add (b.add c inner') right) (add_assoc _ _ _)
      fun _ => add_assoc _ _ _
  · exact (a.mul sorted b left).unique (b.mul sorted a right) (mul_comm _ _) fun _ => mul_comm _ _
  · obtain ⟨_, inner, left⟩ := Option.bind_eq_some_iff.mp left
    obtain ⟨_, inner', right⟩ := Option.bind_eq_some_iff.mp right
    exact ((a.mul sorted b inner).mul sorted c left).unique
      (a.mul sorted (b.mul sorted c inner') right) (mul_assoc _ _ _) fun _ => mul_assoc _ _ _
  · obtain ⟨_, inner, left⟩ := Option.bind_eq_some_iff.mp left
    obtain ⟨_, product, right⟩ := Option.bind_eq_some_iff.mp right
    obtain ⟨_, product', right⟩ := Option.bind_eq_some_iff.mp right
    exact (a.mul sorted (b.add c inner) left).unique
      ((a.mul sorted b product).add (a.mul sorted c product') right) (mul_add _ _ _)
      fun _ => mul_add _ _ _
  · obtain ⟨_, opposite, right⟩ := Option.bind_eq_some_iff.mp right
    have minusOne : (ofInt second.dtype (-1)).Represents Product.Sorted first.dtype (-1) fun _ => -1 :=
      sameType ▸ represents_ofInt (-1)
    exact (a.sub b left).unique (a.add (b.mul sorted minusOne opposite) right) (by ring)
      fun _ => by ring
  · cases right
    exact (a.sub a left).unique (represents_ofInt 0) (sub_self _) fun _ => sub_self _

/-- Like terms meet: `x * 3 - 4 * x + 1` is `1 - x`, and `x + (1 - x)` is `(1 - x) + x`. -/
theorem ring_laws_agree_like_terms :
    let name : Variable := ⟨"x", .int32, false⟩
    let node := Expr.binary .int32
    let number := Expr.intConst .int32
    let left := node .add (node .sub (node .mul name.expr (number 3)) (node .mul (number 4) name.expr))
      (number 1)
    let right := node .sub (number 1) name.expr
    let form : SumForm := ⟨.int32, [([.leaf name.expr], -1)], 1⟩
    Agree ((ofLeaf name.expr).add? form) (form.add? (ofLeaf name.expr)) ∧
      ∃ fuel, ∀ more, fuel ≤ more →
        Flattening.sumOf? ({} : Analyzer).flattening more left = some form ∧
          Flattening.sumOf? ({} : Analyzer).flattening more right = some form := by
  intro name node number left right form
  have isLeaf : Flattening.Expands ({} : Analyzer).flattening .int32 name.expr (ofLeaf name.expr) :=
    .leaf rfl rfl 2 rfl
  have expands : Flattening.Expands ({} : Analyzer).flattening .int32 left form := by
    have first : (ofLeaf name.expr).mul? (.ofInt .int32 3) 64 =
      some ⟨.int32, [([.leaf name.expr], 3)], 0⟩ := by decide
    have second : (ofInt .int32 4).mul? (.ofLeaf name.expr) 64 =
      some ⟨.int32, [([.leaf name.expr], 4)], 0⟩ := by decide
    have difference : SumForm.sub? ⟨.int32, [([.leaf name.expr], 3)], 0⟩
        ⟨.int32, [([.leaf name.expr], 4)], 0⟩ = some ⟨.int32, [([.leaf name.expr], -1)], 0⟩ := by
      decide
    exact .add (.sub (.mul isLeaf (.constant 3) first) (.mul (.constant 4) isLeaf second) difference)
      (.constant 1) (by decide)
  have expands' : Flattening.Expands ({} : Analyzer).flattening .int32 right form :=
    .sub (.constant 1) isLeaf rfl
  have isSum : form.Canonical := ⟨⟨by decide, by decide⟩, by decide⟩
  have isAtom : (ofLeaf name.expr).Canonical := ⟨⟨by decide, by decide⟩, by decide⟩
  obtain ⟨commutes, -, -, -, -, -, -, flattens⟩ := ring_laws_agree isAtom isSum isSum rfl rfl
  refine ⟨commutes, flattens _ _ _ _ _ _ rfl rfl expands expands' fun leaves => ?_⟩
  show leaves name.expr * 3 - 4 * leaves name.expr + 1 = 1 - leaves name.expr
  ring

end SumForm

end IndexAlgebra
