/-
This file proves that the arithmetic of sums is that of integers. Whatever integers the atoms stand
for, an operation that has a result gives the sum, the difference, the multiple or the product of
the values, and its terms are reduced: they are in order, no coefficient is zero, and the products
are sorted where those of the operands are. A sum as an expression has the same value once more.
-/
import IndexAlgebra.Proofs.SumExpr
import IndexAlgebra.Proofs.SumMagnitude

namespace IndexAlgebra

/-- The factors of the product are in order. -/
def Product.Sorted (product : Product) : Prop :=
  product.Pairwise fun first second => Atom.compare first second ≠ .gt

instance (product : Product) : Decidable product.Sorted :=
  inferInstanceAs (Decidable (product.Pairwise _))

theorem Product.sorted_mul (left right : Product) : (left.mul right).Sorted := by
  have trans (first second third : Atom) (less : (Atom.compare first second != .gt) = true)
      (less' : (Atom.compare second third != .gt) = true) :
      (Atom.compare first third != .gt) = true := by
    simp only [bne_iff_ne, Ordering.ne_gt_iff_isLE] at *
    exact Std.TransCmp.isLE_trans less less'
  have total (first second : Atom) :
      (Atom.compare first second != .gt || Atom.compare second first != .gt) = true := by
    have swapped : Atom.compare second first = (Atom.compare first second).swap :=
      Std.OrientedCmp.eq_swap
    rw [swapped]
    cases Atom.compare first second <;> rfl
  simpa [Sorted, mul] using List.pairwise_mergeSort trans total (left ++ right)

namespace SumForm

variable {allowed : Product → Prop} {dtype : DataType} {left right sum result : SumForm}
  {product : Product} {coefficient constant first second : Int}

/-- The value of the sum when its atoms stand for the given integers. -/
def valueAt (values : Atom → Int) (sum : SumForm) : Int :=
  termsAt values sum.terms + sum.constant

/-- The terms are in order, and no coefficient is zero. -/
structure Normal (sum : SumForm) : Prop where
  inOrder : InOrder sum.terms
  nonZero : sum.NonZero

/-- Every product of the sum is sorted. -/
def SortedKeys (sum : SumForm) : Prop := ∀ term ∈ sum.terms, term.1.Sorted

instance (sum : SumForm) : Decidable sum.SortedKeys :=
  inferInstanceAs (Decidable (∀ term ∈ sum.terms, _))

/-! ### Coefficients and products -/

/-- The sum has the constant, no coefficient is zero, and every product is allowed. -/
structure Reduced (allowed : Product → Prop) (constant : Int) (sum : SumForm) : Prop where
  constant_eq : sum.constant = constant
  nonZero : sum.NonZero
  allowed : ∀ term ∈ sum.terms, allowed term.1

/-- The step leaves the constant as it is and the terms reduced. -/
def KeepsReduced (allowed : Product → Prop) (step : SumForm → Option SumForm) : Prop :=
  ∀ constant sum result, Reduced allowed constant sum → step sum = some result →
    Reduced allowed constant result

theorem reduced_ofInt (dtype : DataType) (constant : Int) :
    (ofInt dtype constant).Reduced allowed constant :=
  ⟨rfl, fun _ member => absurd member List.not_mem_nil, fun _ member => absurd member List.not_mem_nil⟩

theorem nonZero_insertTerm? {terms inserted : List (Product × Int)} (nonzero : coefficient ≠ 0)
    (each : ∀ term ∈ terms, term.2 ≠ 0)
    (inserts : insertTerm? product coefficient terms = some inserted) :
    ∀ term ∈ inserted, term.2 ≠ 0 := by
  induction terms generalizing inserted with
  | nil =>
    cases inserts
    simpa using nonzero
  | cons head rest inductionHypothesis =>
    obtain ⟨first, value⟩ := head
    obtain ⟨isFirst, areRest⟩ := List.forall_mem_cons.mp each
    rw [insertTerm?] at inserts
    split at inserts
    next =>
      cases inserts
      exact List.forall_mem_cons.mpr ⟨nonzero, each⟩
    next =>
      obtain ⟨total, -, rfl⟩ := Option.map_eq_some_iff.mp inserts
      split
      next => exact areRest
      next remains => exact List.forall_mem_cons.mpr ⟨remains, areRest⟩
    next =>
      obtain ⟨tail, isTail, rfl⟩ := Option.map_eq_some_iff.mp inserts
      exact List.forall_mem_cons.mpr ⟨isFirst, inductionHypothesis areRest isTail⟩

theorem keepsReduced_term (isAllowed : allowed product) (coefficient : Int) :
    KeepsReduced allowed fun sum => sum.addTerm? product coefficient := by
  intro constant sum result reduced added
  unfold addTerm? at added
  split at added
  next =>
    cases added
    exact reduced
  next nonzero =>
    obtain ⟨terms, inserts, rfl⟩ := Option.map_eq_some_iff.mp added
    refine ⟨reduced.constant_eq, nonZero_insertTerm? nonzero reduced.nonZero inserts, ?_⟩
    intro term member
    rcases mem_insertTerm? inserts member with same | ⟨old, isOld, same⟩
    · exact same ▸ isAllowed
    · exact same ▸ reduced.allowed old isOld

theorem keepsReduced_product (isAllowed : allowed product) (left right : Int) :
    KeepsReduced allowed (fun sum => do sum.addTerm? product (← Word.mul? left right)) := by
  intro constant sum result reduced added
  obtain ⟨coefficient, -, added⟩ := Option.bind_eq_some_iff.mp added
  exact keepsReduced_term isAllowed coefficient constant sum result reduced added

theorem keepsReduced_foldlM {β : Type} {step : SumForm → β → Option SumForm} {parts : List β}
    (each : ∀ part ∈ parts, KeepsReduced allowed fun sum => step sum part) :
    KeepsReduced allowed fun sum => parts.foldlM step sum := by
  refine foldlM_of_steps (fun (_ : Int) step => KeepsReduced allowed step) ?_
    (fun _ _ before after keeps keeps' => ?_) (fun _ => 0) each
  · intro constant sum result reduced same
    cases same
    exact reduced
  · intro constant sum result reduced moved
    obtain ⟨between, isBetween, moved⟩ := Option.bind_eq_some_iff.mp moved
    exact keeps' constant between result (keeps constant sum between reduced isBetween) moved

theorem Reduced.add (isLeft : left.Reduced allowed first) (isRight : right.Reduced allowed second)
    (added : left.add? right = some result) : result.Reduced allowed (first + second) := by
  obtain ⟨sum, folded, added⟩ := Option.bind_eq_some_iff.mp added
  obtain ⟨constant, isConstant, equal⟩ := Option.bind_eq_some_iff.mp added
  obtain ⟨-, rfl⟩ := Word.ofInt?_eq_some_iff.mp isConstant
  cases equal
  have terms := keepsReduced_foldlM
    (fun term member => keepsReduced_term (isRight.allowed term member) term.2) first left sum isLeft
    folded
  exact ⟨congrArg₂ (· + ·) terms.constant_eq isRight.constant_eq, terms.nonZero, terms.allowed⟩

theorem Reduced.scale {factor : Int} (reduced : sum.Reduced allowed constant)
    (scaled : sum.scale? factor = some result) : result.Reduced allowed (constant * factor) := by
  by_cases zero : factor = 0
  · rw [scale?, if_pos zero] at scaled
    cases scaled
    rw [zero, mul_zero]
    exact reduced_ofInt sum.dtype 0
  · obtain rfl := eq_of_scale? zero scaled
    refine ⟨congrArg (· * factor) reduced.constant_eq, ?_, ?_⟩
    · exact List.forall_mem_map.mpr fun term member => mul_ne_zero (reduced.nonZero term member) zero
    · exact List.forall_mem_map.mpr reduced.allowed

theorem Reduced.mul {maxTerms : Nat}
    (closed : ∀ first second : Product, allowed first → allowed second → allowed (first.mul second))
    (isLeft : left.Reduced allowed first) (isRight : right.Reduced allowed second)
    (multiplied : left.mul? right maxTerms = some result) :
    result.Reduced allowed (first * second) := by
  unfold mul? at multiplied
  split at multiplied
  next factor _ isConst =>
    have isFactor := (Option.ite_none_right_eq_some.mp isConst).2
    rw [← isRight.constant_eq, Option.some.inj isFactor]
    exact isLeft.scale multiplied
  next factor _ _ isConst =>
    have isFactor := (Option.ite_none_right_eq_some.mp isConst).2
    rw [← isLeft.constant_eq, Option.some.inj isFactor, mul_comm]
    exact isRight.scale multiplied
  next =>
    obtain ⟨-, multiplied⟩ := Option.ite_none_left_eq_some.mp multiplied
    obtain ⟨constant, isConstant, multiplied⟩ := Option.bind_eq_some_iff.mp multiplied
    obtain ⟨-, rfl⟩ := Word.ofInt?_eq_some_iff.mp isConstant
    obtain ⟨leftScaled, isLeftScaled, multiplied⟩ := Option.bind_eq_some_iff.mp multiplied
    obtain ⟨rightScaled, isRightScaled, multiplied⟩ := Option.bind_eq_some_iff.mp multiplied
    have scaled {sum : SumForm} {value : Int} (isSum : sum.Reduced allowed value) (factor : Int) :
        KeepsReduced allowed fun start => start.addScaled? sum.terms factor :=
      keepsReduced_foldlM fun term member => keepsReduced_product (isSum.allowed term member) _ _
    have products (term : Product × Int) (member : term ∈ left.terms) :
        KeepsReduced allowed fun start => start.addProducts? right.terms term :=
      keepsReduced_foldlM fun other isOther => keepsReduced_product
        (closed term.1 other.1 (isLeft.allowed term member) (isRight.allowed other isOther)) _ _
    rw [← isLeft.constant_eq, ← isRight.constant_eq]
    refine keepsReduced_foldlM products _ rightScaled result ?_ multiplied
    refine scaled isRight left.constant _ leftScaled rightScaled ?_ isRightScaled
    exact scaled isLeft right.constant _ _ leftScaled (reduced_ofInt left.dtype _) isLeftScaled

/-! ### Sums that represent a value -/

/-- The sum is reduced and in order, and it has the value that is given for every choice of integers
for the atoms. -/
structure Represents (allowed : Product → Prop) (dtype : DataType) (constant : Int)
    (value : (Atom → Int) → Int) (sum : SumForm) : Prop where
  reduced : sum.Reduced allowed constant
  totals : ∀ values, sum.Totals dtype (fun _ => True) values (value values)

section

variable {value value' : (Atom → Int) → Int}

theorem represents_self (normal : sum.Normal) (isAllowed : ∀ term ∈ sum.terms, allowed term.1) :
    sum.Represents allowed sum.dtype sum.constant fun values => sum.valueAt values :=
  ⟨⟨rfl, normal.nonZero, isAllowed⟩, fun _ =>
    ⟨rfl, normal.inOrder, fun _ _ _ _ => True.intro, rfl⟩⟩

theorem represents_ofInt (number : Int) :
    (ofInt dtype number).Represents allowed dtype number fun _ => number :=
  ⟨reduced_ofInt dtype number, fun _ => totals_ofInt number⟩

theorem represents_ofAtom {atom : Atom} (isAllowed : allowed [atom]) :
    (ofAtom dtype atom).Represents allowed dtype 0 fun values => values atom := by
  refine ⟨⟨rfl, ?_, ?_⟩, fun _ => totals_ofAtom True.intro⟩
  · simp [NonZero, ofAtom]
  · simpa [ofAtom] using isAllowed

theorem Represents.addTerm (isSum : sum.Represents allowed dtype constant value)
    (isAllowed : allowed product) (added : sum.addTerm? product coefficient = some result) :
    result.Represents allowed dtype constant fun values =>
      value values + coefficient * product.valueAt values :=
  ⟨keepsReduced_term isAllowed coefficient _ sum result isSum.reduced added, fun values =>
    adds_term (fun _ _ => True.intro) coefficient sum result _ (isSum.totals values) added⟩

theorem Represents.add (isLeft : left.Represents allowed dtype first value)
    (isRight : right.Represents allowed dtype second value')
    (added : left.add? right = some result) :
    result.Represents allowed dtype (first + second) fun values => value values + value' values :=
  ⟨isLeft.reduced.add isRight.reduced added, fun values =>
    (isLeft.totals values).add (isRight.totals values) added⟩

theorem Represents.scale {factor : Int} (isSum : sum.Represents allowed dtype constant value)
    (scaled : sum.scale? factor = some result) :
    result.Represents allowed dtype (constant * factor) fun values => value values * factor :=
  ⟨isSum.reduced.scale scaled, fun values => (isSum.totals values).scale scaled⟩

theorem Represents.sub (isLeft : left.Represents allowed dtype first value)
    (isRight : right.Represents allowed dtype second value')
    (subtracted : left.sub? right = some result) :
    result.Represents allowed dtype (first - second) fun values => value values - value' values := by
  refine ⟨?_, fun values => (isLeft.totals values).sub (isRight.totals values) subtracted⟩
  obtain ⟨opposite, isOpposite, added⟩ := Option.bind_eq_some_iff.mp subtracted
  have reduced := isLeft.reduced.add (isRight.reduced.scale isOpposite) added
  rwa [mul_neg_one, ← sub_eq_add_neg] at reduced

theorem Represents.mul {maxTerms : Nat}
    (closed : ∀ first second : Product, allowed first → allowed second → allowed (first.mul second))
    (isLeft : left.Represents allowed dtype first value)
    (isRight : right.Represents allowed dtype second value')
    (multiplied : left.mul? right maxTerms = some result) :
    result.Represents allowed dtype (first * second) fun values => value values * value' values :=
  ⟨isLeft.reduced.mul closed isRight.reduced multiplied, fun values =>
    (isLeft.totals values).mul (isRight.totals values) multiplied⟩

end

/-! ### All operations -/

/-- What the result of an operation is: a sum of the type in normal form with the value, whose
products are sorted if those of the operands are. -/
structure Computes (dtype : DataType) (sorted : Prop) (value : (Atom → Int) → Int) (sum : SumForm) :
    Prop where
  dtype_eq : sum.dtype = dtype
  normal : sum.Normal
  sortedKeys : sorted → sum.SortedKeys
  valueAt_eq : ∀ values, sum.valueAt values = value values

theorem Represents.computes {sorted : Prop} {value : (Atom → Int) → Int}
    (represents : sum.Represents (fun product => sorted → product.Sorted) dtype constant value) :
    sum.Computes dtype sorted value where
  dtype_eq := (represents.totals fun _ => 0).dtype_eq
  normal := ⟨(represents.totals fun _ => 0).inOrder, represents.reduced.nonZero⟩
  sortedKeys isSorted term member := represents.reduced.allowed term member isSorted
  valueAt_eq values := (represents.totals values).value_eq

theorem valueAt_partition (divisor : Int) (values : Atom → Int) :
    (sum.partition divisor).1.valueAt values + (sum.partition divisor).2.valueAt values =
      sum.valueAt values := by
  simp only [partition_eq, valueAt]
  rw [add_zero, ← add_assoc, termsAt_filter_add]

theorem mem_partition (nonZero : sum.NonZero) {divisor : Int} {term : Product × Int} :
    term ∈ (sum.partition divisor).1.terms ↔ term ∈ sum.terms ∧ divisor ∣ term.2 := by
  rw [partition_eq, List.mem_filter, Word.isMultiple_iff]
  refine and_congr_right fun member => and_iff_right_of_imp fun divides zero => ?_
  exact nonZero term member (Int.zero_dvd.mp (zero ▸ divides))

/-- A sum of scalar integers as an expression has the value of the sum, where its atoms have the
given values. -/
theorem evalExact_expr? {env : Environment} {values : Atom → Int} {expr : Expr}
    (isInteger : sum.dtype.isInteger = true) (scalar : sum.dtype.lanes = 1)
    (atoms : ∀ term ∈ sum.terms, ∀ atom ∈ term.1, ∀ factor, atom.expr? = some factor →
      factor.dtype = sum.dtype ∧ factor.evalExact env = some (.int (values atom)))
    (builds : sum.expr? = some expr) : expr.evalExact env = some (.int (sum.valueAt values)) := by
  have closed : sum.dtype.Closed fun expr => expr.dtype = sum.dtype :=
    ⟨isInteger, scalar, fun _ same => same, fun _ _ _ _ _ _ => rfl, fun _ _ => rfl⟩
  have denote : AtomsDenote (fun expr => expr.dtype = sum.dtype) (· = env) (fun _ => values)
      sum.terms := by
    intro term member atom isFactor factor isExpr
    obtain ⟨sameType, evaluated⟩ := atoms term member atom isFactor factor isExpr
    exact ⟨sameType, by rintro _ rfl; exact evaluated⟩
  exact (denotes_expr closed denote builds).evaluates env rfl

/-- The operation has a result where there is room for it, and its result is a sum with the value. -/
structure Performs (room : Prop) (dtype : DataType) (sorted : Prop) (value : (Atom → Int) → Int)
    (result? : Option SumForm) : Prop where
  exists_of_room : room → ∃ result, result? = some result
  computes : ∀ result, result? = some result → result.Computes dtype sorted value

/-- The operations on sums are those on integers, whatever integers the atoms stand for. They keep
sums in normal form and products sorted, and they have results as long as the magnitudes are words. -/
theorem operations_exact (isLeft : left.Normal) (isRight : right.Normal)
    (sameType : right.dtype = left.dtype) :
    let limit := Word.greatest.natAbs
    let sorted := left.SortedKeys ∧ right.SortedKeys
    Performs (left.magnitude + right.magnitude ≤ limit) left.dtype sorted
        (fun values => left.valueAt values + right.valueAt values) (left.add? right) ∧
      Performs (left.magnitude + right.magnitude ≤ limit) left.dtype sorted
        (fun values => left.valueAt values - right.valueAt values) (left.sub? right) ∧
      (∀ factor, Performs (left.magnitude * factor.natAbs ≤ limit) left.dtype left.SortedKeys
        (fun values => left.valueAt values * factor) (left.scale? factor)) ∧
      (∀ maxTerms, Performs (left.magnitude * right.magnitude ≤ limit ∧
          (left.terms.length + 1) * (right.terms.length + 1) ≤ maxTerms) left.dtype sorted
        (fun values => left.valueAt values * right.valueAt values) (left.mul? right maxTerms)) ∧
      (∀ product coefficient, Performs (left.magnitude + coefficient.natAbs ≤ limit) left.dtype
        (left.SortedKeys ∧ product.Sorted)
        (fun values => left.valueAt values + coefficient * product.valueAt values)
        (left.addTerm? product coefficient)) ∧
      (∀ divisor, (left.partition divisor).1.constant = 0 ∧
        (∀ term, term ∈ (left.partition divisor).1.terms ↔ term ∈ left.terms ∧ divisor ∣ term.2) ∧
        ∀ values, (left.partition divisor).1.valueAt values +
          (left.partition divisor).2.valueAt values = left.valueAt values) ∧
      ∀ env values expr, left.dtype.isInteger = true → left.dtype.lanes = 1 →
        (∀ term ∈ left.terms, ∀ atom ∈ term.1, ∀ factor, atom.expr? = some factor →
          factor.dtype = left.dtype ∧ factor.evalExact env = some (.int (values atom))) →
        left.expr? = some expr → expr.evalExact env = some (.int (left.valueAt values)) := by
  -- products are sorted under a condition, which is that of each operation
  have first {sorted : Prop} (isSorted : sorted → left.SortedKeys) :
      left.Represents (fun product => sorted → product.Sorted) left.dtype left.constant _ :=
    represents_self isLeft fun term member holds => isSorted holds term member
  have second {sorted : Prop} (isSorted : sorted → right.SortedKeys) :
      right.Represents (fun product => sorted → product.Sorted) left.dtype right.constant _ :=
    sameType ▸ represents_self isRight fun term member holds => isSorted holds term member
  exact ⟨⟨exists_add?, fun _ added => ((first And.left).add (second And.right) added).computes⟩,
    ⟨exists_sub?, fun _ subtracted =>
      ((first And.left).sub (second And.right) subtracted).computes⟩,
    fun _ => ⟨exists_scale?, fun _ scaled => ((first id).scale scaled).computes⟩,
    fun _ => ⟨fun room => exists_mul? room.1 room.2, fun _ multiplied =>
      ((first And.left).mul (fun _ _ _ _ _ => Product.sorted_mul _ _) (second And.right)
        multiplied).computes⟩,
    fun product coefficient => ⟨exists_addTerm? product, fun _ added =>
      ((first And.left).addTerm And.right added).computes⟩,
    fun divisor => ⟨rfl, fun _ => mem_partition isLeft.nonZero, valueAt_partition divisor⟩,
    fun _ _ _ isInteger scalar atoms builds => evalExact_expr? isInteger scalar atoms builds⟩

/-- The product of `x + 1` and `y - 1` plus the first of them is `x * y + y`, which has its value as
an expression. -/
theorem operations_exact_products :
    let first : Variable := ⟨"x", .int32, false⟩
    let second : Variable := ⟨"y", .int32, false⟩
    let left : SumForm := ⟨.int32, [([.leaf first.expr], -1),
      ([.leaf first.expr, .leaf second.expr], 1), ([.leaf second.expr], 1)], -1⟩
    let right : SumForm := ⟨.int32, [([.leaf first.expr], 1)], 1⟩
    let sum : SumForm := ⟨.int32, [([.leaf first.expr, .leaf second.expr], 1),
      ([.leaf second.expr], 1)], 0⟩
    let env := (Environment.empty.set first (.int 2)).set second (.int 5)
    left.add? right = some sum ∧
      (∀ values, sum.valueAt values = left.valueAt values + right.valueAt values) ∧
      left.expr?.bind (fun expr => expr.evalExact env) =
        some (.int (left.valueAt fun atom => atom.valueAt env)) := by
  intro first second left right sum env
  have isLeft : left.Normal := ⟨by decide, by decide⟩
  have isRight : right.Normal := ⟨by decide, by decide⟩
  obtain ⟨added, -, -, -, -, -, evaluates⟩ := operations_exact isLeft isRight rfl
  have isSum : left.add? right = some sum := by decide
  refine ⟨isSum, (added.computes sum isSum).valueAt_eq, ?_⟩
  have atoms : ∀ term ∈ left.terms, ∀ atom ∈ term.1,
      atom = .leaf first.expr ∨ atom = .leaf second.expr := by decide
  refine Option.bind_eq_some_iff.mpr ⟨_, rfl, evaluates env _ _ rfl rfl ?_ rfl⟩
  intro term member atom isFactor factor isExpr
  rcases atoms term member atom isFactor with rfl | rfl <;> cases isExpr <;> exact ⟨rfl, rfl⟩

end SumForm

end IndexAlgebra
