/-
This file proves the arithmetic of sums of products right. Whatever integers the atoms stand for, an
operation that has a result gives the sum, the product, the multiple or the part that it is named
for. Its atoms are those of the operands, and its terms are in order, so that every product occurs
once.
-/
import IndexAlgebra.Proofs.Order
import IndexAlgebra.Proofs.Evaluation
import IndexAlgebra.Proofs.SumTerms
import Mathlib.Algebra.BigOperators.Group.List.Basic
import Mathlib.Algebra.BigOperators.Ring.List
import Mathlib.Tactic.Ring

namespace IndexAlgebra

/-! ### Values -/

/-- The product of the integers that the atoms stand for. -/
def Product.valueAt (values : Atom → Int) (product : Product) : Int := (product.map values).prod

theorem Product.valueAt_mul (values : Atom → Int) (left right : Product) :
    (left.mul right).valueAt values = left.valueAt values * right.valueAt values := by
  have permuted := (List.mergeSort_perm (left ++ right) fun first second =>
    Atom.compare first second != .gt).map values
  rw [mul, valueAt, permuted.prod_eq, List.map_append, List.prod_append]
  rfl

/-- The sum of the multiples of products. -/
def termsAt (values : Atom → Int) (terms : List (Product × Int)) : Int :=
  (terms.map fun term => term.2 * term.1.valueAt values).sum

section

variable (values : Atom → Int) (term : Product × Int) (terms rest : List (Product × Int))

@[simp]
theorem termsAt_nil : termsAt values [] = 0 := rfl

@[simp]
theorem termsAt_cons :
    termsAt values (term :: terms) = term.2 * term.1.valueAt values + termsAt values terms := by
  rw [termsAt, List.map_cons, List.sum_cons]
  rfl

end

namespace SumForm

/-- The terms are in the order of their products, which all differ. -/
def InOrder (terms : List (Product × Int)) : Prop :=
  terms.Pairwise fun first second => Product.compare first.1 second.1 = .lt

instance (terms : List (Product × Int)) : Decidable (InOrder terms) :=
  inferInstanceAs (Decidable (terms.Pairwise _))

/-- The sum is of the type, it is made of allowed atoms in order, and it has the value when the
atoms stand for the given integers. -/
structure Totals (dtype : DataType) (allowed : Atom → Prop) (values : Atom → Int) (value : Int)
    (sum : SumForm) : Prop where
  dtype_eq : sum.dtype = dtype
  inOrder : InOrder sum.terms
  allowed : ∀ term ∈ sum.terms, ∀ atom ∈ term.1, allowed atom
  value_eq : termsAt values sum.terms + sum.constant = value

variable {dtype : DataType} {allowed : Atom → Prop} {values : Atom → Int}

theorem totals_ofInt (value : Int) : (ofInt dtype value).Totals dtype allowed values value :=
  ⟨rfl, .nil, fun _ member => absurd member List.not_mem_nil, Int.zero_add value⟩

theorem totals_ofAtom {atom : Atom} (isAllowed : allowed atom) :
    (ofAtom dtype atom).Totals dtype allowed values (values atom) := by
  refine ⟨rfl, List.pairwise_singleton _ _, ?_, ?_⟩
  · simpa [ofAtom] using isAllowed
  · simp [ofAtom, Product.valueAt]

/-- A sum without terms is its constant. -/
theorem Totals.eq_of_asConst? {sum : SumForm} {value constant : Int}
    (totals : sum.Totals dtype allowed values value) (isConst : sum.asConst? = some constant) :
    value = constant := by
  obtain ⟨isEmpty, rfl⟩ := Option.ite_none_right_eq_some.mp isConst |>.imp_right Option.some.inj
  rw [← totals.value_eq, List.isEmpty_iff.mp isEmpty, termsAt_nil, Int.zero_add]

/-! ### Addition -/

theorem termsAt_insertTerm? {product : Product} {coefficient : Int}
    {terms result : List (Product × Int)}
    (inserted : insertTerm? product coefficient terms = some result) :
    termsAt values result = termsAt values terms + coefficient * product.valueAt values := by
  induction terms generalizing result with
  | nil =>
    cases inserted
    simp
  | cons term rest inductionHypothesis =>
    obtain ⟨first, value⟩ := term
    rw [insertTerm?] at inserted
    split at inserted
    next =>
      cases inserted
      simp only [termsAt_cons]
      ring
    next same =>
      obtain ⟨total, isTotal, rfl⟩ := Option.map_eq_some_iff.mp inserted
      obtain ⟨-, rfl⟩ := Word.ofInt?_eq_some_iff.mp isTotal
      rw [Std.LawfulEqCmp.eq_of_compare same]
      split
      next cancels =>
        rw [termsAt_cons, add_right_comm, ← add_mul, cancels, zero_mul, zero_add]
      next =>
        simp only [termsAt_cons]
        ring
    next =>
      obtain ⟨tail, isTail, rfl⟩ := Option.map_eq_some_iff.mp inserted
      rw [termsAt_cons, termsAt_cons, inductionHypothesis isTail, add_assoc]

theorem inOrder_insertTerm? {product : Product} {coefficient : Int}
    {terms result : List (Product × Int)} (inOrder : InOrder terms)
    (inserted : insertTerm? product coefficient terms = some result) : InOrder result := by
  induction terms generalizing result with
  | nil =>
    cases inserted
    exact List.pairwise_singleton _ _
  | cons head rest inductionHypothesis =>
    obtain ⟨first, value⟩ := head
    obtain ⟨before, restInOrder⟩ := List.pairwise_cons.mp inOrder
    rw [insertTerm?] at inserted
    split at inserted
    next less =>
      cases inserted
      refine List.pairwise_cons.mpr ⟨fun term member => ?_, inOrder⟩
      rcases List.mem_cons.mp member with rfl | inRest
      · exact less
      · exact Std.TransCmp.lt_trans less (before term inRest)
    next =>
      obtain ⟨total, -, rfl⟩ := Option.map_eq_some_iff.mp inserted
      split
      next => exact restInOrder
      next => exact List.pairwise_cons.mpr ⟨before, restInOrder⟩
    next greater =>
      obtain ⟨tail, isTail, rfl⟩ := Option.map_eq_some_iff.mp inserted
      refine List.pairwise_cons.mpr ⟨fun term member => ?_, inductionHypothesis restInOrder isTail⟩
      rcases mem_insertTerm? isTail member with same | ⟨old, isOld, same⟩
      · rw [same]
        exact Std.OrientedCmp.gt_iff_lt.mp greater
      · rw [same]
        exact before old isOld

/-- The step adds an amount to the value of every sum of allowed atoms. -/
def Adds (dtype : DataType) (allowed : Atom → Prop) (values : Atom → Int)
    (step : SumForm → Option SumForm) (amount : Int) : Prop :=
  ∀ (sum result : SumForm) (value : Int), sum.Totals dtype allowed values value →
    step sum = some result → result.Totals dtype allowed values (value + amount)

theorem adds_term {product : Product} (isAllowed : ∀ atom ∈ product, allowed atom)
    (coefficient : Int) :
    Adds dtype allowed values (fun sum => sum.addTerm? product coefficient)
      (coefficient * product.valueAt values) := by
  intro sum result value totals added
  unfold addTerm? at added
  split at added
  next zero =>
    cases added
    rw [zero, zero_mul, add_zero]
    exact totals
  next =>
    obtain ⟨terms, inserted, rfl⟩ := Option.map_eq_some_iff.mp added
    refine ⟨totals.dtype_eq, inOrder_insertTerm? totals.inOrder inserted, ?_, ?_⟩
    · intro term member
      rcases mem_insertTerm? inserted member with same | ⟨old, isOld, same⟩
      · exact same ▸ isAllowed
      · exact same ▸ totals.allowed old isOld
    · rw [termsAt_insertTerm? inserted, ← totals.value_eq]
      ring

/-- A multiple of a product whose coefficient is a product of words is added likewise. -/
theorem adds_product {product : Product} (isAllowed : ∀ atom ∈ product, allowed atom)
    (left right : Int) :
    Adds dtype allowed values (fun sum => do sum.addTerm? product (← Word.mul? left right))
      (left * right * product.valueAt values) := by
  intro sum result value totals added
  obtain ⟨coefficient, isCoefficient, added⟩ := Option.bind_eq_some_iff.mp added
  obtain ⟨-, rfl⟩ := Word.ofInt?_eq_some_iff.mp isCoefficient
  exact adds_term isAllowed _ sum result value totals added

/-- What holds of the steps of a fold, each with an amount, holds of the fold with the sum of the
amounts, if it holds of steps one after the other with theirs. -/
theorem foldlM_of_steps {β Amount : Type} [AddMonoid Amount]
    (moves : Amount → (SumForm → Option SumForm) → Prop) (start : moves 0 some)
    (next : ∀ first second before after, moves first before → moves second after →
      moves (first + second) fun sum => (before sum).bind after)
    {step : SumForm → β → Option SumForm} (amount : β → Amount) {parts : List β}
    (each : ∀ part ∈ parts, moves (amount part) fun sum => step sum part) :
    moves (parts.map amount).sum fun sum => parts.foldlM step sum := by
  induction parts with
  | nil => exact start
  | cons part rest inductionHypothesis =>
    rw [List.map_cons, List.sum_cons]
    exact next _ _ _ _ (each part List.mem_cons_self)
      (inductionHypothesis fun part member => each part (List.mem_cons_of_mem _ member))

/-- Steps that each add to a sum add up. -/
theorem adds_foldlM {β : Type} {step : SumForm → β → Option SumForm} (weight : β → Int)
    {parts : List β}
    (each : ∀ part ∈ parts, Adds dtype allowed values (fun sum => step sum part) (weight part)) :
    Adds dtype allowed values (fun sum => parts.foldlM step sum) (parts.map weight).sum := by
  refine foldlM_of_steps (fun amount step => Adds dtype allowed values step amount) ?_
    (fun first second before after adds adds' => ?_) weight each
  · intro sum result value totals same
    cases same
    rwa [add_zero]
  · intro sum result value totals moved
    obtain ⟨between, isBetween, moved⟩ := Option.bind_eq_some_iff.mp moved
    rw [← add_assoc]
    exact adds' between result _ (adds sum between value totals isBetween) moved

theorem Totals.add {left right result : SumForm} {first second : Int}
    (isLeft : left.Totals dtype allowed values first)
    (isRight : right.Totals dtype allowed values second) (added : left.add? right = some result) :
    result.Totals dtype allowed values (first + second) := by
  obtain ⟨sum, folded, added⟩ := Option.bind_eq_some_iff.mp added
  obtain ⟨constant, isConstant, equal⟩ := Option.bind_eq_some_iff.mp added
  obtain ⟨-, rfl⟩ := Word.ofInt?_eq_some_iff.mp isConstant
  cases equal
  have terms := adds_foldlM (fun term => term.2 * term.1.valueAt values)
    (fun term member => adds_term (isRight.allowed term member) term.2) left sum first isLeft folded
  refine ⟨terms.dtype_eq, terms.inOrder, terms.allowed, ?_⟩
  rw [← add_assoc, terms.value_eq, ← isRight.value_eq, add_assoc]
  rfl

/-! ### Multiplication -/

/-- Coefficients changed term by term leave the order as it is. -/
theorem inOrder_map (f : Int → Int) {terms : List (Product × Int)} :
    InOrder (terms.map fun term => (term.1, f term.2)) ↔ InOrder terms := List.pairwise_map

theorem termsAt_map_mul (factor : Int) (terms : List (Product × Int)) :
    termsAt values (terms.map fun term => (term.1, term.2 * factor)) =
      termsAt values terms * factor := by
  induction terms with
  | nil => simp
  | cons term rest inductionHypothesis =>
    rw [List.map_cons, termsAt_cons, termsAt_cons, inductionHypothesis]
    ring

theorem Totals.scale {sum result : SumForm} {value factor : Int}
    (totals : sum.Totals dtype allowed values value) (scaled : sum.scale? factor = some result) :
    result.Totals dtype allowed values (value * factor) := by
  by_cases zero : factor = 0
  · rw [scale?, if_pos zero] at scaled
    cases scaled
    rw [zero, mul_zero, totals.dtype_eq]
    exact totals_ofInt 0
  · obtain rfl := eq_of_scale? zero scaled
    refine ⟨totals.dtype_eq, (inOrder_map (· * factor)).mpr totals.inOrder, ?_, ?_⟩
    · rw [List.forall_mem_map]
      exact totals.allowed
    · rw [termsAt_map_mul, ← totals.value_eq, add_mul]

theorem Totals.sub {left right result : SumForm} {first second : Int}
    (isLeft : left.Totals dtype allowed values first)
    (isRight : right.Totals dtype allowed values second)
    (subtracted : left.sub? right = some result) :
    result.Totals dtype allowed values (first - second) := by
  obtain ⟨opposite, isOpposite, added⟩ := Option.bind_eq_some_iff.mp subtracted
  have totals := isLeft.add (isRight.scale isOpposite) added
  rwa [mul_neg_one, ← sub_eq_add_neg] at totals

theorem adds_scaled {other : SumForm} {value : Int}
    (isOther : other.Totals dtype allowed values value) (factor : Int) :
    Adds dtype allowed values (fun sum => sum.addScaled? other.terms factor)
      (termsAt values other.terms * factor) := by
  have weights : other.terms.map (fun term => term.2 * factor * term.1.valueAt values) =
      other.terms.map fun term => term.2 * term.1.valueAt values * factor :=
    List.map_congr_left fun term _ => mul_right_comm _ _ _
  rw [termsAt, ← List.sum_map_mul_right, ← weights]
  exact adds_foldlM _ fun term member => adds_product (isOther.allowed term member) term.2 factor

theorem adds_products {other : SumForm} {value : Int} {term : Product × Int}
    (isOther : other.Totals dtype allowed values value) (isAllowed : ∀ atom ∈ term.1, allowed atom) :
    Adds dtype allowed values (fun sum => sum.addProducts? other.terms term)
      (term.2 * term.1.valueAt values * termsAt values other.terms) := by
  have weights : other.terms.map (fun part => term.2 * part.2 * (term.1.mul part.1).valueAt values) =
      other.terms.map fun part => term.2 * term.1.valueAt values * (part.2 * part.1.valueAt values) :=
    List.map_congr_left fun part _ => by rw [Product.valueAt_mul, mul_mul_mul_comm]
  rw [termsAt, ← List.sum_map_mul_left, ← weights]
  refine adds_foldlM _ fun part member => adds_product (fun atom isFactor => ?_) term.2 part.2
  exact (Product.mem_mul.mp isFactor).elim (isAllowed atom) (isOther.allowed part member atom)

theorem Totals.mul {left right result : SumForm} {first second : Int} {maxTerms : Nat}
    (isLeft : left.Totals dtype allowed values first)
    (isRight : right.Totals dtype allowed values second)
    (multiplied : left.mul? right maxTerms = some result) :
    result.Totals dtype allowed values (first * second) := by
  unfold mul? at multiplied
  split at multiplied
  next factor _ isConst =>
    rw [isRight.eq_of_asConst? isConst]
    exact isLeft.scale multiplied
  next factor _ _ isConst =>
    rw [isLeft.eq_of_asConst? isConst, mul_comm]
    exact isRight.scale multiplied
  next =>
    obtain ⟨-, multiplied⟩ := Option.ite_none_left_eq_some.mp multiplied
    obtain ⟨constant, isConstant, multiplied⟩ := Option.bind_eq_some_iff.mp multiplied
    obtain ⟨-, rfl⟩ := Word.ofInt?_eq_some_iff.mp isConstant
    obtain ⟨leftScaled, isLeftScaled, multiplied⟩ := Option.bind_eq_some_iff.mp multiplied
    obtain ⟨rightScaled, isRightScaled, multiplied⟩ := Option.bind_eq_some_iff.mp multiplied
    have start : (ofInt left.dtype (left.constant * right.constant)).Totals dtype allowed values
        (left.constant * right.constant) := isLeft.dtype_eq ▸ totals_ofInt _
    have total := adds_foldlM _ (fun term member => adds_products isRight (isLeft.allowed term member))
      _ _ _ (adds_scaled isRight left.constant _ _ _ (adds_scaled isLeft right.constant _ _ _ start
        isLeftScaled) isRightScaled) multiplied
    rw [List.sum_map_mul_right] at total
    convert total using 1
    rw [← isLeft.value_eq, ← isRight.value_eq]
    unfold termsAt
    ring

/-! ### Parts -/

/-- The quotient times the divisor is the sum, term by term. -/
structure IsQuotient (sum : SumForm) (divisor : Int) (quotient : SumForm) : Prop where
  divisor_ne_zero : divisor ≠ 0
  dtype_eq : quotient.dtype = sum.dtype
  terms_eq : quotient.terms.map (fun term => (term.1, term.2 * divisor)) = sum.terms
  constant_eq : quotient.constant * divisor = sum.constant

instance (sum : SumForm) (divisor : Int) (quotient : SumForm) :
    Decidable (sum.IsQuotient divisor quotient) :=
  decidable_of_iff (divisor ≠ 0 ∧ quotient.dtype = sum.dtype ∧
      quotient.terms.map (fun term => (term.1, term.2 * divisor)) = sum.terms ∧
      quotient.constant * divisor = sum.constant)
    ⟨fun ⟨nonzero, types, terms, constants⟩ => ⟨nonzero, types, terms, constants⟩,
      fun divided =>
        ⟨divided.divisor_ne_zero, divided.dtype_eq, divided.terms_eq, divided.constant_eq⟩⟩

theorem Totals.quotient {sum quotient : SumForm} {value divisor : Int}
    (totals : sum.Totals dtype allowed values value) (divided : sum.IsQuotient divisor quotient) :
    divisor ∣ value ∧ quotient.Totals dtype allowed values (value / divisor) := by
  have isProduct : value = (termsAt values quotient.terms + quotient.constant) * divisor := by
    rw [← totals.value_eq, ← divided.terms_eq, ← divided.constant_eq, termsAt_map_mul, add_mul]
  refine ⟨isProduct ▸ Int.dvd_mul_left _ _, divided.dtype_eq.trans totals.dtype_eq, ?_, ?_, ?_⟩
  · rw [← inOrder_map (· * divisor), divided.terms_eq]
    exact totals.inOrder
  · intro term member
    refine totals.allowed (term.1, term.2 * divisor) ?_
    rw [← divided.terms_eq]
    exact List.mem_map_of_mem member
  · rw [isProduct, Int.mul_ediv_cancel _ divided.divisor_ne_zero]

theorem Totals.withConstant {sum : SumForm} {value : Int}
    (totals : sum.Totals dtype allowed values value) (constant : Int) :
    SumForm.Totals dtype allowed values (value - sum.constant + constant) { sum with constant } :=
  ⟨totals.dtype_eq, totals.inOrder, totals.allowed, by
    rw [← totals.value_eq, add_sub_cancel_right]⟩

/-- Some of the terms with another constant. -/
theorem Totals.filter {sum : SumForm} {value : Int} (totals : sum.Totals dtype allowed values value)
    (keep : Product × Int → Bool) (constant : Int) :
    SumForm.Totals dtype allowed values (termsAt values (sum.terms.filter keep) + constant)
      ⟨sum.dtype, sum.terms.filter keep, constant⟩ :=
  ⟨totals.dtype_eq, totals.inOrder.filter keep,
    fun term member => totals.allowed term (List.mem_of_mem_filter member), rfl⟩

theorem termsAt_filter_add (values : Atom → Int) (keep : Product × Int → Bool) (terms : List (Product × Int)) :
    termsAt values (terms.filter keep) + termsAt values (terms.filter fun term => !keep term) =
      termsAt values terms := by
  induction terms with
  | nil => rfl
  | cons term rest inductionHypothesis =>
    rw [List.filter_cons, List.filter_cons, termsAt_cons, ← inductionHypothesis]
    cases keep term <;> simp <;> ring

theorem ne_of_compare_lt {first second : Product} (less : Product.compare first second = .lt) :
    first ≠ second := by
  rintro rfl
  have equal : Product.compare first first = .eq := Std.ReflCmp.compare_self
  rw [equal] at less
  cases less

theorem filter_fst_eq {terms : List (Product × Int)} (inOrder : InOrder terms) {term : Product × Int}
    (member : term ∈ terms) : terms.filter (fun other => other.1 = term.1) = [term] := by
  induction terms with
  | nil => exact absurd member List.not_mem_nil
  | cons head rest inductionHypothesis =>
    obtain ⟨before, restInOrder⟩ := List.pairwise_cons.mp inOrder
    have differs : ∀ other ∈ rest, head.1 ≠ other.1 := fun other isOther =>
      ne_of_compare_lt (before other isOther)
    rcases List.mem_cons.mp member with rfl | inRest
    · rw [List.filter_cons_of_pos (by simp), List.filter_eq_nil_iff.mpr]
      intro other isOther
      simpa using Ne.symm (differs other isOther)
    · rw [List.filter_cons_of_neg (by simpa using differs term inRest)]
      exact inductionHypothesis restInOrder inRest

/-- Every product occurs once, so that to leave it out is to leave out one term. -/
theorem termsAt_remove (values : Atom → Int) {terms : List (Product × Int)} (inOrder : InOrder terms)
    {term : Product × Int} (member : term ∈ terms) :
    termsAt values terms = termsAt values (terms.filter fun other => other.1 ≠ term.1) +
      term.2 * term.1.valueAt values := by
  have parts := termsAt_filter_add values (fun other => other.1 ≠ term.1) terms
  simp only [decide_not, Bool.not_not] at parts
  rw [filter_fst_eq inOrder member, termsAt_cons, termsAt_nil, add_zero] at parts
  simpa using parts.symm

end SumForm

end IndexAlgebra
