/-
This file proves that a sum has one form. Its terms are a polynomial whose indeterminates are the
atoms: products that are sorted differ as monomials if they differ as lists, so that two sums with the
same constant whose values agree for every choice of integers for the atoms are equal. The laws of
rings that hold for integers hold for sums therefore, wherever the operations have results.
-/
import IndexAlgebra.Proofs.SumArithmetic
import Mathlib.Algebra.MvPolynomial.Funext

namespace IndexAlgebra

open MvPolynomial

/-! ### Products as monomials -/

namespace Product

/-- How often each atom is a factor. -/
noncomputable def exponents : Product → Atom →₀ ℕ
  | [] => 0
  | atom :: rest => Finsupp.single atom 1 + exponents rest

theorem exponents_apply (product : Product) (atom : Atom) :
    product.exponents atom = product.count atom := by
  induction product with
  | nil => rfl
  | cons first rest inductionHypothesis =>
    rw [exponents, Finsupp.add_apply, inductionHypothesis, List.count_cons, Finsupp.single_apply,
      add_comm]
    simp

theorem eval_monomial_exponents (values : Atom → Int) (product : Product) (coefficient : Int) :
    eval values (monomial product.exponents coefficient) = coefficient * product.valueAt values := by
  induction product with
  | nil => simp [exponents, valueAt]
  | cons first rest inductionHypothesis =>
    rw [exponents, monomial_single_add, map_mul, inductionHypothesis, pow_one, eval_X]
    simp only [valueAt, List.map_cons, List.prod_cons]
    ring

/-- Sorted products with the same factors are equal. -/
theorem Sorted.eq_of_exponents {first second : Product} (isFirst : first.Sorted)
    (isSecond : second.Sorted) (same : first.exponents = second.exponents) : first = second := by
  have permuted : first.Perm second := List.perm_iff_count.mpr fun atom => by
    rw [← exponents_apply, same, exponents_apply]
  refine permuted.eq_of_pairwise (fun left right _ _ less greater => ?_) isFirst isSecond
  have swapped : Atom.compare right left = (Atom.compare left right).swap := Std.OrientedCmp.eq_swap
  have equal : Atom.compare left right = .eq := by
    cases ordering : Atom.compare left right <;> simp_all
  exact Std.LawfulEqCmp.eq_of_compare equal

end Product

namespace SumForm

/-! ### Terms as polynomials -/

variable {terms : List (Product × Int)}

/-- The terms as a polynomial in the atoms. -/
noncomputable def polynomial (terms : List (Product × Int)) : MvPolynomial Atom Int :=
  (terms.map fun term => monomial term.1.exponents term.2).sum

theorem eval_polynomial (values : Atom → Int) (terms : List (Product × Int)) :
    eval values (polynomial terms) = termsAt values terms := by
  induction terms with
  | nil => simp [polynomial]
  | cons term rest inductionHypothesis =>
    rw [termsAt_cons, ← inductionHypothesis, ← Product.eval_monomial_exponents, ← map_add]
    rfl

theorem coeff_polynomial_cons (term : Product × Int) (exponents : Atom →₀ ℕ) :
    coeff exponents (polynomial (term :: terms)) =
      (if term.1.exponents = exponents then term.2 else 0) + coeff exponents (polynomial terms) := by
  rw [← coeff_monomial, ← coeff_add]
  rfl

theorem coeff_polynomial_of_forall_ne {exponents : Atom →₀ ℕ}
    (differ : ∀ term ∈ terms, term.1.exponents ≠ exponents) :
    coeff exponents (polynomial terms) = 0 := by
  induction terms with
  | nil => simp [polynomial]
  | cons term rest inductionHypothesis =>
    obtain ⟨isFirst, areRest⟩ := List.forall_mem_cons.mp differ
    rw [coeff_polynomial_cons, if_neg isFirst, inductionHypothesis areRest, add_zero]

/-- The coefficient of a term is that of its monomial. -/
theorem coeff_polynomial (inOrder : InOrder terms) (sorted : ∀ term ∈ terms, term.1.Sorted)
    {term : Product × Int} (member : term ∈ terms) :
    coeff term.1.exponents (polynomial terms) = term.2 := by
  induction terms with
  | nil => exact absurd member List.not_mem_nil
  | cons head rest inductionHypothesis =>
    obtain ⟨before, restInOrder⟩ := List.pairwise_cons.mp inOrder
    obtain ⟨isFirst, areRest⟩ := List.forall_mem_cons.mp sorted
    have differ : ∀ other ∈ rest, head.1.exponents ≠ other.1.exponents := fun other isOther same =>
      ne_of_compare_lt (before other isOther) (isFirst.eq_of_exponents (areRest other isOther) same)
    rw [coeff_polynomial_cons]
    rcases List.mem_cons.mp member with rfl | inRest
    · rw [if_pos rfl, coeff_polynomial_of_forall_ne fun other isOther => (differ other isOther).symm,
        add_zero]
    · rw [if_neg (differ term inRest), inductionHypothesis restInOrder areRest inRest, zero_add]

/-! ### Sums with the same value -/

variable {dtype : DataType} {first second : SumForm}

/-- The sum is one that is kept: its terms are in order, no coefficient is zero, and the products are
sorted. -/
structure Canonical (sum : SumForm) : Prop where
  normal : sum.Normal
  sortedKeys : sum.SortedKeys

theorem mem_of_polynomial_eq (isFirst : first.Canonical) (isSecond : second.Canonical)
    (same : polynomial first.terms = polynomial second.terms) {term : Product × Int}
    (member : term ∈ first.terms) : term ∈ second.terms := by
  have isCoefficient := coeff_polynomial isFirst.normal.inOrder isFirst.sortedKeys member
  rw [same] at isCoefficient
  -- a monomial without a term would have the coefficient zero
  obtain ⟨other, isOther, equal⟩ : ∃ other ∈ second.terms, other.1.exponents = term.1.exponents := by
    by_contra none
    push Not at none
    rw [coeff_polynomial_of_forall_ne none] at isCoefficient
    exact isFirst.normal.nonZero term member isCoefficient.symm
  rw [← equal, coeff_polynomial isSecond.normal.inOrder isSecond.sortedKeys isOther] at isCoefficient
  have isProduct : other.1 = term.1 := (isSecond.sortedKeys other isOther).eq_of_exponents
    (isFirst.sortedKeys term member) equal
  rwa [← Prod.ext isProduct isCoefficient]

/-- Two sums with the same constant and the same values are equal. -/
theorem Canonical.eq_of_valueAt (isFirst : first.Canonical) (isSecond : second.Canonical)
    (types : first.dtype = second.dtype) (constants : first.constant = second.constant)
    (same : ∀ values, first.valueAt values = second.valueAt values) : first = second := by
  have polynomials : polynomial first.terms = polynomial second.terms := by
    refine MvPolynomial.funext fun values => ?_
    have equal := same values
    rw [valueAt, valueAt, constants] at equal
    rw [eval_polynomial, eval_polynomial]
    exact add_right_cancel equal
  have irreflexive : Std.Irrefl fun left right : Product × Int =>
      Product.compare left.1 right.1 = .lt := ⟨fun _ less => ne_of_compare_lt less rfl⟩
  have antisymmetric : Std.Antisymm fun left right : Product × Int =>
      Product.compare left.1 right.1 = .lt :=
    ⟨fun _ _ less greater => absurd rfl (ne_of_compare_lt (Std.TransCmp.lt_trans less greater))⟩
  have terms : first.terms = second.terms := by
    refine List.Pairwise.eq_of_mem_iff isFirst.normal.inOrder isSecond.normal.inOrder fun term => ?_
    exact ⟨mem_of_polynomial_eq isFirst isSecond polynomials,
      mem_of_polynomial_eq isSecond isFirst polynomials.symm⟩
  obtain ⟨dtype, terms', constant⟩ := first
  obtain ⟨dtype', terms'', constant'⟩ := second
  simp_all

/-! ### Sums that represent the same value -/

section

variable {allowed allowed' : Product → Prop} {sum : SumForm} {constant constant' : Int}
  {value value' : (Atom → Int) → Int}

theorem Represents.congr (represents : sum.Represents allowed dtype constant value)
    (constants : constant = constant') (values : ∀ choice, value choice = value' choice) :
    sum.Represents allowed dtype constant' value' :=
  constants ▸ (funext values : value = value') ▸ represents

theorem Represents.mono (represents : sum.Represents allowed dtype constant value)
    (weaker : ∀ product, allowed product → allowed' product) :
    sum.Represents allowed' dtype constant value :=
  ⟨⟨represents.reduced.constant_eq, represents.reduced.nonZero, fun term member =>
    weaker term.1 (represents.reduced.allowed term member)⟩, represents.totals⟩

theorem Represents.canonical (represents : sum.Represents Product.Sorted dtype constant value) :
    sum.Canonical :=
  ⟨⟨(represents.totals fun _ => 0).inOrder, represents.reduced.nonZero⟩, represents.reduced.allowed⟩

theorem Canonical.represents (canonical : sum.Canonical) (isType : sum.dtype = dtype) :
    sum.Represents Product.Sorted dtype sum.constant fun values => sum.valueAt values :=
  isType ▸ represents_self canonical.normal canonical.sortedKeys

/-- A constant and a value have one sum. -/
theorem Represents.unique (isFirst : first.Represents Product.Sorted dtype constant value)
    (isSecond : second.Represents Product.Sorted dtype constant' value')
    (constants : constant = constant') (values : ∀ choice, value choice = value' choice) :
    first = second := by
  refine isFirst.canonical.eq_of_valueAt isSecond.canonical ?_ ?_ fun choice => ?_
  · rw [(isFirst.totals fun _ => 0).dtype_eq, (isSecond.totals fun _ => 0).dtype_eq]
  · rw [isFirst.reduced.constant_eq, isSecond.reduced.constant_eq, constants]
  · exact (isFirst.totals choice).value_eq.trans
      ((values choice).trans (isSecond.totals choice).value_eq.symm)

end

end SumForm

end IndexAlgebra
