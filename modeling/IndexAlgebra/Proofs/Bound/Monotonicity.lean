/-
This file proves that tighter operands give a tighter bound. Every operation on bounds is monotone, also
in ends that are infinite or have become so by saturation, as long as no bound is empty. An operation
that has no bound of its own for some operands, such as a quotient whose divisor may be zero, has none
for wider ones either. The bound of a node is therefore tightened with those of its operands, unless the
wider operands leave it with the range of its type alone.
-/
import IndexAlgebra.Proofs.Bound
import IndexAlgebra.Proofs.Typing

namespace IndexAlgebra

/-! ### Monotone ends -/

namespace Limit

variable {low low' high high' limit : Limit}

theorem min_mono (first : low ≤ low') (second : high ≤ high') : min low high ≤ min low' high' :=
  le_min_iff.mpr ⟨le_trans (min_le_left _ _) first, le_trans (min_le_right _ _) second⟩

theorem max_mono (first : low ≤ low') (second : high ≤ high') : max low high ≤ max low' high' :=
  max_le_iff.mpr ⟨le_trans first (le_max_left _ _), le_trans second (le_max_right _ _)⟩

/-- The sum of lower ends is monotone, where opposite infinities leave no lower end. -/
theorem add?_lower_mono (first : low ≤ low') (second : high ≤ high') :
    (low.add? high).getD negInf ≤ (low'.add? high').getD negInf := by
  cases low <;> cases low' <;> cases high <;> cases high' <;> simp_all [add?]
  exact ofInt_mono (by omega)

/-- The sum of upper ends is monotone, where opposite infinities leave no upper end. -/
theorem add?_upper_mono (first : low ≤ low') (second : high ≤ high') :
    (low.add? high).getD posInf ≤ (low'.add? high').getD posInf := by
  cases low <;> cases low' <;> cases high <;> cases high' <;> simp_all [add?]
  exact ofInt_mono (by omega)

theorem add?_lower_le_upper (first : low ≤ low') (second : high ≤ high') :
    (low.add? high).getD negInf ≤ (low'.add? high').getD posInf := by
  cases low <;> cases low' <;> cases high <;> cases high' <;> simp_all [add?]
  exact ofInt_mono (by omega)

theorem neg_min (first second : Limit) : (min first second).neg = max first.neg second.neg := by
  rcases le_total first second with ordered | ordered
  · have least : min first second = first := if_pos ordered
    rw [least]
    exact le_antisymm (le_max_left _ _) (max_le_iff.mpr ⟨le_refl _, neg_le_neg ordered⟩)
  · have least : min first second = second :=
      le_antisymm (min_le_right _ _) (le_min_iff.mpr ⟨ordered, le_refl _⟩)
    rw [least]
    exact le_antisymm (le_max_right _ _) (max_le_iff.mpr ⟨neg_le_neg ordered, le_refl _⟩)

theorem neg_pred_neg (limit : Limit) :
    ((limit.neg.add? (finite (-1))).getD posInf).neg = (limit.add? (finite 1)).getD negInf := by
  cases limit with
  | negInf | posInf => rfl
  | finite value =>
    show (ofInt (-value + -1)).neg = ofInt (value + 1)
    rw [neg_ofInt]
    congr 1
    omega

theorem one_le_of_pos (positive : ¬limit ≤ finite 0) : finite 1 ≤ limit := by
  cases limit with
  | negInf => exact absurd (negInf_le _) positive
  | posInf => exact le_posInf _
  | finite value =>
    rw [finite_le_finite] at positive ⊢
    omega

end Limit

/-! ### Integers around a floating-point number -/

namespace Binary64

theorem magnitude_lt (number : Binary64) : number.magnitude < signWeight :=
  Nat.mod_lt _ (by decide)

theorem toNat_ofParts {negative : Bool} {magnitude : Nat} (small : magnitude < signWeight) :
    (ofParts negative magnitude).bits.toNat = (if negative then signWeight else 0) + magnitude := by
  have weight : signWeight = 9223372036854775808 := by decide
  rw [weight] at small
  unfold ofParts
  rw [UInt64.toNat_ofNat', weight]
  exact Nat.mod_eq_of_lt (by split <;> omega)

theorem magnitude_neg (number : Binary64) : number.neg.magnitude = number.magnitude := by
  have small := number.magnitude_lt
  unfold neg
  rw [magnitude, toNat_ofParts small]
  split
  · rw [Nat.add_mod_left, Nat.mod_eq_of_lt small]
  · rw [Nat.zero_add, Nat.mod_eq_of_lt small]

theorem isNegative_neg (number : Binary64) : number.neg.isNegative = !number.isNegative := by
  have small := number.magnitude_lt
  unfold neg
  rw [isNegative, toNat_ofParts small]
  cases number.isNegative
  · exact decide_eq_true (by simp)
  · exact decide_eq_false (by simpa using small)

theorem toQuotient_neg (number : Binary64) : number.neg.toQuotient = number.toQuotient := by
  unfold toQuotient significand exponent
  rw [magnitude_neg]

/-- A quotient rounded down is not above the opposite of the opposite dividend's. -/
theorem fdiv_le_neg_fdiv_neg (dividend : Int) (divisor : Nat) :
    dividend.fdiv divisor ≤ -(-dividend).fdiv divisor := by
  rw [Int.fdiv_eq_ediv_of_nonneg _ (Int.natCast_nonneg _),
    Int.fdiv_eq_ediv_of_nonneg _ (Int.natCast_nonneg _)]
  rcases Nat.eq_zero_or_pos divisor with rfl | positive
  · simp
  · have first := Int.ediv_mul_le dividend (by omega : (divisor : Int) ≠ 0)
    have second := Int.ediv_mul_le (-dividend) (by omega : (divisor : Int) ≠ 0)
    nlinarith

/-- The integers around a finite number are in order. -/
theorem floor?_le_ceil? {number : Binary64} {least greatest : Int}
    (isFloor : number.floor? = some least) (isCeil : number.ceil? = some greatest) :
    least ≤ greatest := by
  obtain ⟨opposite, isOpposite, rfl⟩ := Option.map_eq_some_iff.mp isCeil
  unfold floor? at isFloor isOpposite
  rw [isNegative_neg, toQuotient_neg] at isOpposite
  obtain ⟨-, equal⟩ := Option.ite_none_right_eq_some.mp isFloor
  obtain ⟨-, equal'⟩ := Option.ite_none_right_eq_some.mp isOpposite
  cases equal
  cases equal'
  cases number.isNegative
  · exact fdiv_le_neg_fdiv_neg _ _
  · have rounded := fdiv_le_neg_fdiv_neg (-number.toQuotient.1) number.toQuotient.2
    rwa [Int.neg_neg] at rounded

end Binary64

namespace Bound

open Limit

/-! ### Tighter bounds -/

/-- The lower end is not above the upper one. -/
def Ordered (bound : Bound) : Prop := bound.lower ≤ bound.upper

/-- The bound is not empty, and it lies within the other. -/
structure Tightens (bound other : Bound) : Prop where
  ordered : bound.Ordered
  lower : other.lower ≤ bound.lower
  upper : bound.upper ≤ other.upper

theorem Ordered.refl {bound : Bound} (ordered : bound.Ordered) : bound.Tightens bound :=
  ⟨ordered, Limit.le_refl _, Limit.le_refl _⟩

theorem ordered_of_contains {bound : Bound} {value : Int} (member : bound.contains value = true) :
    bound.Ordered :=
  Limit.le_trans (contains_iff.mp member).1 (contains_iff.mp member).2

theorem isSubsetOf_iff {bound other : Bound} :
    bound.isSubsetOf other = true ↔ other.lower ≤ bound.lower ∧ bound.upper ≤ other.upper :=
  decide_eq_true_iff

theorem Tightens.isSubsetOf {bound other : Bound} (tightens : bound.Tightens other) :
    bound.isSubsetOf other = true := isSubsetOf_iff.mpr ⟨tightens.lower, tightens.upper⟩

theorem Ordered.tightens {bound other : Bound} (ordered : bound.Ordered)
    (subset : bound.isSubsetOf other = true) : bound.Tightens other :=
  ⟨ordered, (isSubsetOf_iff.mp subset).1, (isSubsetOf_iff.mp subset).2⟩

theorem isSubsetOf_refl (bound : Bound) : bound.isSubsetOf bound = true :=
  isSubsetOf_iff.mpr ⟨Limit.le_refl _, Limit.le_refl _⟩

theorem isSubsetOf_trans {first second third : Bound} (left : first.isSubsetOf second = true)
    (right : second.isSubsetOf third = true) : first.isSubsetOf third = true := by
  rw [isSubsetOf_iff] at left right ⊢
  exact ⟨Limit.le_trans right.1 left.1, Limit.le_trans left.2 right.2⟩

theorem isSubsetOf_intersect {bound first second : Bound} :
    bound.isSubsetOf (first.intersect second) = true ↔
      bound.isSubsetOf first = true ∧ bound.isSubsetOf second = true := by
  simp only [isSubsetOf_iff, intersect, Limit.max_le_iff, Limit.le_min_iff]
  exact and_and_and_comm

theorem ordered_ofInts {least greatest : Int} (ordered : least ≤ greatest) :
    (ofInts least greatest).Ordered := ofInt_mono ordered

theorem ordered_point (value : Int) : (point value).Ordered := ordered_ofInts (Int.le_refl value)

theorem ordered_truth : truth.Ordered := ordered_ofInts (by decide)

theorem ofType_of_isFloat {dtype : DataType} (isFloat : dtype.isFloat = true) :
    ofType dtype = everything := by
  obtain ⟨code, bits, lanes⟩ := dtype
  cases code <;> first | rfl | contradiction

theorem ordered_everything : everything.Ordered := Limit.negInf_le _

theorem ordered_ofType (dtype : DataType) : (ofType dtype).Ordered := by
  by_cases isFloat : dtype.isFloat = true
  · rw [ofType_of_isFloat isFloat]
    exact ordered_everything
  · exact ordered_of_contains (contains_ofType (by decide)
      (DataType.fits_zero (Bool.eq_false_iff.mpr isFloat)))

theorem ordered_ofVariable (name : Variable) : (ofVariable name).Ordered := by
  unfold ofVariable
  split
  · by_cases isFloat : name.dtype.isFloat = true
    · rw [ofType_of_isFloat isFloat]
      rfl
    · have inType := contains_ofType (by decide : Word.Inside 0)
        (DataType.fits_zero (Bool.eq_false_iff.mpr isFloat))
      exact ordered_of_contains (contains_intersect.mpr ⟨inType, by decide⟩)
  · exact ordered_ofType name.dtype

theorem ordered_ofFloat (value : Binary64) : (ofFloat value).Ordered := by
  unfold ofFloat
  split
  next isFloor isCeil => exact ordered_ofInts (Binary64.floor?_le_ceil? isFloor isCeil)
  next => exact ordered_everything

/-! ### Monotone operations -/

section

variable {left left' right right' : Bound}

section

variable (first : left.Tightens left') (second : right.Tightens right')
include first second

theorem Tightens.union : (left.union right).Tightens (left'.union right') :=
  ⟨Limit.le_trans (min_le_left _ _) (Limit.le_trans first.ordered (le_max_left _ _)),
    min_mono first.lower second.lower, max_mono first.upper second.upper⟩

theorem Tightens.add : (left.add right).Tightens (left'.add right') :=
  ⟨add?_lower_le_upper first.ordered second.ordered, add?_lower_mono first.lower second.lower,
    add?_upper_mono first.upper second.upper⟩

theorem Tightens.minimum : (left.minimum right).Tightens (left'.minimum right') :=
  ⟨min_mono first.ordered second.ordered, min_mono first.lower second.lower,
    min_mono first.upper second.upper⟩

theorem Tightens.maximum : (left.maximum right).Tightens (left'.maximum right') :=
  ⟨max_mono first.ordered second.ordered, max_mono first.lower second.lower,
    max_mono first.upper second.upper⟩

end

theorem Tightens.neg (tightens : left.Tightens left') : left.neg.Tightens left'.neg :=
  ⟨neg_le_neg tightens.ordered, neg_le_neg tightens.upper, neg_le_neg tightens.lower⟩

theorem Tightens.sub (first : left.Tightens left') (second : right.Tightens right') :
    (left.sub right).Tightens (left'.sub right') := first.add second.neg

/-! ### Corners -/

/-- What is around every end is around the smallest bound around them. -/
theorem around_within {bound : Bound} {first : Limit} {rest : List Limit}
    (all : ∀ limit ∈ first :: rest, bound.lower ≤ limit ∧ limit ≤ bound.upper) :
    bound.lower ≤ (around first rest).lower ∧ (around first rest).upper ≤ bound.upper := by
  unfold around
  induction rest using List.reverseRecOn with
  | nil => exact all first List.mem_cons_self
  | append_singleton rest last inductionHypothesis =>
    have others := inductionHypothesis fun limit member =>
      all limit (by rw [← List.cons_append]; exact List.mem_append_left _ member)
    have final := all last (by simp)
    simp only [List.foldl_append, List.foldl_cons, List.foldl_nil]
    exact ⟨Limit.le_min_iff.mpr ⟨others.1, final.1⟩, Limit.max_le_iff.mpr ⟨others.2, final.2⟩⟩

/-- The limit lies between the ends of the bound. -/
def Spans (bound : Bound) (limit : Limit) : Prop := bound.lower ≤ limit ∧ limit ≤ bound.upper

/-- On the bounds the operation is monotone or antitone in each operand, whatever the other one is. -/
structure OneWay (operation : Limit → Limit → Limit) (left right : Bound) : Prop where
  inLeft : ∀ value other, left.Spans value → right.Spans other →
    Between (operation left.lower other) (operation value other) (operation left.upper other)
  inRight : ∀ value other, right.Spans other →
    Between (operation value right.lower) (operation value other) (operation value right.upper)

/-- The corners of tighter operands lie within those of wider ones. -/
theorem OneWay.corners_tightens {operation : Limit → Limit → Limit}
    (oneWay : OneWay operation left' right') (first : left.Tightens left')
    (second : right.Tightens right') :
    (corners operation left right).Tightens (corners operation left' right') := by
  have within : ∀ value other, left'.Spans value → right'.Spans other →
      (corners operation left' right').lower ≤ operation value other ∧
        operation value other ≤ (corners operation left' right').upper :=
    fun value other inLeft inRight => within_corners operation value other
      (oneWay.inLeft value other inLeft inRight) (oneWay.inRight _ other inRight)
      (oneWay.inRight _ other inRight)
  have leftLower : left'.Spans left.lower := ⟨first.lower, Limit.le_trans first.ordered first.upper⟩
  have leftUpper : left'.Spans left.upper := ⟨Limit.le_trans first.lower first.ordered, first.upper⟩
  have rightLower : right'.Spans right.lower :=
    ⟨second.lower, Limit.le_trans second.ordered second.upper⟩
  have rightUpper : right'.Spans right.upper :=
    ⟨Limit.le_trans second.lower second.ordered, second.upper⟩
  have inside : ∀ limit ∈ [operation left.lower right.lower, operation left.lower right.upper,
      operation left.upper right.lower, operation left.upper right.upper],
      (corners operation left' right').lower ≤ limit ∧
        limit ≤ (corners operation left' right').upper := by
    intro limit member
    simp only [List.mem_cons, List.not_mem_nil, or_false] at member
    rcases member with rfl | rfl | rfl | rfl
    · exact within _ _ leftLower rightLower
    · exact within _ _ leftLower rightUpper
    · exact within _ _ leftUpper rightLower
    · exact within _ _ leftUpper rightUpper
  have corner := around_spec (operation left.lower right.lower)
    [operation left.lower right.upper, operation left.upper right.lower,
      operation left.upper right.upper] _ List.mem_cons_self
  exact ⟨Limit.le_trans corner.1 corner.2, (around_within inside).1, (around_within inside).2⟩

theorem oneWay_mul (left right : Bound) : OneWay Limit.mul left right :=
  ⟨fun _ other inLeft _ => between_mul_right other inLeft.1 inLeft.2,
    fun value _ inRight => between_mul_left value inRight.1 inRight.2⟩

theorem oneWay_div (floor : Bool) (left : Bound) (divides : right.isDivisor = true) :
    OneWay (Limit.div floor) left right := by
  have oneSign := isDivisor_iff.mp divides
  refine ⟨fun _ other inLeft inRight => between_div_dividend floor ?_ inLeft.1 inLeft.2,
    fun value _ inRight => between_div_divisor floor value oneSign inRight.1 inRight.2⟩
  rcases oneSign with positive | negative
  · exact .inl fun small => positive (Limit.le_trans inRight.1 small)
  · exact .inr fun large => negative (Limit.le_trans large inRight.2)

theorem oneWay_shiftEnd (left : Bound) (nonNegative : right.isNonNegative = true) :
    OneWay shiftEnd left right :=
  ⟨fun _ other inLeft _ => between_shiftEnd_value other inLeft.1 inLeft.2,
    fun value _ inRight =>
      between_shiftEnd_amount value (of_decide_eq_true nonNegative) inRight.1 inRight.2⟩

theorem Tightens.mul (first : left.Tightens left') (second : right.Tightens right') :
    (left.mul right).Tightens (left'.mul right') := (oneWay_mul _ _).corners_tightens first second

/-! ### Operations without a bound of their own -/

/-- Where the other operation has a bound, this one has a tighter one. No bound that it has is empty. -/
structure Sharpens (result? other? : Option Bound) : Prop where
  ordered : ∀ bound, result? = some bound → bound.Ordered
  tightens : ∀ other, other? = some other → ∃ bound, result? = some bound ∧ bound.Tightens other

theorem Tightens.sharpens (tightens : left.Tightens right) : Sharpens (some left) (some right) :=
  ⟨fun _ equal => Option.some.inj equal ▸ tightens.ordered,
    fun _ equal => ⟨left, rfl, Option.some.inj equal ▸ tightens⟩⟩

/-- A bound that an operation has under a condition on its operands. -/
theorem sharpens_ite {condition condition' : Bool} {bound bound' : Bound}
    (passes : condition' = true → condition = true) (ordered : condition = true → bound.Ordered)
    (tightens : condition' = true → bound.Tightens bound') :
    Sharpens (if condition then some bound else none) (if condition' then some bound' else none) := by
  refine ⟨fun result equal => ?_, fun other equal => ?_⟩
  · obtain ⟨holds, equal⟩ := Option.ite_none_right_eq_some.mp equal
    exact Option.some.inj equal ▸ ordered holds
  · obtain ⟨holds, equal⟩ := Option.ite_none_right_eq_some.mp equal
    exact ⟨bound, if_pos (passes holds), Option.some.inj equal ▸ tightens holds⟩

theorem Sharpens.ordered_getD {result? other? : Option Bound} (sharpens : Sharpens result? other?)
    (dtype : DataType) : (result?.getD (ofType dtype)).Ordered := by
  cases result? with
  | none => exact ordered_ofType dtype
  | some bound => exact sharpens.ordered bound rfl

end

/-! ### Signs of tighter bounds -/

section

variable {bound other : Bound} (tightens : bound.Tightens other)
include tightens

theorem Tightens.isNonNegative (nonNegative : other.isNonNegative = true) :
    bound.isNonNegative = true :=
  decide_eq_true (Limit.le_trans (of_decide_eq_true nonNegative) tightens.lower)

theorem Tightens.isNonPositive (nonPositive : other.isNonPositive = true) :
    bound.isNonPositive = true :=
  decide_eq_true (Limit.le_trans tightens.upper (of_decide_eq_true nonPositive))

theorem Tightens.isPositive (positive : other.isPositive = true) : bound.isPositive = true := by
  have above : ¬other.lower ≤ finite 0 := of_decide_eq_true positive
  exact decide_eq_true (p := ¬bound.lower ≤ finite 0) fun small =>
    above (Limit.le_trans tightens.lower small)

theorem Tightens.isNegative (negative : other.isNegative = true) : bound.isNegative = true := by
  have below : ¬finite 0 ≤ other.upper := of_decide_eq_true negative
  exact decide_eq_true (p := ¬finite 0 ≤ bound.upper) fun large =>
    below (Limit.le_trans large tightens.upper)

theorem Tightens.isDivisor (divides : other.isDivisor = true) : bound.isDivisor = true := by
  rw [Bound.isDivisor, Bool.or_eq_true] at divides ⊢
  exact divides.imp tightens.isPositive tightens.isNegative

end

theorem Ordered.not_isPositive {bound : Bound} (ordered : bound.Ordered)
    (negative : bound.isNegative = true) : bound.isPositive = false := by
  have below : ¬finite 0 ≤ bound.upper := of_decide_eq_true negative
  have small : bound.lower ≤ finite 0 :=
    (Limit.le_total _ _).resolve_right fun large => below (Limit.le_trans large ordered)
  exact decide_eq_false (p := ¬bound.lower ≤ finite 0) (not_not.mpr small)

theorem lower_le_zero {bound : Bound} (mayBeNegative : ¬bound.isNonNegative = true) :
    bound.lower ≤ finite 0 :=
  (Limit.le_total _ _).resolve_right fun large => mayBeNegative (decide_eq_true large)

theorem zero_le_upper {bound : Bound} (mayBePositive : ¬bound.isNonPositive = true) :
    finite 0 ≤ bound.upper :=
  (Limit.le_total _ _).resolve_right fun small => mayBePositive (decide_eq_true small)

/-! ### Quotients and remainders -/

section

variable {left left' right right' : Bound} (first : left.Tightens left')
  (second : right.Tightens right')
include first second

theorem sharpens_div (floor : Bool) : Sharpens (left.div? floor right) (left'.div? floor right') := by
  refine sharpens_ite second.isDivisor (fun divides => ?_) fun divides => ?_
  · exact ((oneWay_div floor left divides).corners_tightens first.ordered.refl
      second.ordered.refl).ordered
  · exact (oneWay_div floor left' divides).corners_tightens first second

theorem sharpens_shiftRight : Sharpens (left.shiftRight? right) (left'.shiftRight? right') := by
  refine sharpens_ite second.isNonNegative (fun nonNegative => ?_) fun nonNegative => ?_
  · exact ((oneWay_shiftEnd left nonNegative).corners_tightens first.ordered.refl
      second.ordered.refl).ordered
  · exact (oneWay_shiftEnd left' nonNegative).corners_tightens first second

end

/-- The greatest magnitude of a remainder, rounded toward zero, by a divisor of the bound. -/
def truncCap (right : Bound) : Limit :=
  ((max right.lower.neg right.upper).add? (.finite (-1))).getD .posInf

theorem Tightens.truncCap_le {right right' : Bound} (tightens : right.Tightens right') :
    right.truncCap ≤ right'.truncCap :=
  add?_upper_mono (max_mono (neg_le_neg tightens.lower) tightens.upper) (Limit.le_refl _)

/-- One less than a limit above zero is not below zero. -/
theorem zero_le_pred {limit : Limit} (positive : finite 1 ≤ limit) :
    finite 0 ≤ (limit.add? (finite (-1))).getD posInf := by
  have one : finite 0 = ((finite 1).add? (finite (-1))).getD posInf := by decide
  rw [one]
  exact add?_upper_mono positive (Limit.le_refl _)

theorem Ordered.zero_le_truncCap {right : Bound} (ordered : right.Ordered)
    (divides : right.isDivisor = true) : finite 0 ≤ right.truncCap := by
  refine zero_le_pred ?_
  rcases isDivisor_iff.mp divides with positive | negative
  · exact Limit.le_trans (one_le_of_pos positive) (Limit.le_trans ordered (le_max_right _ _))
  · have below : ¬finite 0 ≤ right.lower := fun large => negative (Limit.le_trans large ordered)
    exact Limit.le_trans (one_le_of_pos (not_neg_le_zero below)) (le_max_left _ _)

/-- The remainders, rounded toward zero, of a dividend in the bound by divisors of a magnitude above the
cap. -/
def truncRemainder (left : Bound) (cap : Limit) : Bound :=
  ⟨if left.isNonNegative then .finite 0 else max left.lower cap.neg,
    if left.isNonPositive then .finite 0 else min left.upper cap⟩

theorem truncMod?_eq (left right : Bound) :
    left.truncMod? right =
      if right.isDivisor then some (left.truncRemainder right.truncCap) else none := rfl

theorem truncRemainder_around_zero (left : Bound) {cap : Limit} (nonneg : finite 0 ≤ cap) :
    (left.truncRemainder cap).lower ≤ finite 0 ∧ finite 0 ≤ (left.truncRemainder cap).upper := by
  constructor
  · show ite _ _ _ ≤ _
    split
    next => exact Limit.le_refl _
    next mayBeNegative =>
      exact Limit.max_le_iff.mpr ⟨lower_le_zero mayBeNegative, neg_le_neg nonneg⟩
  · show _ ≤ ite _ _ _
    split
    next => exact Limit.le_refl _
    next mayBePositive => exact Limit.le_min_iff.mpr ⟨zero_le_upper mayBePositive, nonneg⟩

theorem Tightens.truncRemainder {left left' : Bound} {cap cap' : Limit} (tightens : left.Tightens left')
    (nonneg : finite 0 ≤ cap) (ordered : cap ≤ cap') :
    (left.truncRemainder cap).Tightens (left'.truncRemainder cap') := by
  have around := left.truncRemainder_around_zero nonneg
  have around' := left'.truncRemainder_around_zero (Limit.le_trans nonneg ordered)
  refine ⟨Limit.le_trans around.1 around.2, ?_, ?_⟩
  · by_cases nonNegative : left.isNonNegative = true
    · have isZero : (left.truncRemainder cap).lower = finite 0 := if_pos nonNegative
      rw [isZero]
      exact around'.1
    · have mayBeNegative' : ¬left'.isNonNegative = true :=
        fun all => nonNegative (tightens.isNonNegative all)
      simp only [Bound.truncRemainder, if_neg nonNegative, if_neg mayBeNegative']
      exact max_mono tightens.lower (neg_le_neg ordered)
  · by_cases nonPositive : left.isNonPositive = true
    · have isZero : (left.truncRemainder cap).upper = finite 0 := if_pos nonPositive
      rw [isZero]
      exact around'.2
    · have mayBePositive' : ¬left'.isNonPositive = true :=
        fun all => nonPositive (tightens.isNonPositive all)
      simp only [Bound.truncRemainder, if_neg nonPositive, if_neg mayBePositive']
      exact min_mono tightens.upper ordered

theorem sharpens_truncMod {left left' right right' : Bound} (first : left.Tightens left')
    (second : right.Tightens right') :
    Sharpens (left.truncMod? right) (left'.truncMod? right') := by
  rw [truncMod?_eq, truncMod?_eq]
  refine sharpens_ite second.isDivisor (fun divides => ?_) fun divides => ?_
  · exact (first.ordered.refl.truncRemainder (second.ordered.zero_le_truncCap divides)
      (Limit.le_refl _)).ordered
  · exact first.truncRemainder (second.ordered.zero_le_truncCap (second.isDivisor divides))
      second.truncCap_le

/-- The remainders, rounded down, of a dividend in the bound by divisors above zero. -/
def floorRemainder (left right : Bound) : Bound :=
  let cap := (right.upper.add? (.finite (-1))).getD .posInf
  ⟨.finite 0, if left.isNonNegative then min left.upper cap else cap⟩

theorem isNonNegative_neg (bound : Bound) : bound.neg.isNonNegative = bound.isNonPositive := by
  refine decide_eq_decide.mpr ⟨fun nonneg => ?_, neg_le_neg⟩
  have opposite : bound.upper.neg.neg ≤ finite 0 := neg_le_neg nonneg
  rwa [neg_neg] at opposite

/-- A remainder by a divisor below zero is the opposite of one by a divisor above zero. -/
theorem floorMod?_eq (left right : Bound) :
    left.floorMod? right =
      if right.isPositive then some (left.floorRemainder right)
      else if right.isNegative then some (left.neg.floorRemainder right.neg).neg else none := by
  have lower : (if left.isNonPositive then
        max left.lower ((right.lower.add? (finite 1)).getD negInf)
      else (right.lower.add? (finite 1)).getD negInf) =
      (left.neg.floorRemainder right.neg).neg.lower := by
    show _ = Limit.neg (ite (left.neg.isNonNegative = true) _ _)
    rw [isNonNegative_neg]
    split
    · rw [neg_min, Bound.neg, Bound.neg, neg_neg, neg_pred_neg]
    · rw [Bound.neg, neg_pred_neg]
  unfold floorMod?
  dsimp only
  rw [lower]
  rfl

theorem Tightens.floorRemainder {left left' right right' : Bound} (first : left.Tightens left')
    (second : right.Tightens right') (positive : right.isPositive = true) :
    (left.floorRemainder right).Tightens (left'.floorRemainder right') := by
  have above : ¬right.lower ≤ finite 0 := of_decide_eq_true positive
  have nonneg := zero_le_pred (Limit.le_trans (one_le_of_pos above) second.ordered)
  have ordered := add?_upper_mono second.upper (Limit.le_refl (finite (-1)))
  refine ⟨?_, Limit.le_refl _, ?_⟩
  · show _ ≤ ite _ _ _
    split
    next nonNegative =>
      exact Limit.le_min_iff.mpr
        ⟨Limit.le_trans (of_decide_eq_true nonNegative) first.ordered, nonneg⟩
    next => exact nonneg
  · show ite _ _ _ ≤ ite _ _ _
    by_cases nonNegative' : left'.isNonNegative = true
    · rw [if_pos nonNegative', if_pos (first.isNonNegative nonNegative')]
      exact min_mono first.upper ordered
    · rw [if_neg nonNegative']
      split
      · exact Limit.le_trans (min_le_right _ _) ordered
      · exact ordered

theorem isPositive_neg {bound : Bound} (negative : bound.isNegative = true) :
    bound.neg.isPositive = true :=
  decide_eq_true (p := ¬bound.upper.neg ≤ finite 0) (not_neg_le_zero (of_decide_eq_true negative))

theorem sharpens_floorMod {left left' right right' : Bound} (first : left.Tightens left')
    (second : right.Tightens right') :
    Sharpens (left.floorMod? right) (left'.floorMod? right') := by
  have below : ∀ {left' right' : Bound}, left.Tightens left' → right.Tightens right' →
      right.isNegative = true →
      (left.neg.floorRemainder right.neg).neg.Tightens (left'.neg.floorRemainder right'.neg).neg :=
    fun first second negative => (first.neg.floorRemainder second.neg (isPositive_neg negative)).neg
  rw [floorMod?_eq, floorMod?_eq]
  refine ⟨fun bound equal => ?_, fun other equal => ?_⟩
  · split at equal
    next positive =>
      exact Option.some.inj equal ▸
        (first.ordered.refl.floorRemainder second.ordered.refl positive).ordered
    next =>
      obtain ⟨negative, equal⟩ := Option.ite_none_right_eq_some.mp equal
      exact Option.some.inj equal ▸ (below first.ordered.refl second.ordered.refl negative).ordered
  · split at equal
    next positive =>
      have positive := second.isPositive positive
      exact ⟨_, if_pos positive, Option.some.inj equal ▸ first.floorRemainder second positive⟩
    next =>
      obtain ⟨negative, equal⟩ := Option.ite_none_right_eq_some.mp equal
      have negative := second.isNegative negative
      have notPositive := second.ordered.not_isPositive negative
      refine ⟨_, ?_, Option.some.inj equal ▸ below first second negative⟩
      rw [notPositive, negative]
      rfl

/-! ### Bits -/

theorem sharpens_shiftLeft {left left' right right' : Bound} (first : left.Tightens left')
    (second : right.Tightens right') :
    Sharpens (left.shiftLeft? right) (left'.shiftLeft? right') := by
  refine ⟨fun bound shifts => ?_, fun other shifts => ?_⟩
  · obtain ⟨least, most, rfl, nonneg, small, rfl⟩ := shiftLeft?_eq_some shifts
    have ordered := finite_le_finite.mp second.ordered
    have power := twoPow_mono (by omega : least.toNat ≤ most.toNat)
    rw [wrap_twoPow nonneg (by omega), wrap_twoPow (by omega) small]
    exact (first.ordered.refl.mul (ordered_ofInts (by omega)).refl).ordered
  · obtain ⟨least', most', rfl, nonneg, small, rfl⟩ := shiftLeft?_eq_some shifts
    obtain ⟨lower, upper⟩ := right
    have ordered := second.ordered
    have above := second.lower
    have below := second.upper
    cases lower <;> cases upper <;> try contradiction
    rename_i least most
    have ordered : least ≤ most := finite_le_finite.mp ordered
    have above : least' ≤ least := finite_le_finite.mp above
    have below : most ≤ most' := finite_le_finite.mp below
    have notBeyond : ¬(least < 0 ∨ 62 < most) := by omega
    refine ⟨_, if_neg notBeyond, first.mul ?_⟩
    dsimp only
    rw [wrap_twoPow nonneg (by omega), wrap_twoPow (by omega) small,
      wrap_twoPow (by omega) (by omega), wrap_twoPow (by omega) (by omega)]
    have power := twoPow_mono (by omega : least.toNat ≤ most.toNat)
    have power' := twoPow_mono (by omega : least'.toNat ≤ least.toNat)
    have power'' := twoPow_mono (by omega : most.toNat ≤ most'.toNat)
    exact ⟨ordered_ofInts (by omega), ofInt_mono (by omega), ofInt_mono (by omega)⟩

/-- The bits that two values share, if one of them is not negative. -/
def ofBitwiseAnd? (left right : Bound) : Option Bound :=
  match left.isNonNegative, right.isNonNegative with
  | true, true => some ⟨.finite 0, min left.upper right.upper⟩
  | true, false => some ⟨.finite 0, left.upper⟩
  | false, true => some ⟨.finite 0, right.upper⟩
  | false, false => none

theorem ofBitwiseAnd_eq (dtype : DataType) (left right : Bound) :
    ofBitwiseAnd dtype left right = (ofBitwiseAnd? left right).getD (ofType dtype) := by
  unfold ofBitwiseAnd ofBitwiseAnd?
  cases left.isNonNegative <;> cases right.isNonNegative <;> rfl

theorem Tightens.zero_le_upper {bound other : Bound} (tightens : bound.Tightens other)
    (nonNegative : bound.isNonNegative = true) : finite 0 ≤ bound.upper :=
  Limit.le_trans (of_decide_eq_true nonNegative) tightens.ordered

theorem sharpens_bitwiseAnd {left left' right right' : Bound} (first : left.Tightens left')
    (second : right.Tightens right') :
    Sharpens (ofBitwiseAnd? left right) (ofBitwiseAnd? left' right') := by
  have leftUpper := first.zero_le_upper
  have rightUpper := second.zero_le_upper
  unfold ofBitwiseAnd?
  refine ⟨fun bound equal => ?_, fun other equal => ?_⟩
  · cases isLeft : left.isNonNegative <;> cases isRight : right.isNonNegative <;>
      rw [isLeft, isRight] at equal <;> cases equal
    · exact rightUpper isRight
    · exact leftUpper isLeft
    · exact Limit.le_min_iff.mpr ⟨leftUpper isLeft, rightUpper isRight⟩
  · -- An operand that is not negative outside is not negative inside; the other one may become so.
    cases isLeft' : left'.isNonNegative <;> cases isRight' : right'.isNonNegative <;>
      rw [isLeft', isRight'] at equal <;> cases equal
    · have isRight := second.isNonNegative isRight'
      cases isLeft : left.isNonNegative <;> rw [isRight]
      · exact ⟨_, rfl, rightUpper isRight, Limit.le_refl _, second.upper⟩
      · exact ⟨_, rfl, Limit.le_min_iff.mpr ⟨leftUpper isLeft, rightUpper isRight⟩, Limit.le_refl _,
          Limit.le_trans (min_le_right _ _) second.upper⟩
    · have isLeft := first.isNonNegative isLeft'
      cases isRight : right.isNonNegative <;> rw [isLeft]
      · exact ⟨_, rfl, leftUpper isLeft, Limit.le_refl _, first.upper⟩
      · exact ⟨_, rfl, Limit.le_min_iff.mpr ⟨leftUpper isLeft, rightUpper isRight⟩, Limit.le_refl _,
          Limit.le_trans (min_le_left _ _) first.upper⟩
    · have isLeft := first.isNonNegative isLeft'
      have isRight := second.isNonNegative isRight'
      rw [isLeft, isRight]
      exact ⟨_, rfl, Limit.le_min_iff.mpr ⟨leftUpper isLeft, rightUpper isRight⟩, Limit.le_refl _,
        min_mono first.upper second.upper⟩

/-! ### Conversions -/

theorem asPoint?_eq_some {bound : Bound} {value : Int} :
    bound.asPoint? = some value ↔ bound = ⟨.finite value, .finite value⟩ := by
  obtain ⟨lower, upper⟩ := bound
  unfold asPoint?
  cases lower <;> cases upper <;> simp
  omega

theorem Tightens.contains {bound other : Bound} (tightens : bound.Tightens other) {value : Int}
    (member : bound.contains value = true) : other.contains value = true :=
  contains_of_isSubsetOf tightens.isSubsetOf member

theorem Tightens.asPoint? {bound other : Bound} (tightens : bound.Tightens other) {value : Int}
    (isPoint : other.asPoint? = some value) : bound.asPoint? = some value := by
  rw [asPoint?_eq_some] at isPoint ⊢
  subst isPoint
  have lower := le_antisymm (Limit.le_trans tightens.ordered tightens.upper) tightens.lower
  have upper := le_antisymm tightens.upper (Limit.le_trans tightens.lower tightens.ordered)
  obtain ⟨least, greatest⟩ := bound
  exact congrArg₂ Bound.mk lower upper

/-- The truth values of the integers in the bound. -/
theorem ofCast_bool_tightens_truth {dtype : DataType} (isBool : dtype.isBool = true)
    (operand : Bound) : (ofCast dtype operand).Tightens truth := by
  unfold ofCast
  rw [if_pos isBool]
  split
  · exact ⟨ordered_point 1, by decide, by decide⟩
  · split
    · exact ⟨ordered_point 0, by decide, by decide⟩
    · exact ordered_truth.refl

section

variable {operand operand' : Bound} (tightens : operand.Tightens operand') {dtype : DataType}
include tightens

theorem Tightens.ofCast_bool (isBool : dtype.isBool = true) :
    (ofCast dtype operand).Tightens (ofCast dtype operand') := by
  have inTruth := ofCast_bool_tightens_truth isBool operand
  unfold Bound.ofCast at inTruth ⊢
  rw [if_pos isBool, if_pos isBool] at *
  by_cases mayBeZero' : operand'.contains 0 = true
  · rw [mayBeZero']
    by_cases onlyZero' : operand'.asPoint? = some 0
    · have onlyZero := tightens.asPoint? onlyZero'
      have zero : operand.contains 0 = true := by
        rw [asPoint?_eq_some] at onlyZero
        subst onlyZero
        rfl
      rw [if_pos onlyZero', zero, if_pos onlyZero]
      exact (ordered_point 0).refl
    · rw [if_neg onlyZero']
      exact inTruth
  · have noZero : ¬operand.contains 0 = true := fun member => mayBeZero' (tightens.contains member)
    rw [Bool.eq_false_iff.mpr mayBeZero', Bool.eq_false_iff.mpr noZero]
    exact (ordered_point 1).refl

/-- Where only the tighter operand fits the type, it lies in the range of the type. -/
theorem Tightens.ofCast_number (notBool : ¬dtype.isBool = true) :
    (ofCast dtype operand).Tightens (ofCast dtype operand') := by
  unfold Bound.ofCast
  rw [if_neg notBool, if_neg notBool]
  by_cases fits' : (dtype.isFloat || operand'.fits dtype) = true
  · have fits : (dtype.isFloat || operand.fits dtype) = true := by
      rw [Bool.or_eq_true] at fits' ⊢
      exact fits'.imp_right fun subset => isSubsetOf_trans tightens.isSubsetOf subset
    rw [if_pos fits', if_pos fits]
    exact tightens
  · rw [if_neg fits']
    split
    next fits =>
      rw [Bool.or_eq_true, not_or] at fits'
      rw [Bool.eq_false_iff.mpr fits'.1, Bool.false_or] at fits
      exact tightens.ordered.tightens fits
    next => exact (ordered_ofType dtype).refl

/-- The bound of a conversion is tightened with that of the operand. -/
theorem Tightens.ofCast (dtype : DataType) : (ofCast dtype operand).Tightens (ofCast dtype operand') := by
  by_cases isBool : dtype.isBool = true
  · exact tightens.ofCast_bool isBool
  · exact tightens.ofCast_number isBool

end

/-! ### Nodes -/

/-- The bound of a binary node from those of its operands, if the operation has one. -/
def ofBinary? (op : BinaryOp) (left right : Bound) : Option Bound :=
  match op with
  | .add => some (left.add right)
  | .sub => some (left.sub right)
  | .mul => some (left.mul right)
  | .truncDiv => left.div? false right
  | .floorDiv => left.div? true right
  | .truncMod => left.truncMod? right
  | .floorMod => left.floorMod? right
  | .min => some (left.minimum right)
  | .max => some (left.maximum right)
  | .eq | .ne | .lt | .le | .gt | .ge | .and | .or => some truth

theorem ofBinary_eq (dtype : DataType) (op : BinaryOp) (left right : Bound) :
    ofBinary dtype op left right = (ofBinary? op left right).getD (ofType dtype) := by
  cases op <;> rfl

theorem sharpens_binary (op : BinaryOp) {left left' right right' : Bound}
    (first : left.Tightens left') (second : right.Tightens right') :
    Sharpens (ofBinary? op left right) (ofBinary? op left' right') := by
  cases op with
  | add => exact (first.add second).sharpens
  | sub => exact (first.sub second).sharpens
  | mul => exact (first.mul second).sharpens
  | truncDiv => exact sharpens_div first second false
  | floorDiv => exact sharpens_div first second true
  | truncMod => exact sharpens_truncMod first second
  | floorMod => exact sharpens_floorMod first second
  | min => exact (first.minimum second).sharpens
  | max => exact (first.maximum second).sharpens
  | eq | ne | lt | le | gt | ge | and | or => exact ordered_truth.refl.sharpens

/-- An operation on exactly two bounds. -/
def ofPair? (operation : Bound → Bound → Option Bound) : List Bound → Option Bound
  | [left, right] => operation left right
  | _ => none

theorem sharpens_none : Sharpens none none :=
  ⟨fun _ equal => (Option.some_ne_none _ equal.symm).elim,
    fun _ equal => (Option.some_ne_none _ equal.symm).elim⟩

theorem sharpens_pair {operation : Bound → Bound → Option Bound} {bounds bounds' : List Bound}
    (monotone : ∀ {left left' right right'}, left.Tightens left' → right.Tightens right' →
      Sharpens (operation left right) (operation left' right'))
    (tighter : List.Forall₂ Tightens bounds bounds') :
    Sharpens (ofPair? operation bounds) (ofPair? operation bounds') := by
  cases tighter with
  | nil => exact sharpens_none
  | cons first rest =>
    cases rest with
    | nil => exact sharpens_none
    | cons second rest =>
      cases rest with
      | nil => exact monotone first second
      | cons third rest => exact sharpens_none

/-- The bound of a call from those of its arguments, if the operation has one. -/
def ofCall? (op : CallOp) (args : List Bound) : Option Bound :=
  match op with
  | .shiftRight => ofPair? shiftRight? args
  | .shiftLeft => ofPair? shiftLeft? args
  | .bitwiseAnd => ofPair? ofBitwiseAnd? args
  | .ifThenElse => ofPair? (fun onTrue onFalse => some (onTrue.union onFalse)) args.tail
  | _ => none

theorem ofCall_eq (dtype : DataType) (op : CallOp) (args : List Bound) :
    ofCall dtype op args = (ofCall? op args).getD (ofType dtype) := by
  unfold ofCall
  split
  · rfl
  · rfl
  · exact ofBitwiseAnd_eq _ _ _
  · rfl
  next notRight notLeft notAnd notChoice =>
    have none : ofCall? op args = none := by
      unfold ofCall? ofPair?
      split
      · split <;> simp_all
      · split <;> simp_all
      · split <;> simp_all
      · cases args <;> split <;> simp_all
      · rfl
    rw [none, Option.getD_none]

theorem tighter_tail {bounds bounds' : List Bound} (tighter : List.Forall₂ Tightens bounds bounds') :
    List.Forall₂ Tightens bounds.tail bounds'.tail := by
  cases tighter with
  | nil => exact .nil
  | cons _ rest => exact rest

theorem sharpens_union {bounds bounds' : List Bound} (tighter : List.Forall₂ Tightens bounds bounds') :
    Sharpens (ofPair? (fun onTrue onFalse => some (onTrue.union onFalse)) bounds)
      (ofPair? (fun onTrue onFalse => some (onTrue.union onFalse)) bounds') :=
  sharpens_pair (fun first second => (first.union second).sharpens) tighter

theorem sharpens_call (op : CallOp) {args args' : List Bound}
    (tighter : List.Forall₂ Tightens args args') : Sharpens (ofCall? op args) (ofCall? op args') := by
  cases op with
  | shiftRight => exact sharpens_pair sharpens_shiftRight tighter
  | shiftLeft => exact sharpens_pair sharpens_shiftLeft tighter
  | bitwiseAnd => exact sharpens_pair sharpens_bitwiseAnd tighter
  | ifThenElse => exact sharpens_union (tighter_tail tighter)
  | _ => exact sharpens_none

/-- The lanes of several vectors, if there is one. -/
def ofShuffle? : List Bound → Option Bound
  | [] => none
  | first :: rest => some (rest.foldl union first)

theorem ofShuffle_eq (dtype : DataType) (bounds : List Bound) :
    ofShuffle dtype bounds = (ofShuffle? bounds).getD (ofType dtype) := by
  cases bounds <;> rfl

theorem Tightens.foldl_union {first first' : Bound} {rest rest' : List Bound}
    (tightens : first.Tightens first') (tighter : List.Forall₂ Tightens rest rest') :
    (rest.foldl Bound.union first).Tightens (rest'.foldl Bound.union first') := by
  induction tighter generalizing first first' with
  | nil => exact tightens
  | cons second _ inductionHypothesis => exact inductionHypothesis (tightens.union second)

theorem sharpens_shuffle {bounds bounds' : List Bound}
    (tighter : List.Forall₂ Tightens bounds bounds') :
    Sharpens (ofShuffle? bounds) (ofShuffle? bounds') := by
  cases tighter with
  | nil => exact sharpens_none
  | cons first rest => exact (first.foldl_union rest).sharpens

/-- The bound of a computed node. Nothing is inferred about floating-point values. -/
def ofComputed? (dtype : DataType) (bound? : Option Bound) : Option Bound :=
  if dtype.isFloat then some everything else bound?

theorem getD_ofComputed? (dtype : DataType) (bound? : Option Bound) :
    (ofComputed? dtype bound?).getD (ofType dtype) =
      if dtype.isFloat then everything else bound?.getD (ofType dtype) := by
  unfold ofComputed?
  split <;> rfl

theorem Sharpens.computed {bound? bound'? : Option Bound} (sharpens : Sharpens bound? bound'?)
    (dtype : DataType) : Sharpens (ofComputed? dtype bound?) (ofComputed? dtype bound'?) := by
  unfold ofComputed?
  split
  · exact ordered_everything.refl.sharpens
  · exact sharpens

/-- The bound of a node from those of its operands. It has none where only the range of its type is
known: the divisor of a quotient or remainder may be zero, the amount of a shift may be none that can be
shifted by, both operands of a bitwise conjunction may be negative, or nothing is known about the
operation at all. -/
def ofNode? (expr : Expr) (operands : List Bound) : Option Bound :=
  match expr with
  | .var _ name => some (ofVariable name)
  | .intConst _ value => some (point value)
  | .boolConst _ value => some (point value.toNat)
  | .floatConst _ value => some (ofFloat value)
  | .cast dtype _ => operands.head?.map (ofCast dtype)
  | .binary dtype op _ _ => ofComputed? dtype (ofPair? (ofBinary? op) operands)
  | .not dtype _ => ofComputed? dtype (some truth)
  | .select dtype .. =>
    ofComputed? dtype (ofPair? (fun onTrue onFalse => some (onTrue.union onFalse)) operands.tail)
  | .ramp dtype _ _ lanes =>
    ofComputed? dtype
      (ofPair? (fun base stride => some (base.add (stride.mul (ofInts 0 (lanes - 1))))) operands)
  | .broadcast dtype .. => ofComputed? dtype operands.head?
  | .shuffle dtype .. => ofComputed? dtype (ofShuffle? operands)
  | .letIn dtype .. => ofComputed? dtype operands.tail.head?
  | .call dtype op _ => ofComputed? dtype (ofCall? op operands)

theorem sharpens_head {bounds bounds' : List Bound} {operation : Bound → Bound}
    (monotone : ∀ {bound bound'}, bound.Tightens bound' → (operation bound).Tightens (operation bound'))
    (tighter : List.Forall₂ Tightens bounds bounds') :
    Sharpens (bounds.head?.map operation) (bounds'.head?.map operation) := by
  cases tighter with
  | nil => exact sharpens_none
  | cons first _ => exact (monotone first).sharpens

theorem sharpens_head_self {bounds bounds' : List Bound}
    (tighter : List.Forall₂ Tightens bounds bounds') : Sharpens bounds.head? bounds'.head? := by
  have sharpens := @sharpens_head bounds bounds' id id tighter
  rwa [Option.map_id, id, id] at sharpens

/-- Tighter bounds of the operands sharpen the bound of the node. -/
theorem sharpens_node {expr : Expr} {bounds bounds' : List Bound} (typed : expr.WellTyped)
    (tighter : List.Forall₂ Tightens bounds bounds') :
    Sharpens (ofNode? expr bounds) (ofNode? expr bounds') := by
  cases expr with
  | var dtype name => exact (ordered_ofVariable name).refl.sharpens
  | intConst dtype value => exact (ordered_point value).refl.sharpens
  | boolConst dtype value => exact (ordered_point value.toNat).refl.sharpens
  | floatConst dtype value => exact (ordered_ofFloat value).refl.sharpens
  | cast dtype value => exact sharpens_head (fun tightens => tightens.ofCast dtype) tighter
  | binary dtype op lhs rhs => exact (sharpens_pair (sharpens_binary op) tighter).computed dtype
  | not dtype value => exact ordered_truth.refl.sharpens.computed dtype
  | select dtype cond onTrue onFalse => exact (sharpens_union (tighter_tail tighter)).computed dtype
  | ramp dtype base stride lanes =>
    rw [Expr.WellTyped] at typed
    have indices : (ofInts 0 (lanes - 1)).Ordered := ordered_ofInts (by omega)
    have sharpens := sharpens_pair
      (fun first second => (first.add (second.mul indices.refl)).sharpens) tighter
    exact sharpens.computed dtype
  | broadcast dtype value lanes => exact (sharpens_head_self tighter).computed dtype
  | shuffle dtype vectors indices => exact (sharpens_shuffle tighter).computed dtype
  | letIn dtype name value body => exact (sharpens_head_self (tighter_tail tighter)).computed dtype
  | call dtype op args => exact (sharpens_call op tighter).computed dtype

end Bound

end IndexAlgebra
