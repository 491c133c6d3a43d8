/-
This file says exactly when a bound that is computed from the ends of two ranges of words holds the
result of the operation on two words of the ranges. An end at or beyond `2^63 - 1` is infinite. That
is no loss where a lower end becomes the negative infinity or an upper end the positive one. Where a
lower end becomes the positive infinity or an upper end the negative one, the bound holds no integer
at all. Apart from that every bound is right, and a remainder is always in its bound.
-/
import IndexAlgebra.Proofs.Bound

namespace IndexAlgebra.Bound

open Limit Word

variable {left right bound : Bound} {least most least' most' x y value : Int}

/-! ### Ends that are infinite in the wrong direction -/

/-- Neither end is infinite in the direction of the other one. -/
def Outward (bound : Bound) : Prop := bound.lower ≠ posInf ∧ bound.upper ≠ negInf

instance (bound : Bound) : Decidable bound.Outward := inferInstanceAs (Decidable (_ ∧ _))

/-- Each end is on its side of the value, unless it is infinite in the wrong direction. -/
structure Brackets (bound : Bound) (value : Int) : Prop where
  lower_le : bound.lower ≠ posInf → bound.lower ≤ finite value
  le_upper : bound.upper ≠ negInf → finite value ≤ bound.upper

theorem Brackets.of_contains (member : bound.contains value = true) : bound.Brackets value :=
  have between := Bound.contains_iff.mp member
  ⟨fun _ => between.1, fun _ => between.2⟩

theorem Brackets.contains_iff (brackets : bound.Brackets value) :
    bound.contains value = true ↔ bound.Outward := by
  rw [Bound.contains_iff]
  constructor
  · rintro ⟨low, high⟩
    exact ⟨fun infinite => not_posInf_le_finite value (infinite ▸ low),
      fun infinite => not_finite_le_negInf value (infinite ▸ high)⟩
  · rintro ⟨low, high⟩
    exact ⟨brackets.lower_le low, brackets.le_upper high⟩

theorem ofInt_ne_posInf_iff : ofInt value ≠ posInf ↔ value < greatest := by
  unfold ofInt
  split
  next large => simpa using large
  next small => split <;> simpa using small

theorem ofInt_ne_negInf_iff : ofInt value ≠ negInf ↔ -greatest < value := by
  unfold ofInt greatest
  split
  next large =>
    simp only [ne_eq, reduceCtorEq, not_false_eq_true, true_iff]
    omega
  next => split <;> simp <;> omega

theorem ofInt_le_of_ne (finiteEnd : ofInt least ≠ posInf) (low : ofInt least ≤ ofInt value) :
    ofInt least ≤ finite value := by
  have small := ofInt_ne_posInf_iff.mp finiteEnd
  by_cases large : greatest ≤ value
  · exact Limit.le_trans (ofInt_le_self small) (finite_le_finite.mpr (by omega))
  · exact Limit.le_trans low (ofInt_le_self (by omega))

theorem le_ofInt_of_ne (finiteEnd : ofInt most ≠ negInf) (high : ofInt value ≤ ofInt most) :
    finite value ≤ ofInt most := by
  have large := ofInt_ne_negInf_iff.mp finiteEnd
  by_cases small : value ≤ -greatest
  · exact Limit.le_trans (finite_le_finite.mpr (by omega)) (self_le_ofInt large)
  · exact Limit.le_trans (self_le_ofInt (by omega)) high

/-! ### Sums and differences -/

theorem Brackets.neg (brackets : bound.Brackets value) : bound.neg.Brackets (-value) := by
  obtain ⟨lower, upper⟩ := bound
  constructor
  · intro finiteEnd
    exact neg_le_neg (brackets.le_upper fun infinite => finiteEnd (congrArg Limit.neg infinite))
  · intro finiteEnd
    exact neg_le_neg (brackets.lower_le fun infinite => finiteEnd (congrArg Limit.neg infinite))

theorem Brackets.add (isLeft : left.Brackets x) (isRight : right.Brackets y) :
    (left.add right).Brackets (x + y) := by
  obtain ⟨lower, upper⟩ := left
  obtain ⟨lower', upper'⟩ := right
  obtain ⟨low, high⟩ := isLeft
  obtain ⟨low', high'⟩ := isRight
  constructor
  · cases lower <;> cases lower' <;> simp_all [Bound.add, Limit.add?]
    exact fun finiteEnd => ofInt_le_of_ne finiteEnd (ofInt_mono (by omega))
  · cases upper <;> cases upper' <;> simp_all [Bound.add, Limit.add?]
    exact fun finiteEnd => le_ofInt_of_ne finiteEnd (ofInt_mono (by omega))

theorem Brackets.sub (isLeft : left.Brackets x) (isRight : right.Brackets y) :
    (left.sub right).Brackets (x - y) := isLeft.add isRight.neg

/-! ### Ranges of words -/

theorem ofInt_min (first second : Int) : min (ofInt first) (ofInt second) = ofInt (min first second) := by
  rw [Limit.min_def]
  split
  next ordered =>
    rcases Int.le_total first second with less | less
    · rw [Int.min_eq_left less]
    · rw [Int.min_eq_right less]
      exact Limit.le_antisymm ordered (ofInt_mono less)
  next unordered =>
    rw [Int.min_eq_right]
    exact Int.le_of_lt (Int.not_le.mp fun less => unordered (ofInt_mono less))

theorem ofInt_max (first second : Int) : max (ofInt first) (ofInt second) = ofInt (max first second) := by
  rw [Limit.max_def]
  split
  next ordered =>
    rcases Int.le_total first second with less | less
    · rw [Int.max_eq_right less]
    · rw [Int.max_eq_left less]
      exact Limit.le_antisymm (ofInt_mono less) ordered |>.symm ▸ rfl
  next unordered =>
    rw [Int.max_eq_left]
    exact Int.le_of_lt (Int.not_le.mp fun less => unordered (ofInt_mono less))

theorem brackets_ofInts (low : ofInt least ≤ ofInt value) (high : ofInt value ≤ ofInt most) :
    (ofInts least most).Brackets value :=
  ⟨fun finiteEnd => ofInt_le_of_ne finiteEnd low, fun finiteEnd => le_ofInt_of_ne finiteEnd high⟩

theorem signed_ofInts (low : least ≤ value) (high : value ≤ most) :
    (ofInts least most).Signed value := by
  have positive : 0 < greatest := by decide
  refine ⟨fun nonneg => ?_, fun nonpos => ?_, fun nonpos => ?_, fun nonneg => ?_⟩
  · by_contra negative
    have small := Limit.le_trans nonneg (ofInt_mono (by omega : least ≤ -1))
    exact absurd small (by decide)
  · by_contra negative
    have large := Limit.le_trans (ofInt_mono (by omega : 1 ≤ most)) nonpos
    exact absurd large (by decide)
  · exact ofInt_le_of_ne (ofInt_ne_posInf_iff.mpr (by omega)) (ofInt_mono low)
  · exact le_ofInt_of_ne (ofInt_ne_negInf_iff.mpr (by omega)) (ofInt_mono high)

section

variable (low : least ≤ x) (high : x ≤ most) (low' : least' ≤ y) (high' : y ≤ most')
include low high low' high'

theorem brackets_minimum :
    ((ofInts least most).minimum (ofInts least' most')).Brackets (min x y) := by
  rw [minimum, ofInts, ofInts, ofInt_min, ofInt_min]
  exact brackets_ofInts (ofInt_mono (by omega)) (ofInt_mono (by omega))

theorem brackets_maximum :
    ((ofInts least most).maximum (ofInts least' most')).Brackets (max x y) := by
  rw [maximum, ofInts, ofInts, ofInt_max, ofInt_max]
  exact brackets_ofInts (ofInt_mono (by omega)) (ofInt_mono (by omega))

theorem brackets_union :
    ((ofInts least most).union (ofInts least' most')).Brackets x ∧
      ((ofInts least most).union (ofInts least' most')).Brackets y := by
  rw [union, ofInts, ofInts, ofInt_min, ofInt_max]
  exact ⟨brackets_ofInts (ofInt_mono (by omega)) (ofInt_mono (by omega)),
    brackets_ofInts (ofInt_mono (by omega)) (ofInt_mono (by omega))⟩

end

/-! ### Products -/

theorem ofInt_of_large (large : greatest ≤ value) : ofInt value = posInf := if_pos large

theorem ofInt_of_small (small : value ≤ -greatest) : ofInt value = negInf :=
  Decidable.byContradiction fun finiteEnd =>
    absurd (ofInt_ne_negInf_iff.mp finiteEnd) (Int.not_lt.mpr small)

theorem not_ofInt_le_zero (positive : 0 < value) : ¬ofInt value ≤ finite 0 := fun nonpos =>
  absurd (Limit.le_trans (ofInt_mono (by omega : 1 ≤ value)) nonpos) (by decide)

theorem mul_ofInt_of_nonneg (first : Int) {second : Int} (nonneg : 0 ≤ second) :
    (ofInt first).mul (ofInt second) = ofInt (first * second) := by
  have limit : 0 < greatest := by decide
  rcases Int.lt_or_eq_of_le nonneg with positive | rfl
  · have positiveEnd := not_ofInt_le_zero positive
    by_cases large : greatest ≤ first
    · rw [ofInt_of_large large, mul_eq_of_infinite (.inr rfl) positiveEnd, ofInt_of_large (by nlinarith)]
    · by_cases small : first ≤ -greatest
      · rw [ofInt_of_small small, mul_eq_of_infinite (.inl rfl) positiveEnd, ofInt_of_small (by nlinarith)]
      · have inside : Inside first := ⟨by omega, by omega⟩
        rw [ofInt_of_inside inside, finite_mul_ofInt inside nonneg]
  · rw [Int.mul_zero]
    exact Limit.mul_zero (ofInt first)

/-- The product of the ends that stand for two integers stands for their product. -/
theorem mul_ofInt (first second : Int) :
    (ofInt first).mul (ofInt second) = ofInt (first * second) := by
  rcases Int.le_total 0 second with nonneg | nonpos
  · exact mul_ofInt_of_nonneg first nonneg
  · have opposite := mul_ofInt_of_nonneg first (by omega : 0 ≤ -second)
    rw [← neg_ofInt, Limit.mul_neg, Int.mul_neg, ← neg_ofInt] at opposite
    rw [← Limit.neg_neg ((ofInt first).mul (ofInt second)), opposite, Limit.neg_neg]

/-- The bound around the ends that stand for some integers is that of a range. -/
theorem exists_corners_eq {operation : Limit → Limit → Limit} {compute : Int → Int → Int}
    (stands : ∀ first second, operation (ofInt first) (ofInt second) = ofInt (compute first second)) :
    ∃ low high, corners operation (ofInts least most) (ofInts least' most') = ofInts low high := by
  simp only [corners, around, ofInts, List.foldl, stands, ofInt_min, ofInt_max]
  exact ⟨_, _, rfl⟩

theorem brackets_mul (low : least ≤ x) (high : x ≤ most) (low' : least' ≤ y) (high' : y ≤ most') :
    ((ofInts least most).mul (ofInts least' most')).Brackets (x * y) := by
  have isFirst : (ofInts least most).lower ≤ ofInt x ∧ ofInt x ≤ (ofInts least most).upper :=
    ⟨ofInt_mono low, ofInt_mono high⟩
  have isSecond : (ofInts least' most').lower ≤ ofInt y ∧ ofInt y ≤ (ofInts least' most').upper :=
    ⟨ofInt_mono low', ofInt_mono high'⟩
  have within := within_mul isFirst isSecond
  obtain ⟨first, last, isRange⟩ : ∃ first last,
      (ofInts least most).mul (ofInts least' most') = ofInts first last := exists_corners_eq mul_ofInt
  rw [mul_ofInt, isRange] at within
  rw [isRange]
  exact brackets_ofInts within.1 within.2

/-! ### Quotients and shifts -/

/-- A range of words whose ends are not outward has one infinity for both. -/
theorem outward_or_infinite (ordered : least ≤ most) :
    (ofInts least most).Outward ∨
      ∃ limit, (limit = posInf ∨ limit = negInf) ∧ ofInts least most = ⟨limit, limit⟩ := by
  have limit : 0 < greatest := by decide
  by_cases large : greatest ≤ least
  · refine .inr ⟨posInf, .inl rfl, ?_⟩
    rw [ofInts, ofInt_of_large large, ofInt_of_large (by omega)]
  · by_cases small : most ≤ -greatest
    · refine .inr ⟨negInf, .inr rfl, ?_⟩
      rw [ofInts, ofInt_of_small small, ofInt_of_small (by omega)]
    · exact .inl ⟨ofInt_ne_posInf_iff.mpr (by omega), ofInt_ne_negInf_iff.mpr (by omega)⟩

theorem brackets_infinite {limit : Limit} (infinite : limit = posInf ∨ limit = negInf) :
    (⟨limit, limit⟩ : Bound).Brackets value := by
  rcases infinite with rfl | rfl
  · exact ⟨fun finiteEnd => absurd rfl finiteEnd, fun _ => le_posInf _⟩
  · exact ⟨fun _ => negInf_le _, fun finiteEnd => absurd rfl finiteEnd⟩

theorem corners_of_eq {operation : Limit → Limit → Limit} {limit result : Limit}
    (atLower : operation limit right.lower = result) (atUpper : operation limit right.upper = result) :
    corners operation ⟨limit, limit⟩ right = ⟨result, result⟩ := by
  simp [corners, around, atLower, atUpper, Limit.min_def, Limit.max_def]

/-- The quotient of a finite end is that of the integers, by a divisor of any size. -/
theorem div_finite_ofInt (floor : Bool) (inside : Inside x) (positive : 0 < y) :
    div floor (finite x) (ofInt y) = finite (divideInts floor x y) := by
  have whole : divideInts floor x 1 = x := by cases floor <;> simp [divideInts]
  unfold Inside at inside
  by_cases large : greatest ≤ y
  · rw [ofInt_of_large large, finite_div_posInf]
    congr 1
    rcases lt_or_ge x 0 with negative | nonneg
    · rw [divideInts_of_nonpos floor negative.le positive, if_pos negative,
        Int.ediv_eq_neg_one_of_neg_of_le negative (by omega),
        Int.ediv_eq_zero_of_lt (by omega) (by omega)]
      rfl
    · rw [divideInts_of_nonneg floor nonneg positive, if_neg (by omega),
        Int.ediv_eq_zero_of_lt nonneg (by omega)]
  · rw [ofInt_of_inside ⟨by omega, by omega⟩]
    refine ofInt_of_inside ?_
    rcases Int.le_total 0 x with nonneg | nonpos
    · have low := divideInts_nonneg floor nonneg positive
      have high := divideInts_antitone floor nonneg Int.one_pos (by omega : 1 ≤ y)
      exact ⟨by omega, by omega⟩
    · have low := divideInts_monotone floor nonpos Int.one_pos (by omega : 1 ≤ y)
      have high := divideInts_mono floor positive nonpos
      have zero : divideInts floor 0 y = 0 := by cases floor <;> simp [divideInts]
      exact ⟨by omega, by omega⟩

/-- A quotient by an integer above zero is at least that of the lower end. -/
theorem div_ofInt_le (floor : Bool) (finiteEnd : ofInt least ≠ posInf) (low : least ≤ x)
    (positive : 0 < y) : div floor (ofInt least) (ofInt y) ≤ finite (divideInts floor x y) := by
  have small := ofInt_ne_posInf_iff.mp finiteEnd
  by_cases below : least ≤ -greatest
  · rw [ofInt_of_small below, negInf_div floor (not_ofInt_le_zero positive)]
    exact negInf_le _
  · have inside : Inside least := ⟨by omega, small⟩
    rw [ofInt_of_inside inside, div_finite_ofInt floor inside positive]
    exact finite_le_finite.mpr (divideInts_mono floor positive low)

/-- A quotient by an integer above zero is at most that of the upper end. -/
theorem le_div_ofInt (floor : Bool) (finiteEnd : ofInt most ≠ negInf) (high : x ≤ most)
    (positive : 0 < y) : finite (divideInts floor x y) ≤ div floor (ofInt most) (ofInt y) := by
  have large := ofInt_ne_negInf_iff.mp finiteEnd
  by_cases above : greatest ≤ most
  · rw [ofInt_of_large above, posInf_div floor (not_ofInt_le_zero positive)]
    exact le_posInf _
  · have inside : Inside most := ⟨large, by omega⟩
    rw [ofInt_of_inside inside, div_finite_ofInt floor inside positive]
    exact finite_le_finite.mpr (divideInts_mono floor positive high)

theorem neg_ne_posInf {limit : Limit} (finiteEnd : limit ≠ negInf) : limit.neg ≠ posInf := by
  cases limit <;> simp_all [Limit.neg]

theorem neg_ne_negInf {limit : Limit} (finiteEnd : limit ≠ posInf) : limit.neg ≠ negInf := by
  cases limit <;> simp_all [Limit.neg]

/-- The same for an integer below zero, which exchanges the ends. -/
theorem div_ofInt_le_of_neg (floor : Bool) (finiteEnd : ofInt most ≠ negInf) (high : x ≤ most)
    (negative : y < 0) : div floor (ofInt most) (ofInt y) ≤ finite (divideInts floor x y) := by
  rw [← div_neg_neg, ← divideInts_neg_neg, neg_ofInt, neg_ofInt]
  exact div_ofInt_le floor (neg_ofInt most ▸ neg_ne_posInf finiteEnd) (by omega) (by omega)

theorem le_div_ofInt_of_neg (floor : Bool) (finiteEnd : ofInt least ≠ posInf) (low : least ≤ x)
    (negative : y < 0) : finite (divideInts floor x y) ≤ div floor (ofInt least) (ofInt y) := by
  rw [← div_neg_neg, ← divideInts_neg_neg, neg_ofInt, neg_ofInt]
  exact le_div_ofInt floor (neg_ofInt least ▸ neg_ne_negInf finiteEnd) (by omega) (by omega)

/-- The quotients of an infinite end by the ends of a divisor are one infinity. -/
theorem exists_div_infinite (floor : Bool) {limit : Limit} (infinite : limit = posInf ∨ limit = negInf)
    (ordered : right.lower ≤ right.upper) (divisor : right.isDivisor = true) :
    ∃ result, (result = posInf ∨ result = negInf) ∧ div floor limit right.lower = result ∧
      div floor limit right.upper = result := by
  rcases isDivisor_iff.mp divisor with positive | negative
  · have positive' : ¬right.upper ≤ finite 0 := fun nonpos =>
      positive (Limit.le_trans ordered nonpos)
    refine ⟨limit, infinite, ?_⟩
    rcases infinite with rfl | rfl
    · exact ⟨posInf_div floor positive, posInf_div floor positive'⟩
    · exact ⟨negInf_div floor positive, negInf_div floor positive'⟩
  · have negative' : ¬finite 0 ≤ right.lower := fun nonneg =>
      negative (Limit.le_trans nonneg ordered)
    rw [← div_neg_neg floor limit right.lower, ← div_neg_neg floor limit right.upper]
    refine ⟨limit.neg, infinite.symm.imp (congrArg Limit.neg) (congrArg Limit.neg), ?_⟩
    rcases infinite with rfl | rfl
    · exact ⟨negInf_div floor (not_neg_le_zero negative'), negInf_div floor (not_neg_le_zero negative)⟩
    · exact ⟨posInf_div floor (not_neg_le_zero negative'), posInf_div floor (not_neg_le_zero negative)⟩

theorem brackets_div (floor : Bool) {quotient : Bound}
    (divides : (ofInts least most).div? floor (ofInts least' most') = some quotient)
    (low : least ≤ x) (high : x ≤ most) (low' : least' ≤ y) (high' : y ≤ most') :
    quotient.Brackets (divideInts floor x y) := by
  rw [div?, Option.ite_none_right_eq_some, Option.some.injEq] at divides
  obtain ⟨divisor, rfl⟩ := divides
  have oneSign := isDivisor_iff.mp divisor
  have isSecond := signed_ofInts low' high'
  rcases outward_or_infinite (Int.le_trans low high) with outward | ⟨limit, infinite, same⟩
  · refine .of_contains (Bound.contains_iff.mpr ?_)
    have sameSign : ¬ofInt y ≤ finite 0 ∨ ¬finite 0 ≤ ofInt y :=
      oneSign.imp (fun positive => not_ofInt_le_zero (isSecond.pos positive))
        fun negative nonneg => negative (Limit.le_trans nonneg (ofInt_mono high'))
    have within {limit : Limit} (isLow : ofInt least ≤ limit) (isHigh : limit ≤ ofInt most) :
        let quotient := corners (Limit.div floor) (ofInts least most) (ofInts least' most')
        quotient.lower ≤ div floor limit (ofInt y) ∧ div floor limit (ofInt y) ≤ quotient.upper :=
      within_corners (Limit.div floor) limit (ofInt y)
        (between_div_dividend floor sameSign isLow isHigh)
        (between_div_divisor floor _ oneSign (ofInt_mono low') (ofInt_mono high'))
        (between_div_divisor floor _ oneSign (ofInt_mono low') (ofInt_mono high'))
    have ordered := ofInt_mono (Int.le_trans low high)
    have atLower := within (Limit.le_refl _) ordered
    have atUpper := within ordered (Limit.le_refl _)
    rcases oneSign with positive | negative
    · have positive := isSecond.pos positive
      exact ⟨Limit.le_trans atLower.1 (div_ofInt_le floor outward.1 low positive),
        Limit.le_trans (le_div_ofInt floor outward.2 high positive) atUpper.2⟩
    · have negative := isSecond.neg negative
      exact ⟨Limit.le_trans atUpper.1 (div_ofInt_le_of_neg floor outward.2 high negative),
        Limit.le_trans (le_div_ofInt_of_neg floor outward.1 low negative) atLower.2⟩
  · obtain ⟨result, isInfinite, atLower, atUpper⟩ := exists_div_infinite floor infinite
      (ofInt_mono (Int.le_trans low' high')) divisor
    rw [same, corners_of_eq atLower atUpper]
    exact brackets_infinite isInfinite

theorem shiftAmount_ofInt (nonneg : 0 ≤ y) : shiftAmount (ofInt y) = min y.toNat 63 := by
  by_cases large : greatest ≤ y
  · rw [ofInt_of_large large]
    unfold greatest at large
    show 63 = min y.toNat 63
    exact (Nat.min_eq_right (by omega)).symm
  · rw [ofInt_of_inside ⟨by unfold greatest; omega, by omega⟩, shiftAmount_finite nonneg]

theorem brackets_shiftRight {shifted : Bound} (word : Fits x)
    (shifts : (ofInts least most).shiftRight? (ofInts least' most') = some shifted)
    (low : least ≤ x) (high : x ≤ most) (low' : least' ≤ y) (high' : y ≤ most') :
    shifted.Brackets (x.fdiv (twoPow y.toNat)) := by
  rw [shiftRight?, Option.ite_none_right_eq_some, Option.some.injEq] at shifts
  obtain ⟨isNonNegative, rfl⟩ := shifts
  have nonnegEnd : finite 0 ≤ (ofInts least' most').lower := of_decide_eq_true isNonNegative
  have nonneg := (signed_ofInts low' high').nonneg nonnegEnd
  rcases outward_or_infinite (Int.le_trans low high) with outward | ⟨limit, infinite, same⟩
  · have member := Bound.contains_iff.mp
      ((brackets_ofInts (ofInt_mono low) (ofInt_mono high)).contains_iff.mpr outward)
    have within := within_corners shiftEnd (finite x) (ofInt y)
      (between_shiftEnd_value _ member.1 member.2)
      (between_shiftEnd_amount (ofInts least most).lower nonnegEnd (ofInt_mono low')
        (ofInt_mono high'))
      (between_shiftEnd_amount (ofInts least most).upper nonnegEnd (ofInt_mono low')
        (ofInt_mono high'))
    rw [shiftEnd, shiftAmount_ofInt nonneg, fdiv_twoPow_min word] at within
    exact .of_contains (Bound.contains_iff.mpr within)
  · have shiftInfinite (amount : Limit) : shiftEnd limit amount = limit := by
      rcases infinite with rfl | rfl <;> rfl
    rw [same, corners_of_eq (shiftInfinite _) (shiftInfinite _)]
    exact brackets_infinite infinite

theorem eq_of_ofInt_eq_finite {limit : Int} (isFinite : ofInt value = finite limit) :
    value = limit := by
  have inside : Inside value := by
    refine ⟨ofInt_ne_negInf_iff.mp ?_, ofInt_ne_posInf_iff.mp ?_⟩ <;> simp [isFinite]
  simpa [ofInt_of_inside inside] using isFinite

theorem brackets_shiftLeft {shifted : Bound}
    (shifts : (ofInts least most).shiftLeft? (ofInts least' most') = some shifted)
    (low : least ≤ x) (high : x ≤ most) (low' : least' ≤ y) (high' : y ≤ most') :
    shifted.Brackets (x * twoPow y.toNat) := by
  obtain ⟨first, last, isAmount, nonneg, small, rfl⟩ := shiftLeft?_eq_some shifts
  obtain rfl : least' = first := eq_of_ofInt_eq_finite (congrArg Bound.lower isAmount)
  obtain rfl : most' = last := eq_of_ofInt_eq_finite (congrArg Bound.upper isAmount)
  rw [wrap_twoPow nonneg (by omega), wrap_twoPow (by omega) small]
  have less : twoPow least'.toNat ≤ twoPow y.toNat := twoPow_mono (by omega)
  have greater : twoPow y.toNat ≤ twoPow most'.toNat := twoPow_mono (by omega)
  exact brackets_mul low high (by omega) (by omega)

/-! ### All operations on ranges of words -/

/-- What the bounds that are computed from two ranges hold, for a word in each of the ranges. -/
theorem operations_contain_iff_outward (word : Fits x) (low : least ≤ x) (high : x ≤ most)
    (low' : least' ≤ y) (high' : y ≤ most') :
    let left := ofInts least most
    let right := ofInts least' most'
    (left.contains x = true ↔ left.Outward) ∧
      ((left.union right).contains x = true ↔ (left.union right).Outward) ∧
      ((left.union right).contains y = true ↔ (left.union right).Outward) ∧
      (left.neg.contains (-x) = true ↔ left.neg.Outward) ∧
      ((left.add right).contains (x + y) = true ↔ (left.add right).Outward) ∧
      ((left.sub right).contains (x - y) = true ↔ (left.sub right).Outward) ∧
      ((left.mul right).contains (x * y) = true ↔ (left.mul right).Outward) ∧
      ((left.minimum right).contains (min x y) = true ↔ (left.minimum right).Outward) ∧
      ((left.maximum right).contains (max x y) = true ↔ (left.maximum right).Outward) ∧
      (∀ floor quotient, left.div? floor right = some quotient →
        (quotient.contains (divideInts floor x y) = true ↔ quotient.Outward)) ∧
      (∀ remainder, left.truncMod? right = some remainder →
        remainder.contains (x.tmod y) = true) ∧
      (∀ remainder, left.floorMod? right = some remainder →
        remainder.contains (x.fmod y) = true) ∧
      (∀ shifted, left.shiftRight? right = some shifted →
        (shifted.contains (x.fdiv (twoPow y.toNat)) = true ↔ shifted.Outward)) ∧
      ∀ shifted, left.shiftLeft? right = some shifted →
        (shifted.contains (x * twoPow y.toNat) = true ↔ shifted.Outward) := by
  intro left right
  have isLeft : left.Brackets x := brackets_ofInts (ofInt_mono low) (ofInt_mono high)
  have isRight : right.Brackets y := brackets_ofInts (ofInt_mono low') (ofInt_mono high')
  have isSigned : left.Signed x := signed_ofInts low high
  have isDivisor : right.Signed y := signed_ofInts low' high'
  have union := brackets_union low high low' high'
  exact ⟨isLeft.contains_iff, union.1.contains_iff, union.2.contains_iff, isLeft.neg.contains_iff,
    (isLeft.add isRight).contains_iff, (isLeft.sub isRight).contains_iff,
    (brackets_mul low high low' high').contains_iff,
    (brackets_minimum low high low' high').contains_iff,
    (brackets_maximum low high low' high').contains_iff,
    fun floor _ divides => (brackets_div floor divides low high low' high').contains_iff,
    fun _ divides => contains_truncMod divides isSigned isDivisor,
    fun _ divides => contains_floorMod divides isSigned isDivisor,
    fun _ shifts => (brackets_shiftRight word shifts low high low' high').contains_iff,
    fun _ shifts => (brackets_shiftLeft shifts low high low' high').contains_iff⟩

/-- The greatest word is in the range from zero to it, whose upper end is the positive infinity, and
so are its sums and products in their bounds. The range of the greatest word alone holds nothing. -/
theorem operations_contain_iff_outward_greatest :
    let left := ofInts 0 greatest
    let right := ofInts greatest greatest
    left.contains greatest = true ∧ (left.union right).contains greatest = true ∧
      (left.add right).contains (greatest + greatest) = false ∧
      (left.mul right).contains (greatest * greatest) = true ∧
      ∃ remainder, left.truncMod? right = some remainder ∧
        remainder.contains (greatest.tmod greatest) = true := by
  obtain ⟨isLeft, union, -, -, sum, -, product, -, -, -, remainder, -⟩ :=
    @operations_contain_iff_outward 0 greatest greatest greatest greatest greatest (by decide)
      (by decide) (Int.le_refl _) (Int.le_refl _) (Int.le_refl _)
  refine ⟨isLeft.mpr (by decide), union.mpr (by decide),
    Bool.eq_false_iff.mpr fun member => absurd (sum.mp member) (by decide),
    product.mpr (by decide), _, rfl, remainder _ rfl⟩

/-- A range that ends in the greatest word on both sides does not hold it, and neither does the sum
of the range of the word before it and that of one. -/
theorem not_operations_contain :
    ¬(∀ least most x : Int, Fits least → Fits most → least ≤ x → x ≤ most →
        (ofInts least most).contains x = true) ∧
      (ofInts (greatest - 1) (greatest - 1)).contains (greatest - 1) = true ∧
      (point 1).contains 1 = true ∧
      ((point (greatest - 1)).add (point 1)).contains (greatest - 1 + 1) = false := by
  refine ⟨fun holds => ?_, by decide, by decide, by decide⟩
  exact absurd (holds greatest greatest greatest (by decide) (by decide) (Int.le_refl _)
    (Int.le_refl _)) (by decide)

end IndexAlgebra.Bound
