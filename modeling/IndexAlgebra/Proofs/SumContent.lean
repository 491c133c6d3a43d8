/-
This file says which sums are divided exactly. The content of a sum is the greatest common divisor of
its coefficients unless the first of them is the smallest word: its magnitude is no word and is cut to
the word below it, which has other divisors. A divisor of all coefficients that the cut loses is
refused, and one that it makes up leaves a remainder in the first coefficient that is dropped.
-/
import IndexAlgebra.Proofs.SumForm

namespace IndexAlgebra

namespace SumForm

open Word

variable {sum quotient : SumForm} {divisor : Int} {terms rest : List (Product × Int)}

/-- The constant and the coefficients are words. -/
structure Words (sum : SumForm) : Prop where
  constant : Fits sum.constant
  coefficient : ∀ term ∈ sum.terms, Fits term.2

/-- No coefficient is zero. -/
def NonZero (sum : SumForm) : Prop := ∀ term ∈ sum.terms, term.2 ≠ 0

instance (sum : SumForm) : Decidable sum.NonZero :=
  inferInstanceAs (Decidable (∀ term ∈ sum.terms, _))

/-! ### Common divisors -/

/-- The greatest common divisor of the coefficients, of any size. -/
def commonDivisor : List (Product × Int) → Nat
  | [] => 0
  | term :: rest => Nat.gcd term.2.natAbs (commonDivisor rest)

theorem dvd_commonDivisor :
    divisor ∣ commonDivisor terms ↔ ∀ term ∈ terms, divisor ∣ term.2 := by
  induction terms with
  | nil => simp [commonDivisor]
  | cons term rest inductionHypothesis =>
    rw [List.forall_mem_cons, ← inductionHypothesis, ← Int.dvd_natAbs (b := term.2), commonDivisor]
    simp only [← Int.natAbs_dvd_natAbs, Int.natAbs_natCast]
    exact Nat.dvd_gcd_iff

/-- From a divisor above zero that is a word on, nothing is cut. -/
theorem foldl_gcd {current : Int} (positive : 0 < current) (small : current ≤ greatest) :
    terms.foldl (fun divisor term => Word.gcd divisor term.2) current =
      Nat.gcd current.natAbs (commonDivisor terms) := by
  induction terms generalizing current with
  | nil =>
    rw [List.foldl_nil, commonDivisor, Nat.gcd_zero_right]
    exact (Int.natAbs_of_nonneg positive.le).symm
  | cons term rest inductionHypothesis =>
    have least : (Int.gcd current term.2 : Int) ≤ current :=
      Int.le_of_dvd positive (Int.gcd_dvd_left _ _)
    have isGcd : Word.gcd current term.2 = Int.gcd current term.2 := min_eq_left (by omega)
    rw [List.foldl_cons, isGcd, inductionHypothesis (mod_cast Int.gcd_pos_of_ne_zero_left _ positive.ne')
      (by omega), commonDivisor, ← Nat.gcd_assoc]
    rfl

theorem content_eq {term : Product × Int} (isTerms : sum.terms = term :: rest)
    (nonzero : term.2 ≠ 0) :
    sum.content = Nat.gcd (min term.2.natAbs greatest.natAbs) (commonDivisor rest) := by
  have start : Word.gcd 0 term.2 = (min term.2.natAbs greatest.natAbs : Nat) := by
    rw [Word.gcd, Int.gcd_zero_left, greatest]
    omega
  have positive : 0 < min term.2.natAbs greatest.natAbs := by
    rw [greatest]
    omega
  rw [content, isTerms, List.foldl_cons]
  show rest.foldl (fun divisor term => Word.gcd divisor term.2) (Word.gcd 0 term.2) = _
  rw [start, foldl_gcd (mod_cast positive) (by rw [greatest]; omega), Int.natAbs_natCast]

/-- The divisor does not tell the smallest word from the number that it is cut to. It divides both or
neither, if the sum begins with the smallest word and it divides the other coefficients. -/
def KeepsDivisor (sum : SumForm) (divisor : Int) : Prop :=
  ∀ term rest, sum.terms = term :: rest → term.2 = least → (∀ other ∈ rest, divisor ∣ other.2) →
    (divisor ∣ greatest ↔ divisor ∣ least)

/-- The content has the divisors that all coefficients have, apart from those that the cut changes. -/
theorem keepsDivisor_iff (words : sum.Words) (nonzero : sum.NonZero) :
    sum.KeepsDivisor divisor ↔
      (divisor ∣ sum.content ↔ ∀ term ∈ sum.terms, divisor ∣ term.2) := by
  unfold KeepsDivisor
  rcases isTerms : sum.terms with _ | ⟨term, rest⟩
  · simp [content, isTerms]
  have member : term ∈ sum.terms := isTerms ▸ List.mem_cons_self
  have divides : divisor ∣ sum.content ↔
      divisor ∣ (min term.2.natAbs greatest.natAbs : Nat) ∧ ∀ other ∈ rest, divisor ∣ other.2 := by
    rw [content_eq isTerms (nonzero term member), ← dvd_commonDivisor]
    simp only [← Int.natAbs_dvd_natAbs, Int.natAbs_natCast]
    exact Nat.dvd_gcd_iff
  rw [divides, List.forall_mem_cons]
  have word := words.coefficient term member
  by_cases smallest : term.2 = least
  · have cut : ((min term.2.natAbs greatest.natAbs : Nat) : Int) = greatest := by
      rw [smallest]
      rfl
    rw [cut, smallest, and_congr_left_iff]
    constructor
    · exact fun keeps => keeps term rest rfl smallest
    · rintro keeps _ _ ⟨⟩ - divisible
      exact keeps divisible
  · have whole : min term.2.natAbs greatest.natAbs = term.2.natAbs := by
      unfold Fits least greatest at *
      omega
    rw [whole, Int.dvd_natAbs]
    refine iff_of_true ?_ Iff.rfl
    rintro _ _ ⟨⟩ isLeast
    exact absurd isLeast smallest

theorem content_nonneg (nonzero : sum.NonZero) : 0 ≤ sum.content := by
  rcases isTerms : sum.terms with _ | ⟨term, rest⟩
  · simp [content, isTerms]
  · rw [content_eq isTerms (nonzero term (isTerms ▸ List.mem_cons_self))]
    exact Int.natCast_nonneg _

/-- The content is the greatest common divisor exactly where the cut changes no divisor. -/
theorem content_eq_commonDivisor_iff (words : sum.Words) (nonzero : sum.NonZero) :
    sum.content = commonDivisor sum.terms ↔ ∀ divisor, sum.KeepsDivisor divisor := by
  simp only [keepsDivisor_iff words nonzero, ← dvd_commonDivisor]
  constructor
  · intro same divisor
    rw [same]
  · intro same
    exact Int.dvd_antisymm (content_nonneg nonzero) (Int.natCast_nonneg _)
      ((same _).mp (Int.dvd_refl _)) ((same _).mpr (Int.dvd_refl _))

/-! ### Quotients -/

/-- The sum with every coefficient and the constant divided, rounded toward zero. -/
def truncated (sum : SumForm) (divisor : Int) : SumForm :=
  ⟨sum.dtype, sum.terms.map fun term => (term.1, term.2.tdiv divisor), sum.constant.tdiv divisor⟩

theorem isQuotient_iff : sum.IsQuotient divisor quotient ↔
    divisor ≠ 0 ∧ divisor ∣ sum.constant ∧ (∀ term ∈ sum.terms, divisor ∣ term.2) ∧
      quotient = sum.truncated divisor := by
  constructor
  · rintro ⟨nonzero, types, areTerms, isConstant⟩
    obtain ⟨dtype, terms, constant⟩ := quotient
    refine ⟨nonzero, ⟨constant, by rw [← isConstant, Int.mul_comm]⟩, ?_, ?_⟩
    · rw [← areTerms, List.forall_mem_map]
      exact fun term _ => Int.dvd_mul_left _ _
    · rw [truncated, ← types, ← areTerms, ← isConstant, Int.mul_tdiv_cancel _ nonzero, List.map_map]
      simp [Function.comp_def, Int.mul_tdiv_cancel _ nonzero]
  · rintro ⟨nonzero, divides, each, rfl⟩
    refine ⟨nonzero, rfl, ?_, Int.tdiv_mul_cancel divides⟩
    rw [truncated, List.map_map]
    refine List.map_congr_left (fun term member => ?_) |>.trans (List.map_id _)
    exact Prod.ext rfl (Int.tdiv_mul_cancel (each term member))

/-- A function that answers under a condition answers for a list if the condition holds of all. -/
theorem mapM_checked_eq_some_iff {α β : Type} {f : α → Option β} {g : α → β} {allowed : α → Prop}
    (each : ∀ input result, f input = some result ↔ allowed input ∧ g input = result)
    {inputs : List α} {results : List β} :
    inputs.mapM f = some results ↔ (∀ input ∈ inputs, allowed input) ∧ inputs.map g = results := by
  induction inputs generalizing results with
  | nil => simp
  | cons input rest inductionHypothesis =>
    simp only [List.mapM_cons, Option.bind_eq_bind, Option.bind_eq_some_iff, each,
      inductionHypothesis, Option.pure_def, Option.some.injEq, List.forall_mem_cons, List.map_cons]
    constructor
    · rintro ⟨_, ⟨isAllowed, rfl⟩, _, ⟨areAllowed, rfl⟩, rfl⟩
      exact ⟨⟨isAllowed, areAllowed⟩, rfl⟩
    · rintro ⟨⟨isAllowed, areAllowed⟩, rfl⟩
      exact ⟨_, ⟨isAllowed, rfl⟩, _, ⟨areAllowed, rfl⟩, rfl⟩

theorem divideExact?_eq_some_iff : sum.divideExact? divisor = some quotient ↔
    divisor ≠ 0 ∧ divisor ∣ sum.constant ∧ divisor ∣ sum.content ∧
      (sum.truncated divisor).Words ∧ quotient = sum.truncated divisor := by
  rw [divideExact?, Option.ite_none_right_eq_some, Bool.and_eq_true, isMultiple_iff, isMultiple_iff]
  by_cases nonzero : divisor = 0
  · simp [nonzero]
  have divides (value result : Int) :
      tdiv? value divisor = some result ↔ Fits (value.tdiv divisor) ∧ value.tdiv divisor = result := by
    rw [tdiv?, if_neg nonzero, ofInt?_eq_some_iff]
  have each (term result : Product × Int) :
      (tdiv? term.2 divisor).map (term.1, ·) = some result ↔
        Fits (term.2.tdiv divisor) ∧ (term.1, term.2.tdiv divisor) = result := by
    simp [Option.map_eq_some_iff, divides, and_assoc]
  have words : (sum.truncated divisor).Words ↔ Fits (sum.constant.tdiv divisor) ∧
      ∀ term ∈ sum.terms, Fits (term.2.tdiv divisor) :=
    ⟨fun fits => ⟨fits.constant, fun term member =>
        fits.coefficient _ (List.mem_map_of_mem member)⟩,
      fun fits => ⟨fits.1, List.forall_mem_map.mpr fits.2⟩⟩
  simp only [Option.bind_eq_bind, Option.bind_eq_some_iff, mapM_checked_eq_some_iff each, divides, words,
    Option.pure_def, Option.some.injEq]
  constructor
  · rintro ⟨⟨⟨-, isConstant⟩, -, isContent⟩, _, ⟨fits, rfl⟩, _, ⟨fit, rfl⟩, rfl⟩
    exact ⟨nonzero, isConstant, isContent, ⟨fit, fits⟩, rfl⟩
  · rintro ⟨-, isConstant, isContent, ⟨fit, fits⟩, rfl⟩
    exact ⟨⟨⟨nonzero, isConstant⟩, nonzero, isContent⟩, _, ⟨fits, rfl⟩, _, ⟨fit, rfl⟩, rfl⟩

/-- A quotient that is rounded toward zero is a word, unless the smallest word is divided by `-1`. -/
theorem fits_tdiv_of_ne {value : Int} (fits : Fits value) (notUnit : divisor ≠ -1) :
    Fits (value.tdiv divisor) := by
  by_cases small : divisor.natAbs ≤ 1
  · obtain rfl | rfl : divisor = 0 ∨ divisor = 1 := by omega
    · rw [Int.tdiv_zero]
      decide
    · rwa [Int.tdiv_one]
  · have half : (value.tdiv divisor).natAbs ≤ value.natAbs / 2 := by
      rw [Int.natAbs_tdiv]
      exact Nat.div_le_div_left (by omega) (by decide)
    unfold Fits least greatest at *
    omega

theorem words_truncated (words : sum.Words) (notUnit : divisor ≠ -1) :
    (sum.truncated divisor).Words :=
  ⟨fits_tdiv_of_ne words.constant notUnit, List.forall_mem_map.mpr fun term member =>
    fits_tdiv_of_ne (words.coefficient term member) notUnit⟩

/-- Division answers exactly the quotients made of words, unless the cut gives the divisor of a
constant to the content or takes it away. -/
theorem divideExact?_iff (words : sum.Words) (nonzero : sum.NonZero) :
    (∀ quotient, sum.divideExact? divisor = some quotient ↔
        sum.IsQuotient divisor quotient ∧ quotient.Words) ↔
      (divisor ∣ sum.constant → sum.KeepsDivisor divisor) := by
  simp only [divideExact?_eq_some_iff, isQuotient_iff]
  constructor
  · intro exact divides term rest isTerms smallest divisible
    by_cases unit : divisor = -1
    · simp [unit]
    have quotientWords := words_truncated words unit
    have keeps (nonzeroDivisor : divisor ≠ 0) :
        divisor ∣ sum.content ↔ ∀ term ∈ sum.terms, divisor ∣ term.2 :=
      ⟨fun isContent => ((exact _).mp ⟨nonzeroDivisor, divides, isContent, quotientWords, rfl⟩).1.2.2.1,
        fun each => ((exact _).mpr ⟨⟨nonzeroDivisor, divides, each, rfl⟩, quotientWords⟩).2.2.1⟩
    by_cases zero : divisor = 0
    · rw [zero]
      decide
    · exact (keepsDivisor_iff words nonzero).mpr (keeps zero) term rest isTerms smallest divisible
  · intro keeps quotient
    constructor
    · rintro ⟨nonzeroDivisor, divides, isContent, fits, rfl⟩
      exact ⟨⟨nonzeroDivisor, divides,
        ((keepsDivisor_iff words nonzero).mp (keeps divides)).mp isContent, rfl⟩, fits⟩
    · rintro ⟨⟨nonzeroDivisor, divides, each, rfl⟩, fits⟩
      exact ⟨nonzeroDivisor, divides,
        ((keepsDivisor_iff words nonzero).mp (keeps divides)).mpr each, fits, rfl⟩

/-- What content and exact division are of a sum of words, with the condition under which each is
right: the divisors are those that the cut of a first coefficient keeps. -/
theorem exactDivision_iff_keepsDivisor (words : sum.Words) (nonzero : sum.NonZero) :
    (sum.content = commonDivisor sum.terms ↔ ∀ divisor, sum.KeepsDivisor divisor) ∧
      ∀ divisor, (∀ quotient, sum.divideExact? divisor = some quotient ↔
          sum.IsQuotient divisor quotient ∧ quotient.Words) ↔
        (divisor ∣ sum.constant → sum.KeepsDivisor divisor) :=
  ⟨content_eq_commonDivisor_iff words nonzero, fun _ => divideExact?_iff words nonzero⟩

/-- The smallest word is no harm after another coefficient: `6 * x - 2^63 * y + 4` is divided by two. -/
theorem exactDivision_iff_keepsDivisor_second :
    let first : Variable := ⟨"x", .int64, false⟩
    let second : Variable := ⟨"y", .int64, false⟩
    let sum : SumForm :=
      ⟨.int64, [([.leaf first.expr], 6), ([.leaf second.expr], least)], 4⟩
    sum.content = 2 ∧ sum.divideExact? 2 =
      some ⟨.int64, [([.leaf first.expr], 3), ([.leaf second.expr], -4611686018427387904)], 2⟩ := by
  intro first second sum
  have words : sum.Words := ⟨by decide, by decide⟩
  have keeps (divisor : Int) : sum.KeepsDivisor divisor := by
    rintro _ _ ⟨⟩ smallest
    exact absurd smallest (by decide)
  obtain ⟨isContent, exact⟩ := exactDivision_iff_keepsDivisor words (by decide)
  refine ⟨(isContent.mpr keeps).trans (by decide), ((exact 2).mpr fun _ => keeps 2) _ |>.mpr ⟨by decide, ?_⟩⟩
  exact ⟨by decide, by decide⟩

/-- The smallest word alone is divided by seven, with a remainder. In front of another coefficient it
takes the divisor two from the content, so that the sum is not divided by it. -/
theorem not_exactDivision :
    let first : Atom := .leaf (Variable.expr ⟨"x", .int64, false⟩)
    let second : Atom := .leaf (Variable.expr ⟨"y", .int64, false⟩)
    let alone : SumForm := ⟨.int64, [([first], least)], 0⟩
    let both : SumForm := ⟨.int64, [([first], least), ([second], 6)], 0⟩
    (∃ quotient, alone.divideExact? 7 = some quotient ∧ ¬alone.IsQuotient 7 quotient) ∧
      commonDivisor both.terms = 2 ∧ both.content = 1 ∧ both.divideExact? 2 = none := by
  intro first second alone both
  exact ⟨⟨alone.truncated 7, by decide, by decide⟩, by decide, by decide, by decide⟩

end SumForm

end IndexAlgebra
