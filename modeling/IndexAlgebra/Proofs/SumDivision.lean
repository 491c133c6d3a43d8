/-
This file proves that the quotient and the remainder of a sum by a constant have the values that
they are named for. The multiples of the divisor that are taken out of a sum change its quotient by
as many and its remainder not at all. A truncated quotient needs both parts not to be negative,
since it is rounded toward zero. A quotient and the remainder that belongs to it make up the
dividend.
-/
import IndexAlgebra.Proofs.SumExpr
import Mathlib.Tactic.LinearCombination

namespace IndexAlgebra

/-! ### Quotients and remainders of integers -/

namespace Split

variable {value multiple rest divisor : Int}

theorem apply_of_dvd (kind : Split) (nonzero : divisor ≠ 0) (divides : divisor ∣ value) :
    kind.apply value divisor = if kind.isQuotient then value / divisor else 0 := by
  obtain ⟨quotient, rfl⟩ := divides
  cases kind with
  | truncDiv => simp [apply, isQuotient, nonzero]
  | truncMod => simp [apply, isQuotient]
  | floorDiv => simp [apply, isQuotient, nonzero]
  | floorMod => simp [apply, isQuotient]

theorem op_of_ofOp? {op : BinaryOp} {kind : Split} (found : ofOp? op = some kind) :
    kind.op = op := by
  simpa using List.find?_some found

theorem opClass_op (kind : Split) : kind.op.opClass = .arithmetic := by cases kind <;> rfl

theorem onLane_op (kind : Split) (nonzero : divisor ≠ 0) :
    kind.op.onLane value divisor = some (kind.apply value divisor) := by
  cases kind <;> exact if_neg nonzero

/-- A multiple of the divisor may be divided apart, if neither the sum nor the rest is negative or the
quotient is rounded down. -/
theorem apply_add (kind : Split) (nonzero : divisor ≠ 0) (divides : divisor ∣ multiple)
    (signs : kind.isFloored = false → 0 ≤ multiple + rest ∧ 0 ≤ rest) :
    kind.apply (multiple + rest) divisor =
      if kind.isQuotient then multiple / divisor + kind.apply rest divisor
      else kind.apply rest divisor := by
  obtain ⟨quotient, rfl⟩ := divides
  rw [add_comm (divisor * quotient)] at signs
  rw [Int.mul_ediv_cancel_left quotient nonzero, add_comm (divisor * quotient)]
  cases kind with
  | truncDiv =>
    obtain ⟨nonneg, nonneg'⟩ := signs rfl
    simp only [apply, isQuotient, if_true]
    rw [Int.tdiv_eq_ediv_of_nonneg nonneg, Int.tdiv_eq_ediv_of_nonneg nonneg',
      Int.add_mul_ediv_left _ _ nonzero, add_comm]
  | truncMod =>
    obtain ⟨nonneg, nonneg'⟩ := signs rfl
    simp only [apply, isQuotient, Bool.false_eq_true, if_false]
    rw [Int.tmod_eq_emod_of_nonneg nonneg, Int.tmod_eq_emod_of_nonneg nonneg',
      Int.add_mul_emod_self_left]
  | floorDiv =>
    simp only [apply, isQuotient, if_true]
    rw [Int.add_mul_fdiv_left _ _ nonzero, add_comm]
  | floorMod =>
    simp only [apply, isQuotient, Bool.false_eq_true, if_false]
    rw [Int.add_mul_fmod_self_left]

/-- A quotient times the divisor and the remainder that belongs to it are the dividend. -/
theorem apply_remainder {kind remainder : Split} (belongs : kind.remainder? = some remainder)
    (value divisor : Int) :
    kind.apply value divisor * divisor + remainder.apply value divisor = value := by
  cases kind <;> cases belongs
  · exact Int.tdiv_mul_add_tmod value divisor
  · exact Int.fdiv_mul_add_fmod value divisor

end Split

namespace SumForm

variable {names : List Variable} {dtype : DataType} {among : Environment → Prop}

/-- A division gives a quotient only if it is exact. -/
def Divide.Exact (divide : Divide) : Prop :=
  ∀ sum divisor quotient, divide sum divisor = some quotient → sum.IsQuotient divisor quotient

section

variable {divide : Divide} {kind : Split} {divisor : Int} {sum result : SumForm}
  {value : Environment → Int}

theorem Stands.dvd {quotient : SumForm} (isSum : sum.Stands names dtype among value)
    (divided : sum.IsQuotient divisor quotient) (env : Environment) (isAmong : among env) :
    divisor ∣ value env := ((isSum.totals env isAmong).quotient divided).1

theorem Stands.dtype_eq (isSum : sum.Stands names dtype among value) : sum.dtype = dtype := by
  obtain ⟨_, formed⟩ := isSum.formed
  exact formed.dtype_eq

theorem Stands.splitExact (exact : divide.Exact) (isSum : sum.Stands names dtype among value)
    (divided : sum.splitExact? divide kind divisor = some result) :
    result.Stands names dtype among fun env => kind.apply (value env) divisor := by
  obtain ⟨quotient, isQuotient, rfl⟩ := Option.map_eq_some_iff.mp divided
  have divides := exact _ _ _ isQuotient
  refine Stands.congr ?_ fun env isAmong =>
    (kind.apply_of_dvd divides.divisor_ne_zero (isSum.dvd divides env isAmong)).symm
  split
  next => exact isSum.quotient divides
  next =>
    rw [isSum.dtype_eq]
    exact stands_ofInt 0

theorem Stands.splitConstant {constant : Int} (isSum : sum.Stands names dtype among value)
    (isConst : sum.asConst? = some constant)
    (divided : splitConstant? kind divisor dtype constant = some result) :
    result.Stands names dtype among fun env => kind.apply (value env) divisor := by
  obtain ⟨number, isNumber, divided⟩ := Option.bind_eq_some_iff.mp divided
  obtain ⟨-, equal⟩ := Option.ite_none_right_eq_some.mp divided
  obtain ⟨-, rfl⟩ := Word.ofInt?_eq_some_iff.mp isNumber
  cases equal
  refine (stands_ofInt _).congr fun env isAmong => ?_
  rw [(isSum.totals env isAmong).eq_of_asConst? isConst]

theorem Stands.splitAtom (index : dtype.IsIndex) (nonzero : divisor ≠ 0)
    (fits : dtype.fits divisor = true) (isSum : sum.Stands names dtype among value)
    (divided : sum.splitAtom? kind divisor = some result) :
    result.Stands names dtype among fun env => kind.apply (value env) divisor := by
  obtain ⟨dividend, isDividend, rfl⟩ := Option.map_eq_some_iff.mp divided
  have stands := isSum.expr index isDividend
  rw [isSum.dtype_eq]
  have isAtom : (Atom.split dividend divisor kind).Within names dtype :=
    ⟨stands.within, fun _ _ _ equal => by cases equal; exact ⟨nonzero, fits⟩⟩
  refine (stands_ofAtom isAtom fun env isAmong => ⟨_, stands.evaluates env isAmong⟩).congr ?_
  intro env isAmong
  rw [Atom.valueAt, Expr.intAt_eq (stands.evaluates env isAmong)]

theorem Stands.splitRest (index : dtype.IsIndex) (exact : divide.Exact) (nonzero : divisor ≠ 0)
    (fits : dtype.fits divisor = true) (isSum : sum.Stands names dtype among value)
    (divided : sum.splitRest? divide kind divisor = some result) :
    result.Stands names dtype among fun env => kind.apply (value env) divisor := by
  unfold splitRest? at divided
  split at divided
  next constant isConst =>
    rcases Option.or_eq_some_iff.mp divided with isExact | ⟨-, isConstant⟩
    · exact isSum.splitExact exact isExact
    · rw [isSum.dtype_eq] at isConstant
      exact isSum.splitConstant isConst isConstant
  next => exact isSum.splitAtom index nonzero fits divided

/-! ### Multiples taken out -/

/-- The two parts make up the sum, and the first is a multiple of the divisor. -/
structure Peels (names : List Variable) (dtype : DataType) (among : Environment → Prop)
    (value : Environment → Int) (divisor : Int) (multiples rest : SumForm)
    (first second : Environment → Int) : Prop where
  multiples : multiples.Stands names dtype among first
  rest : rest.Stands names dtype among second
  total : ∀ env, among env → value env = first env + second env
  divides : ∀ env, among env → divisor ∣ first env

theorem dvd_termsAt {values : Atom → Int} {terms : List (Product × Int)}
    (each : ∀ term ∈ terms, divisor ∣ term.2) : divisor ∣ termsAt values terms := by
  induction terms with
  | nil => exact Int.dvd_zero divisor
  | cons term rest inductionHypothesis =>
    rw [termsAt_cons]
    exact dvd_add (Dvd.dvd.mul_right (each term List.mem_cons_self) _)
      (inductionHypothesis fun term member => each term (List.mem_cons_of_mem _ member))

/-- The multiples of a divisor among the terms, with any multiple of it for their constant. -/
theorem Stands.peels (isSum : sum.Stands names dtype among value) {peeled left : Int}
    (constants : peeled + left = sum.constant) (divides : divisor ∣ peeled) :
    ∃ first second, Peels names dtype among value divisor
      { (sum.partition divisor).1 with constant := peeled }
      { (sum.partition divisor).2 with constant := left } first second := by
  rw [partition_eq]
  refine ⟨_, _, isSum.filter _ peeled, isSum.filter _ left, fun env isAmong => ?_, fun env _ => ?_⟩
  · rw [← (isSum.totals env isAmong).value_eq, ← constants, ← termsAt_filter_add _
      (fun term => Word.isMultiple term.2 divisor) sum.terms]
    ring
  · refine dvd_add (dvd_termsAt fun term member => ?_) divides
    exact (Word.isMultiple_iff.mp (List.mem_filter.mp member).2).2

/-- The bound of an expression contains its exact value in each of the environments. -/
def BoundedIn (among : Environment → Prop) (bound : Expr → Bound) : Prop :=
  ∀ env, among env → ∀ expr number, expr.WellTyped → expr.evalExact env = some (.int number) →
    (bound expr).contains number = true

theorem Stands.nonneg {bound : Expr → Bound} (index : dtype.IsIndex)
    (bounded : BoundedIn among bound) (isSum : sum.Stands names dtype among value)
    (nonNegative : sum.isNonNegative bound = true) (env : Environment) (isAmong : among env) :
    0 ≤ value env := by
  unfold isNonNegative at nonNegative
  split at nonNegative
  next expr isExpr =>
    have stands := isSum.expr index isExpr
    exact Bound.nonneg_of_isNonNegative nonNegative
      (bounded env isAmong expr _ stands.within.typed (stands.evaluates env isAmong))
  next => cases nonNegative

theorem Stands.peel {bound : Expr → Bound} (index : dtype.IsIndex) (bounded : BoundedIn among bound)
    (isSum : sum.Stands names dtype among value) {multiples rest : SumForm}
    (peeled : sum.peel? bound kind divisor = some (multiples, rest)) :
    ∃ first second, Peels names dtype among value divisor multiples rest first second ∧
      ∀ env, among env → kind.isFloored = false → 0 ≤ first env ∧ 0 ≤ second env := by
  unfold peel? at peeled
  split at peeled
  next floored =>
    obtain ⟨constant, isConstant, peeled⟩ := Option.bind_eq_some_iff.mp peeled
    obtain ⟨left, isLeft, equal⟩ := Option.bind_eq_some_iff.mp peeled
    obtain ⟨-, rfl⟩ := Word.ofInt?_eq_some_iff.mp isConstant
    obtain ⟨-, rfl⟩ := Word.ofInt?_eq_some_iff.mp isLeft
    cases equal
    obtain ⟨first, second, peels⟩ := isSum.peels (Int.fdiv_mul_add_fmod sum.constant divisor)
      (Int.dvd_mul_left _ _)
    exact ⟨first, second, peels, fun env isAmong notFloored => by simp [notFloored] at floored⟩
  next =>
    obtain ⟨constant, left, constants, divides, parts⟩ := exists_peelTruncated divisor sum
    rw [parts] at peeled
    obtain ⟨signs, equal⟩ := Option.ite_none_right_eq_some.mp peeled
    cases equal
    simp only [Bool.and_eq_true, decide_eq_true_eq] at signs
    obtain ⟨first, second, peels⟩ := isSum.peels constants divides
    exact ⟨first, second, peels, fun env isAmong _ =>
      ⟨peels.multiples.nonneg index bounded signs.1.2 env isAmong,
        peels.rest.nonneg index bounded signs.2 env isAmong⟩⟩

/-- The quotient or remainder of a sum by a constant has the value that it is named for. -/
theorem Stands.split {bound : Expr → Bound} (index : dtype.IsIndex) (exact : divide.Exact)
    (bounded : BoundedIn among bound) (nonzero : divisor ≠ 0) (fits : dtype.fits divisor = true)
    (isSum : sum.Stands names dtype among value)
    (divided : sum.split? divide bound kind divisor = some result) :
    result.Stands names dtype among fun env => kind.apply (value env) divisor := by
  unfold split? at divided
  split at divided
  next _ _ isExact =>
    cases divided
    exact isSum.splitExact exact isExact
  next constant _ isConst =>
    rw [isSum.dtype_eq] at divided
    exact isSum.splitConstant isConst divided
  next =>
    split at divided
    next multiples rest peeled =>
      obtain ⟨first, second, peels, signs⟩ := isSum.peel index bounded peeled
      have applied : ∀ env, among env → kind.apply (value env) divisor = _ := fun env isAmong =>
        peels.total env isAmong ▸
          kind.apply_add nonzero (peels.divides env isAmong) fun truncated =>
            have ⟨first, second⟩ := signs env isAmong truncated
            ⟨Int.add_nonneg first second, second⟩
      obtain ⟨remainder, isRemainder, divided⟩ := Option.bind_eq_some_iff.mp divided
      have stands := peels.rest.splitRest index exact nonzero fits isRemainder
      refine Stands.congr ?_ fun env isAmong => (applied env isAmong).symm
      split at divided
      next isQuotient =>
        obtain ⟨quotient, isExact, added⟩ := Option.bind_eq_some_iff.mp divided
        simp only [if_pos isQuotient]
        exact (peels.multiples.quotient (exact _ _ _ isExact)).add stands added
      next notQuotient =>
        cases divided
        simpa only [if_neg notQuotient] using stands
    next =>
      obtain ⟨-, divided⟩ := Option.ite_none_left_eq_some.mp divided
      exact isSum.splitAtom index nonzero fits divided

/-! ### Quotients and remainders that belong together -/

/-- Without a pair, the sum lacks a multiple of the dividend of the pair. -/
theorem Stands.withoutPair {pair : Pair} (isSum : sum.Stands names dtype among value)
    (found : sum.findPair? = some pair) :
    pair.dividend.Stands names dtype among (fun env => pair.dividend.intAt env) ∧
      (sum.withoutPair pair).Stands names dtype among fun env =>
        value env - pair.dividend.intAt env * pair.coefficient := by
  obtain ⟨divisor, kind, remainder, belongs, isQuotient, isRemainder, inTerms, inTerms'⟩ :=
    exists_of_findPair? found
  have inQuotient : Atom.split pair.dividend divisor kind ∈ pair.quotient := by simp [isQuotient]
  constructor
  · obtain ⟨_, formed⟩ := isSum.formed
    refine ⟨(formed.allowed _ inTerms _ inQuotient).base, fun env isAmong => ?_⟩
    obtain ⟨number, evaluated⟩ := (isSum.totals env isAmong).allowed _ inTerms _ inQuotient
    exact evaluated.trans (congrArg (some ∘ Value.int) (Expr.intAt_eq evaluated).symm)
  · refine (isSum.filter _ sum.constant).congr fun env isAmong => ?_
    have totals := isSum.totals env isAmong
    have differs : pair.remainder ≠ pair.quotient := by
      rw [isQuotient, isRemainder]
      cases kind <;> cases belongs <;> simp
    have inRest : (pair.remainder, pair.coefficient) ∈
        sum.terms.filter fun other => other.1 ≠ pair.quotient :=
      List.mem_filter.mpr ⟨inTerms', by simpa using differs⟩
    have removed := termsAt_remove (fun atom => atom.valueAt env) totals.inOrder inTerms
    rw [termsAt_remove _ (totals.inOrder.filter _) inRest, List.filter_filter] at removed
    have whole := Split.apply_remainder belongs (pair.dividend.intAt env) divisor
    have isQuotientValue : pair.quotient.valueAt (fun atom => atom.valueAt env) =
        kind.apply (pair.dividend.intAt env) divisor := by
      simp [isQuotient, Product.valueAt, Atom.valueAt]
    have isRemainderValue : pair.remainder.valueAt (fun atom => atom.valueAt env) =
        remainder.apply (pair.dividend.intAt env) divisor := by
      simp [isRemainder, Product.valueAt, Atom.valueAt]
    rw [isQuotientValue, isRemainderValue] at removed
    have kept : (sum.terms.filter fun other =>
          other.1 ≠ pair.quotient && other.1 ≠ pair.remainder) =
        sum.terms.filter fun other => other.1 ≠ pair.remainder && other.1 ≠ pair.quotient :=
      List.filter_congr fun _ _ => Bool.and_comm _ _
    rw [← totals.value_eq, removed, kept]
    linear_combination (-pair.coefficient) * whole

end

end SumForm

end IndexAlgebra
