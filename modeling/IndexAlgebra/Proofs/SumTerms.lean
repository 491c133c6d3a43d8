/-
This file says what the terms of a sum are made of. Every operation on sums takes the products of its
result from its operands, or it multiplies products of theirs, so that what holds of every atom of the
operands holds of every atom of the result.
-/
import IndexAlgebra.Analyzer.Flattening

namespace IndexAlgebra

theorem Product.mem_mul {atom : Atom} {left right : Product} :
    atom ∈ left.mul right ↔ atom ∈ left ∨ atom ∈ right := by
  rw [mul, List.mem_mergeSort, List.mem_append]

namespace SumForm

/-! ### Terms of results -/

/-- A function that gives every element what another function does gives the list of those. -/
theorem eq_map_of_mapM {α β : Type} {f : α → Option β} {g : α → β} {inputs : List α}
    {results : List β} (each : ∀ input result, f input = some result → result = g input)
    (equal : inputs.mapM f = some results) : results = inputs.map g := by
  induction inputs generalizing results with
  | nil =>
    rw [List.mapM_nil] at equal
    cases equal
    rfl
  | cons input rest inductionHypothesis =>
    rw [List.mapM_cons] at equal
    obtain ⟨first, isFirst, equal⟩ := Option.bind_eq_some_iff.mp equal
    obtain ⟨others, areOthers, equal⟩ := Option.bind_eq_some_iff.mp equal
    cases equal
    rw [List.map_cons, each _ _ isFirst, inductionHypothesis areOthers]

/-- The products of the result are the inserted one and those that were there. -/
theorem mem_insertTerm? {product : Product} {coefficient : Int}
    {terms result : List (Product × Int)}
    (inserted : insertTerm? product coefficient terms = some result) {term : Product × Int}
    (member : term ∈ result) : term.1 = product ∨ ∃ old ∈ terms, term.1 = old.1 := by
  induction terms generalizing result with
  | nil =>
    cases inserted
    exact .inl (congrArg Prod.fst (List.mem_singleton.mp member))
  | cons head rest inductionHypothesis =>
    obtain ⟨first, value⟩ := head
    rw [insertTerm?] at inserted
    split at inserted
    next =>
      cases inserted
      rcases List.mem_cons.mp member with rfl | old
      · exact .inl rfl
      · exact .inr ⟨term, old, rfl⟩
    next =>
      obtain ⟨total, -, rfl⟩ := Option.map_eq_some_iff.mp inserted
      split at member
      next => exact .inr ⟨term, List.mem_cons_of_mem _ member, rfl⟩
      next =>
        rcases List.mem_cons.mp member with rfl | old
        · exact .inr ⟨_, List.mem_cons_self, rfl⟩
        · exact .inr ⟨term, List.mem_cons_of_mem _ old, rfl⟩
    next =>
      obtain ⟨tail, isTail, rfl⟩ := Option.map_eq_some_iff.mp inserted
      rcases List.mem_cons.mp member with rfl | inTail
      · exact .inr ⟨_, List.mem_cons_self, rfl⟩
      · exact (inductionHypothesis isTail inTail).imp_right fun ⟨old, isOld, same⟩ =>
          ⟨old, List.mem_cons_of_mem _ isOld, same⟩

theorem eq_of_scale? {sum result : SumForm} {factor : Int} (nonzero : factor ≠ 0)
    (scaled : sum.scale? factor = some result) :
    result = ⟨sum.dtype, sum.terms.map fun term => (term.1, term.2 * factor),
      sum.constant * factor⟩ := by
  rw [scale?, if_neg nonzero] at scaled
  obtain ⟨terms, areTerms, scaled⟩ := Option.bind_eq_some_iff.mp scaled
  obtain ⟨constant, isConstant, equal⟩ := Option.bind_eq_some_iff.mp scaled
  obtain ⟨-, rfl⟩ := Word.ofInt?_eq_some_iff.mp isConstant
  have mapped : terms = sum.terms.map fun term => (term.1, term.2 * factor) := by
    refine eq_map_of_mapM (fun term scaledTerm isScaled => ?_) areTerms
    obtain ⟨product, isProduct, rfl⟩ := Option.map_eq_some_iff.mp isScaled
    rw [(Word.ofInt?_eq_some_iff.mp isProduct).2]
  rw [← mapped]
  exact (Option.some.inj equal).symm

/-- The terms of a multiple are those of the sum with other coefficients, or there are none. -/
theorem exists_map_of_scale? {sum result : SumForm} {factor : Int}
    (scaled : sum.scale? factor = some result) :
    result.terms = [] ∨ ∃ change : Int → Int, result.terms = sum.terms.map fun term =>
      (term.1, change term.2) := by
  by_cases zero : factor = 0
  · rw [scale?, if_pos zero] at scaled
    cases scaled
    exact .inl rfl
  · rw [eq_of_scale? zero scaled]
    exact .inr ⟨(· * factor), rfl⟩

/-- Dividing changes coefficients and the constant alone. -/
theorem exists_map_of_divideExact? {sum quotient : SumForm} {divisor : Int}
    (divided : sum.divideExact? divisor = some quotient) :
    ∃ (change : Int → Int) (constant : Int), quotient =
      ⟨sum.dtype, sum.terms.map fun term => (term.1, change term.2), constant⟩ := by
  obtain ⟨-, divided⟩ := Option.ite_none_right_eq_some.mp divided
  obtain ⟨terms, areTerms, divided⟩ := Option.bind_eq_some_iff.mp divided
  obtain ⟨constant, -, equal⟩ := Option.bind_eq_some_iff.mp divided
  cases equal
  refine ⟨fun coefficient => (Word.tdiv? coefficient divisor).getD 0, constant, ?_⟩
  have mapped : terms = sum.terms.map fun term => (term.1, (Word.tdiv? term.2 divisor).getD 0) := by
    refine eq_map_of_mapM (fun term dividedTerm isDivided => ?_) areTerms
    obtain ⟨coefficient, isCoefficient, rfl⟩ := Option.map_eq_some_iff.mp isDivided
    rw [isCoefficient, Option.getD_some]
  rw [mapped]

theorem partition_eq (sum : SumForm) (divisor : Int) : sum.partition divisor =
    (⟨sum.dtype, sum.terms.filter fun term => Word.isMultiple term.2 divisor, 0⟩,
      ⟨sum.dtype, sum.terms.filter fun term => !Word.isMultiple term.2 divisor, sum.constant⟩) := by
  rw [partition, List.partition_eq_filter_filter]
  rfl

theorem exists_peelTruncated (divisor : Int) (sum : SumForm) :
    ∃ peeled left, peeled + left = sum.constant ∧ divisor ∣ peeled ∧
      sum.peelTruncated divisor =
        ({ (sum.partition divisor).1 with constant := peeled },
          { (sum.partition divisor).2 with constant := left }) := by
  by_cases nonneg : 0 ≤ sum.constant
  · exact ⟨sum.constant - sum.constant.tmod divisor, sum.constant.tmod divisor,
      Int.sub_add_cancel _ _, Int.dvd_self_sub_tmod, if_pos nonneg⟩
  · exact ⟨0, sum.constant, Int.zero_add _, Int.dvd_zero _, if_neg nonneg⟩

/-- What is divided apart are the two parts of the sum with other constants. -/
theorem exists_constants_of_peel? {bound : Expr → Bound} {kind : Split} {divisor : Int}
    {sum multiples rest : SumForm} (peeled : sum.peel? bound kind divisor = some (multiples, rest)) :
    ∃ constant left, multiples = { (sum.partition divisor).1 with constant } ∧
      rest = { (sum.partition divisor).2 with constant := left } := by
  unfold peel? at peeled
  split at peeled
  next =>
    obtain ⟨constant, -, peeled⟩ := Option.bind_eq_some_iff.mp peeled
    obtain ⟨left, -, equal⟩ := Option.bind_eq_some_iff.mp peeled
    cases equal
    exact ⟨constant, left, rfl, rfl⟩
  next =>
    obtain ⟨constant, left, -, -, parts⟩ := exists_peelTruncated divisor sum
    rw [parts] at peeled
    obtain ⟨-, equal⟩ := Option.ite_none_right_eq_some.mp peeled
    cases equal
    exact ⟨constant, left, rfl, rfl⟩

theorem exists_ofInt_of_splitConstant? {kind : Split} {divisor constant : Int} {dtype : DataType}
    {result : SumForm} (divided : splitConstant? kind divisor dtype constant = some result) :
    ∃ number, result = ofInt dtype number := by
  obtain ⟨number, -, divided⟩ := Option.bind_eq_some_iff.mp divided
  obtain ⟨-, equal⟩ := Option.ite_none_right_eq_some.mp divided
  exact ⟨number, (Option.some.inj equal).symm⟩

/-- A pair is a quotient by a divisor and its remainder, both with the coefficient of the remainder
times what makes them the dividend. -/
theorem exists_of_findPair? {sum : SumForm} {pair : Pair} (found : sum.findPair? = some pair) :
    ∃ divisor kind remainder, kind.remainder? = some remainder ∧
      pair.quotient = [.split pair.dividend divisor kind] ∧
      pair.remainder = [.split pair.dividend divisor remainder] ∧
      (pair.quotient, pair.coefficient * divisor) ∈ sum.terms ∧
      (pair.remainder, pair.coefficient) ∈ sum.terms := by
  obtain ⟨⟨product, coefficient⟩, member, isPair⟩ := List.exists_of_findSome?_eq_some found
  unfold pairOf? at isPair
  split at isPair
  next dividend divisor kind coefficient' same =>
    cases same
    obtain ⟨remainder, belongs, isPair⟩ := Option.bind_eq_some_iff.mp isPair
    obtain ⟨factor, isFactor, isPair⟩ := Option.bind_eq_some_iff.mp isPair
    obtain ⟨_, isMultiple, equal⟩ := Option.bind_eq_some_iff.mp isPair
    cases equal
    have isWord : Word.mul? factor divisor = some coefficient :=
      (Option.ite_none_right_eq_some.mp isMultiple).1
    obtain ⟨-, rfl⟩ := Word.ofInt?_eq_some_iff.mp isWord
    obtain ⟨before, after, terms, -⟩ := List.lookup_eq_some_iff.mp isFactor
    exact ⟨divisor, kind, remainder, belongs, rfl, rfl, member, by simp [terms]⟩
  next => cases isPair

/-! ### Cases of quotients and comparisons -/

section

variable {divide : Divide} {bound : Expr → Bound} {kind : Split} {divisor : Int} {op op' : BinaryOp}
  {sum result : SumForm}

/-- What is left is divided exactly, or it is a constant, or it becomes an atom. -/
theorem cases_of_splitRest? (divided : sum.splitRest? divide kind divisor = some result) :
    sum.splitExact? divide kind divisor = some result ∨
      (∃ constant, splitConstant? kind divisor sum.dtype constant = some result) ∨
      sum.splitAtom? kind divisor = some result := by
  unfold splitRest? at divided
  split at divided
  next constant _ =>
    rcases Option.or_eq_some_iff.mp divided with isExact | ⟨-, isConstant⟩
    · exact .inl isExact
    · exact .inr (.inl ⟨constant, isConstant⟩)
  next => exact .inr (.inr divided)

/-- A sum is divided as a whole, or its multiples of the divisor and what is left are divided apart. -/
theorem cases_of_split? (divided : sum.split? divide bound kind divisor = some result) :
    sum.splitExact? divide kind divisor = some result ∨
      (∃ constant, splitConstant? kind divisor sum.dtype constant = some result) ∨
      sum.splitAtom? kind divisor = some result ∨
      ∃ multiples rest remainder, sum.peel? bound kind divisor = some (multiples, rest) ∧
        rest.splitRest? divide kind divisor = some remainder ∧
        (remainder = result ∨ ∃ quotient, divide multiples divisor = some quotient ∧
          quotient.add? remainder = some result) := by
  unfold split? at divided
  split at divided
  next _ _ isExact =>
    cases divided
    exact .inl isExact
  next constant _ _ => exact .inr (.inl ⟨constant, divided⟩)
  next =>
    split at divided
    next multiples rest peeled =>
      obtain ⟨remainder, isRemainder, divided⟩ := Option.bind_eq_some_iff.mp divided
      refine .inr (.inr (.inr ⟨multiples, rest, remainder, peeled, isRemainder, ?_⟩))
      split at divided
      · exact .inr (Option.bind_eq_some_iff.mp divided)
      · exact .inl (Option.some.inj divided)
    next => exact .inr (.inr (.inl (Option.ite_none_left_eq_some.mp divided).2))

/-- A comparison with zero is brought to one by `<`, `==` or `!=`, of the sum or its opposite, where one
may be subtracted. -/
theorem cases_of_normalizeComparison? (normalizes : normalizeComparison? op sum = some (op', result)) :
    op' ∈ [.lt, .eq, .ne] ∧ (sum = result ∨ sum.add? (ofInt sum.dtype (-1)) = some result ∨
      ∃ opposite, sum.scale? (-1) = some opposite ∧
        (opposite = result ∨ opposite.add? (ofInt sum.dtype (-1)) = some result)) := by
  unfold normalizeComparison? at normalizes
  split at normalizes
  next =>
    cases normalizes
    exact ⟨by decide, .inl rfl⟩
  next =>
    obtain ⟨shifted, isShifted, equal⟩ := Option.bind_eq_some_iff.mp normalizes
    cases equal
    exact ⟨by decide, .inr (.inl isShifted)⟩
  next =>
    obtain ⟨opposite, isOpposite, equal⟩ := Option.bind_eq_some_iff.mp normalizes
    cases equal
    exact ⟨by decide, .inr (.inr ⟨_, isOpposite, .inl rfl⟩)⟩
  next =>
    obtain ⟨opposite, isOpposite, normalizes⟩ := Option.bind_eq_some_iff.mp normalizes
    obtain ⟨shifted, isShifted, equal⟩ := Option.bind_eq_some_iff.mp normalizes
    cases equal
    exact ⟨by decide, .inr (.inr ⟨opposite, isOpposite, .inr isShifted⟩)⟩
  next =>
    cases normalizes
    exact ⟨by decide, .inl rfl⟩
  next =>
    cases normalizes
    exact ⟨by decide, .inl rfl⟩
  next => cases normalizes

/-- The sum that is compared with zero after a division is the quotient with another constant. -/
theorem cases_of_divideContent? (divided : sum.divideContent? divide op = some (.ok result)) :
    sum = result ∨ ∃ quotient constant, divide { sum with constant := 0 } sum.content = some quotient ∧
      { quotient with constant } = result := by
  dsimp only [divideContent?] at divided
  split at divided
  next =>
    cases divided
    exact .inl rfl
  next =>
    obtain ⟨quotient, isQuotient, divided⟩ := Option.bind_eq_some_iff.mp divided
    split at divided
    · cases divided
      exact .inr ⟨quotient, _, isQuotient, rfl⟩
    split at divided
    · cases divided
    · cases divided
      exact .inr ⟨quotient, _, isQuotient, rfl⟩

theorem mul?_neg_one (value : Int) : Word.mul? value (-1) = Word.neg? value := by
  rw [Word.mul?, Word.neg?, Int.mul_neg_one]

/-- The positive terms are compared with the opposite of the other ones and the constant. -/
theorem exists_sides_of_comparisonExpr? {built : Expr} (builds : sum.comparisonExpr? op = some built) :
    ∃ negative left right,
      scale? ⟨sum.dtype, sum.terms.filter fun term => !decide (0 < term.2), sum.constant⟩ (-1) =
        some negative ∧
      expr? ⟨sum.dtype, sum.terms.filter fun term => decide (0 < term.2), 0⟩ = some left ∧
      negative.expr? = some right ∧ Expr.binary? op left right = some built := by
  unfold comparisonExpr? at builds
  rw [List.partition_eq_filter_filter] at builds
  obtain ⟨negated, areNegated, builds⟩ := Option.bind_eq_some_iff.mp builds
  obtain ⟨opposite, isOpposite, builds⟩ := Option.bind_eq_some_iff.mp builds
  obtain ⟨left, isLeft, builds⟩ := Option.bind_eq_some_iff.mp builds
  obtain ⟨right, isRight, builds⟩ := Option.bind_eq_some_iff.mp builds
  refine ⟨⟨sum.dtype, negated, opposite⟩, left, right, ?_, isLeft, isRight, builds⟩
  have terms : (sum.terms.filter fun term => !decide (0 < term.2)).mapM
      (fun term => (Word.neg? term.2).map (term.1, ·)) = some negated := areNegated
  simp only [scale?, mul?_neg_one]
  rw [if_neg (by decide), terms, isOpposite]
  rfl

end

/-! ### Atoms of results -/

/-- Every atom of the sum has the property. -/
def Over (allowed : Atom → Prop) (sum : SumForm) : Prop :=
  ∀ term ∈ sum.terms, ∀ atom ∈ term.1, allowed atom

variable {allowed : Atom → Prop} {sum left right result : SumForm} {factor : Int}

theorem over_ofInt (dtype : DataType) (value : Int) : (ofInt dtype value).Over allowed := by
  intro term member
  cases member

theorem over_ofAtom {dtype : DataType} {atom : Atom} (isAllowed : allowed atom) :
    (ofAtom dtype atom).Over allowed := by
  intro term isTerm other isOther
  obtain rfl := List.mem_singleton.mp isTerm
  obtain rfl := List.mem_singleton.mp isOther
  exact isAllowed

theorem Over.imp {allowed' : Atom → Prop} (isSum : sum.Over allowed)
    (implies : ∀ atom, allowed atom → allowed' atom) : sum.Over allowed' :=
  fun term isTerm atom isAtom => implies atom (isSum term isTerm atom isAtom)

/-- Terms with the products of a sum are made of its atoms. -/
theorem Over.of_products (isSum : sum.Over allowed)
    (products : ∀ term ∈ result.terms, ∃ old ∈ sum.terms, term.1 = old.1) : result.Over allowed := by
  intro term isTerm atom isAtom
  obtain ⟨old, isOld, same⟩ := products term isTerm
  exact isSum old isOld atom (same ▸ isAtom)

theorem Over.filter (isSum : sum.Over allowed) (dtype : DataType) (keep : Product × Int → Bool)
    (constant : Int) : Over allowed ⟨dtype, sum.terms.filter keep, constant⟩ :=
  isSum.of_products fun term isTerm => ⟨term, (List.mem_filter.mp isTerm).1, rfl⟩

theorem Over.addTerm {product : Product} {coefficient : Int} (isSum : sum.Over allowed)
    (isProduct : ∀ atom ∈ product, allowed atom)
    (added : sum.addTerm? product coefficient = some result) : result.Over allowed := by
  unfold addTerm? at added
  split at added
  next =>
    cases added
    exact isSum
  next =>
    obtain ⟨terms, inserted, rfl⟩ := Option.map_eq_some_iff.mp added
    intro term isTerm atom isAtom
    rcases mem_insertTerm? inserted isTerm with same | ⟨old, isOld, same⟩
    · exact isProduct atom (same ▸ isAtom)
    · exact isSum old isOld atom (same ▸ isAtom)

/-- Steps that keep the property of the atoms keep it one after the other. -/
theorem Over.foldlM {β : Type} {step : SumForm → β → Option SumForm} {items : List β}
    (each : ∀ item ∈ items, ∀ sum result : SumForm, sum.Over allowed → step sum item = some result →
      result.Over allowed) (isSum : sum.Over allowed) (folded : items.foldlM step sum = some result) :
    result.Over allowed := by
  induction items generalizing sum with
  | nil =>
    cases folded
    exact isSum
  | cons item rest inductionHypothesis =>
    rw [List.foldlM_cons] at folded
    obtain ⟨next, isNext, folded⟩ := Option.bind_eq_some_iff.mp folded
    exact inductionHypothesis (fun other isOther => each other (List.mem_cons_of_mem _ isOther))
      (each item List.mem_cons_self sum next isSum isNext) folded

theorem Over.add (isLeft : left.Over allowed) (isRight : right.Over allowed)
    (added : left.add? right = some result) : result.Over allowed := by
  obtain ⟨sum, isSum, added⟩ := Option.bind_eq_some_iff.mp added
  obtain ⟨constant, -, equal⟩ := Option.bind_eq_some_iff.mp added
  cases equal
  have isOver : sum.Over allowed := by
    refine Over.foldlM (fun term isTerm _ _ isSum added => ?_) isLeft isSum
    exact isSum.addTerm (isRight term isTerm) added
  exact isOver

theorem Over.scale (isSum : sum.Over allowed) (scaled : sum.scale? factor = some result) :
    result.Over allowed := by
  refine isSum.of_products fun term isTerm => ?_
  rcases exists_map_of_scale? scaled with none | ⟨change, mapped⟩
  · rw [none] at isTerm
    cases isTerm
  · rw [mapped] at isTerm
    obtain ⟨old, isOld, rfl⟩ := List.mem_map.mp isTerm
    exact ⟨old, isOld, rfl⟩

theorem Over.sub (isLeft : left.Over allowed) (isRight : right.Over allowed)
    (subtracted : left.sub? right = some result) : result.Over allowed := by
  obtain ⟨opposite, isOpposite, added⟩ := Option.bind_eq_some_iff.mp subtracted
  exact isLeft.add (isRight.scale isOpposite) added

theorem Over.addScaled {terms : List (Product × Int)} (isSum : sum.Over allowed)
    (products : ∀ term ∈ terms, ∀ atom ∈ term.1, allowed atom)
    (added : sum.addScaled? terms factor = some result) : result.Over allowed := by
  refine Over.foldlM (fun term isTerm _ _ isSum stepped => ?_) isSum added
  obtain ⟨coefficient, -, stepped⟩ := Option.bind_eq_some_iff.mp stepped
  exact isSum.addTerm (products term isTerm) stepped

theorem Over.addProducts {terms : List (Product × Int)} {term : Product × Int}
    (isSum : sum.Over allowed) (products : ∀ other ∈ terms, ∀ atom ∈ other.1, allowed atom)
    (isTerm : ∀ atom ∈ term.1, allowed atom) (added : sum.addProducts? terms term = some result) :
    result.Over allowed := by
  refine Over.foldlM (fun other isOther _ _ isSum stepped => ?_) isSum added
  obtain ⟨coefficient, -, stepped⟩ := Option.bind_eq_some_iff.mp stepped
  refine isSum.addTerm (fun atom isAtom => ?_) stepped
  rcases Product.mem_mul.mp isAtom with inTerm | inOther
  · exact isTerm atom inTerm
  · exact products other isOther atom inOther

theorem Over.mul {maxTerms : Nat} (isLeft : left.Over allowed) (isRight : right.Over allowed)
    (multiplied : left.mul? right maxTerms = some result) : result.Over allowed := by
  unfold mul? at multiplied
  split at multiplied
  next => exact isLeft.scale multiplied
  next => exact isRight.scale multiplied
  next =>
    split at multiplied
    next => cases multiplied
    next =>
      obtain ⟨constant, -, multiplied⟩ := Option.bind_eq_some_iff.mp multiplied
      obtain ⟨first, isFirst, multiplied⟩ := Option.bind_eq_some_iff.mp multiplied
      obtain ⟨second, isSecond, multiplied⟩ := Option.bind_eq_some_iff.mp multiplied
      have scaled := ((over_ofInt left.dtype constant).addScaled isLeft isFirst).addScaled isRight
        isSecond
      exact Over.foldlM (fun term isTerm _ _ isSum added =>
        isSum.addProducts isRight (isLeft term isTerm) added) scaled multiplied

theorem Over.partition (isSum : sum.Over allowed) (divisor : Int) :
    (sum.partition divisor).1.Over allowed ∧ (sum.partition divisor).2.Over allowed := by
  rw [partition_eq]
  exact ⟨isSum.filter _ _ _, isSum.filter _ _ _⟩

/-! ### Sums as expressions -/

/-- What holds of constants of a type and passes from operands to nodes that add, subtract or
multiply. -/
structure KeptByArithmetic (dtype : DataType) (holds : Expr → Prop) : Prop where
  constant : ∀ value built, constantExpr? dtype value = some built → holds built
  node : ∀ op lhs rhs built, op ∈ [.add, .sub, .mul] → holds lhs → holds rhs →
    Expr.binary? op lhs rhs = some built → holds built

section

variable {dtype : DataType} {holds : Expr → Prop} {built : Expr}

/-- What is kept by an operator is kept from left to right. -/
theorem KeptByArithmetic.foldlM (kept : KeptByArithmetic dtype holds) (op : BinaryOp)
    (isOp : op ∈ [.add, .sub, .mul]) {β : Type} {part : β → Option Expr} {parts : List β}
    (each : ∀ item ∈ parts, ∀ expr, part item = some expr → holds expr) {first : Expr}
    (isFirst : holds first)
    (folded : parts.foldlM (fun expr item => do Expr.binary? op expr (← part item)) first =
      some built) : holds built := by
  induction parts generalizing first with
  | nil =>
    cases folded
    exact isFirst
  | cons item rest inductionHypothesis =>
    rw [List.foldlM_cons] at folded
    obtain ⟨next, isNext, folded⟩ := Option.bind_eq_some_iff.mp folded
    obtain ⟨operand, isOperand, builds⟩ := Option.bind_eq_some_iff.mp isNext
    have isItem := each item List.mem_cons_self operand isOperand
    exact inductionHypothesis (fun item isRest => each item (List.mem_cons_of_mem _ isRest))
      (kept.node op first operand next isOp isFirst isItem builds) folded

theorem KeptByArithmetic.productExpr (kept : KeptByArithmetic dtype holds) {product : Product}
    (atoms : ∀ atom ∈ product, ∀ expr, atom.expr? = some expr → holds expr)
    (builds : product.expr? = some built) : holds built := by
  cases product with
  | nil => cases builds
  | cons atom rest =>
    obtain ⟨first, isFirst, folded⟩ := Option.bind_eq_some_iff.mp builds
    exact kept.foldlM .mul (by decide) (fun item isItem => atoms item (List.mem_cons_of_mem _ isItem))
      (atoms atom List.mem_cons_self first isFirst) folded

theorem KeptByArithmetic.termExpr (kept : KeptByArithmetic dtype holds) {product : Product}
    {coefficient : Int} (atoms : ∀ atom ∈ product, ∀ expr, atom.expr? = some expr → holds expr)
    (builds : termExpr? dtype product coefficient = some built) : holds built := by
  obtain ⟨expr, isExpr, builds⟩ := Option.bind_eq_some_iff.mp builds
  have isProduct := kept.productExpr atoms isExpr
  split at builds
  · cases builds
    exact isProduct
  · obtain ⟨constant, isConstant, builds⟩ := Option.bind_eq_some_iff.mp builds
    exact kept.node .mul _ _ _ (by decide) isProduct (kept.constant _ _ isConstant) builds

/-- What holds of the expressions of the atoms holds of the expression of the sum. -/
theorem KeptByArithmetic.sumExpr (kept : KeptByArithmetic sum.dtype holds)
    (atoms : sum.Over fun atom => ∀ expr, atom.expr? = some expr → holds expr)
    (builds : sum.expr? = some built) : holds built := by
  dsimp only [expr?] at builds
  have subtracted : ∀ {first built : Expr}, holds first →
      (sum.terms.filter fun term => term.2 < 0).foldlM (fun expr term => do
        Expr.binary? .sub expr (← termExpr? sum.dtype term.1 (← Word.neg? term.2))) first =
          some built → holds built := by
    intro first built isFirst folded
    have each : ∀ term ∈ sum.terms.filter fun term => term.2 < 0, ∀ expr,
        (do termExpr? sum.dtype term.1 (← Word.neg? term.2)) = some expr → holds expr := by
      intro term member expr isTerm
      obtain ⟨coefficient, -, isTerm⟩ := Option.bind_eq_some_iff.mp isTerm
      exact kept.termExpr (atoms term (List.mem_filter.mp member).1) isTerm
    exact kept.foldlM .sub (by decide) each isFirst (by
      simpa only [Option.bind_eq_bind, Option.bind_assoc] using folded)
  split at builds
  next =>
    obtain ⟨first, isFirst, folded⟩ := Option.bind_eq_some_iff.mp builds
    exact subtracted (kept.constant _ _ isFirst) folded
  next product coefficient rest isPositive =>
    have isPart : ∀ term ∈ (product, coefficient) :: rest, ∀ atom ∈ term.1, ∀ expr,
        atom.expr? = some expr → holds expr :=
      fun term member => atoms term (List.mem_filter.mp (isPositive ▸ member)).1
    obtain ⟨first, isFirst, builds⟩ := Option.bind_eq_some_iff.mp builds
    obtain ⟨added, isAdded, builds⟩ := Option.bind_eq_some_iff.mp builds
    obtain ⟨terms, areTerms, builds⟩ := Option.bind_eq_some_iff.mp builds
    have positives : holds added := kept.foldlM .add (by decide)
      (fun term member _ isTerm => kept.termExpr (isPart term (List.mem_cons_of_mem _ member)) isTerm)
      (kept.termExpr (isPart _ List.mem_cons_self) isFirst) isAdded
    have isTerms := subtracted positives areTerms
    split at builds
    · cases builds
      exact isTerms
    split at builds
    · obtain ⟨constant, isConstant, builds⟩ := Option.bind_eq_some_iff.mp builds
      exact kept.node .add _ _ _ (by decide) isTerms (kept.constant _ _ isConstant) builds
    · obtain ⟨opposite, -, builds⟩ := Option.bind_eq_some_iff.mp builds
      obtain ⟨constant, isConstant, builds⟩ := Option.bind_eq_some_iff.mp builds
      exact kept.node .sub _ _ _ (by decide) isTerms (kept.constant _ _ isConstant) builds

end

/-! ### Division by a constant -/

/-- A quotient is made of the products of its dividend. -/
def Divide.KeepsProducts (divide : Divide) : Prop :=
  ∀ sum divisor quotient, divide sum divisor = some quotient →
    ∀ term ∈ quotient.terms, ∃ old ∈ sum.terms, term.1 = old.1

theorem divideExact?_keepsProducts : Divide.KeepsProducts divideExact? := by
  intro sum divisor quotient divided term isTerm
  obtain ⟨change, constant, rfl⟩ := exists_map_of_divideExact? divided
  obtain ⟨old, isOld, rfl⟩ := List.mem_map.mp isTerm
  exact ⟨old, isOld, rfl⟩

variable {divide : Divide} {bound : Expr → Bound} {kind : Split} {divisor : Int}

theorem Over.splitExact (keeps : divide.KeepsProducts) (isSum : sum.Over allowed)
    (divided : sum.splitExact? divide kind divisor = some result) : result.Over allowed := by
  obtain ⟨quotient, isQuotient, rfl⟩ := Option.map_eq_some_iff.mp divided
  split
  · exact isSum.of_products (keeps sum divisor quotient isQuotient)
  · exact over_ofInt _ _

theorem over_splitConstant? {dtype : DataType} {constant : Int}
    (divided : splitConstant? kind divisor dtype constant = some result) : result.Over allowed := by
  obtain ⟨number, rfl⟩ := exists_ofInt_of_splitConstant? divided
  exact over_ofInt _ _

theorem Over.peel {multiples rest : SumForm} (isSum : sum.Over allowed)
    (peeled : sum.peel? bound kind divisor = some (multiples, rest)) :
    multiples.Over allowed ∧ rest.Over allowed := by
  obtain ⟨constant, left, rfl, rfl⟩ := exists_constants_of_peel? peeled
  exact isSum.partition divisor

end SumForm

end IndexAlgebra
