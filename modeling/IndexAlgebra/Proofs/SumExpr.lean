/-
This file proves that a sum has its value as an expression too. An expression stands for an integer
in each of some environments if that is its exact value there; a sum does if its atoms have values
there and it has the integer for its value. Whatever is built of parts that stand for integers
stands for the integer that the operator gives.
-/
import IndexAlgebra.Proofs.Isolation
import IndexAlgebra.Proofs.Meaning
import IndexAlgebra.Proofs.RuleForms
import IndexAlgebra.Proofs.SumForm

namespace IndexAlgebra

/-- A type of scalar integers. -/
structure DataType.IsIndex (dtype : DataType) : Prop where
  valid : dtype.Valid
  isInteger : dtype.isInteger = true
  scalar : dtype.lanes = 1

/-- The allowed expressions are of a type of scalar integers. Arithmetic on them and the constants of
the type are allowed. -/
structure DataType.Closed (dtype : DataType) (allowed : Expr → Prop) : Prop where
  isInteger : dtype.isInteger = true
  scalar : dtype.lanes = 1
  dtype_eq : ∀ expr, allowed expr → expr.dtype = dtype
  binary : ∀ op lhs rhs, op.opClass = .arithmetic → allowed lhs → allowed rhs →
    allowed (.binary dtype op lhs rhs)
  intConst : ∀ number, dtype.fits number = true → allowed (.intConst dtype number)

variable {names : List Variable} {dtype : DataType} {among : Environment → Prop}
  {allowed : Expr → Prop}

/-! ### Expressions that stand for integers -/

namespace Expr

theorem mem_binders {name : Variable} {expr : Expr} :
    name ∈ expr.binders ↔ expr.binder? = some name ∨ ∃ child ∈ expr.children, name ∈ child.binders := by
  simp only [binders, List.mem_filterMap]
  constructor
  · rintro ⟨node, member, isBinder⟩
    rcases mem_postOrder.mp member with rfl | ⟨child, isChild, inside⟩
    · exact .inl isBinder
    · exact .inr ⟨child, isChild, node, inside, isBinder⟩
  · rintro (isBinder | ⟨child, isChild, node, inside, isBinder⟩)
    · exact ⟨expr, expr.self_mem_postOrder, isBinder⟩
    · exact ⟨node, mem_postOrder.mpr (.inr ⟨child, isChild, inside⟩), isBinder⟩

/-- The expression is well typed, of the type, and binds no variables but the given ones. -/
structure Within (names : List Variable) (dtype : DataType) (expr : Expr) : Prop where
  typed : expr.WellTyped
  dtype_eq : expr.dtype = dtype
  binders : ∀ name ∈ expr.binders, name ∈ names

/-- The expression is allowed, and it has the integer for its exact value in each of the
environments. -/
structure Denotes (allowed : Expr → Prop) (among : Environment → Prop) (value : Environment → Int)
    (expr : Expr) : Prop where
  within : allowed expr
  evaluates : ∀ env, among env → expr.evalExact env = some (.int (value env))

/-- The expression has the integer for its exact value in each of the environments. -/
abbrev Stands (names : List Variable) (dtype : DataType) (among : Environment → Prop)
    (value : Environment → Int) (expr : Expr) : Prop := expr.Denotes (Within names dtype) among value

theorem Within.binary {lhs rhs : Expr} (isLeft : lhs.Within names dtype)
    (isRight : rhs.Within names dtype) {op : BinaryOp} (notLogical : op.isLogical = false) :
    (Expr.binary (binaryType op dtype) op lhs rhs).Within names (binaryType op dtype) := by
  refine ⟨?_, rfl, fun name member => ?_⟩
  · rw [WellTyped]
    exact ⟨isLeft.typed, isRight.typed, isLeft.dtype_eq.trans isRight.dtype_eq.symm,
      by rw [isLeft.dtype_eq], by simp [notLogical]⟩
  · rcases mem_binders.mp member with isBinder | ⟨child, isChild, inside⟩
    · cases isBinder
    · simp only [children, List.mem_cons, List.not_mem_nil, or_false] at isChild
      rcases isChild with rfl | rfl
      · exact isLeft.binders name inside
      · exact isRight.binders name inside

theorem within_intConst (index : dtype.IsIndex) {number : Int} (fits : dtype.fits number = true) :
    (intConst dtype number).Within names dtype := by
  refine ⟨?_, rfl, fun name member => ?_⟩
  · rw [WellTyped]
    exact ⟨index.valid, index.isInteger, index.scalar, fits⟩
  · rcases mem_binders.mp member with isBinder | ⟨child, isChild, -⟩
    · cases isBinder
    · cases isChild

theorem closed_within (index : dtype.IsIndex) : dtype.Closed (Within names dtype) where
  isInteger := index.isInteger
  scalar := index.scalar
  dtype_eq _ within := within.dtype_eq
  binary op _ _ arithmetic isLeft isRight := by
    have within := isLeft.binary isRight
      (show op.isLogical = false by rw [BinaryOp.isLogical, arithmetic]; rfl)
    rwa [binaryType_of_arithmetic arithmetic] at within
  intConst _ := within_intConst index

/-- A binary node of scalar integers has the exact value of the operator on them. -/
theorem evalExact_binary {op : BinaryOp} {env : Environment} {lhs rhs : Expr} {left right : Int}
    {result : DataType} (isLeft : lhs.evalExact env = some (.int left))
    (isRight : rhs.evalExact env = some (.int right)) (leftInteger : lhs.dtype.isInteger = true)
    (rightInteger : rhs.dtype.isInteger = true) (scalar : result.lanes = 1) :
    (binary result op lhs rhs).evalExact env =
      Scalar.binaryInt? .unbounded lhs.dtype.element op left right := by
  rw [evalExact, evaluate_binary_scalar scalar isLeft isRight
    (DataType.isFloat_of_isInteger leftInteger) (DataType.isFloat_of_isInteger rightInteger)]
  rfl

variable {left right value : Environment → Int}

/-- An arithmetic node of what denotes integers denotes what the operator gives. -/
theorem Denotes.binary (closed : dtype.Closed allowed) {op : BinaryOp} {lhs rhs built : Expr}
    (arithmetic : op.opClass = .arithmetic) (isLeft : lhs.Denotes allowed among left)
    (isRight : rhs.Denotes allowed among right) (builds : binary? op lhs rhs = some built)
    (computes : ∀ env, among env → op.onLane (left env) (right env) = some (value env)) :
    built.Denotes allowed among value := by
  have leftType := closed.dtype_eq lhs isLeft.within
  have rightType := closed.dtype_eq rhs isRight.within
  obtain ⟨rfl, -⟩ := binary?_eq_some (leftType.trans rightType.symm) builds
  rw [binaryType_of_arithmetic arithmetic, leftType]
  refine ⟨closed.binary op lhs rhs arithmetic isLeft.within isRight.within, fun env isAmong => ?_⟩
  rw [evalExact_binary (isLeft.evaluates env isAmong) (isRight.evaluates env isAmong)
    (leftType ▸ closed.isInteger) (rightType ▸ closed.isInteger) closed.scalar,
    Scalar.binaryInt?_unbounded arithmetic, computes env isAmong]
  rfl

theorem denotes_ofInt (closed : dtype.Closed allowed) {number : Int}
    (fits : dtype.fits number = true) :
    (ofInt dtype number).Denotes allowed among fun _ => number := by
  rw [ofInt_of_scalar closed.scalar closed.isInteger]
  exact ⟨closed.intConst number fits, fun _ _ => rfl⟩

/-- An operator applied from left to right. -/
theorem denotes_foldlM (closed : dtype.Closed allowed) (op : BinaryOp)
    (arithmetic : op.opClass = .arithmetic) {combine : Int → Int → Int}
    (computes : ∀ left right, op.onLane left right = some (combine left right)) {β : Type}
    {part : β → Option Expr} (weight : β → Environment → Int) {parts : List β}
    (each : ∀ item ∈ parts, ∀ expr, part item = some expr →
      expr.Denotes allowed among (weight item))
    {first built : Expr} (isFirst : first.Denotes allowed among left)
    (folded : parts.foldlM (fun expr item => do binary? op expr (← part item)) first = some built) :
    built.Denotes allowed among fun env =>
      (parts.map fun item => weight item env).foldl combine (left env) := by
  induction parts generalizing first left with
  | nil =>
    cases folded
    exact isFirst
  | cons item rest inductionHypothesis =>
    rw [List.foldlM_cons] at folded
    obtain ⟨next, isNext, folded⟩ := Option.bind_eq_some_iff.mp folded
    obtain ⟨operand, isOperand, builds⟩ := Option.bind_eq_some_iff.mp isNext
    have combined := isFirst.binary closed arithmetic (each item List.mem_cons_self operand isOperand)
      builds fun env _ => computes _ _
    exact inductionHypothesis (fun item member => each item (List.mem_cons_of_mem _ member)) combined
      folded

/-- The exact value as an integer. -/
def intAt (env : Environment) (expr : Expr) : Int :=
  match expr.evalExact env with
  | some (.int number) => number
  | _ => 0

theorem intAt_eq {env : Environment} {expr : Expr} {number : Int}
    (evaluated : expr.evalExact env = some (.int number)) : expr.intAt env = number := by
  rw [intAt, evaluated]

end Expr

/-! ### Atoms and products -/

namespace Atom

/-- The expression that the value of the atom depends on. -/
def base : Atom → Expr
  | leaf expr => expr
  | split dividend _ _ => dividend

/-- The value of the atom, if its expression has one. -/
def valueAt (env : Environment) : Atom → Int
  | leaf expr => expr.intAt env
  | split dividend divisor kind => kind.apply (dividend.intAt env) divisor

def HasValue (env : Environment) (atom : Atom) : Prop :=
  ∃ number, atom.base.evalExact env = some (.int number)

/-- The expression is of the type and binds only the given variables, and a divisor is a constant of
the type other than zero. -/
structure Within (names : List Variable) (dtype : DataType) (atom : Atom) : Prop where
  base : atom.base.Within names dtype
  divisor : ∀ dividend divisor kind, atom = split dividend divisor kind →
    divisor ≠ 0 ∧ dtype.fits divisor = true

theorem stands_expr (index : dtype.IsIndex) {atom : Atom} {built : Expr}
    (within : atom.Within names dtype) (hasValue : ∀ env, among env → atom.HasValue env)
    (builds : atom.expr? = some built) :
    built.Stands names dtype among fun env => atom.valueAt env := by
  have evaluates : ∀ env, among env → atom.base.evalExact env = some (.int (atom.base.intAt env)) := by
    intro env isAmong
    obtain ⟨number, evaluated⟩ := hasValue env isAmong
    rw [Expr.intAt_eq evaluated, evaluated]
  cases atom with
  | leaf expr =>
    cases builds
    exact ⟨within.base, evaluates⟩
  | split dividend divisor kind =>
    obtain ⟨nonzero, fits⟩ := within.divisor dividend divisor kind rfl
    have isDividend : dividend.Stands names dtype among fun env => dividend.intAt env :=
      ⟨within.base, evaluates⟩
    have isDivisor : (Expr.ofInt dividend.dtype divisor).Stands names dtype among fun _ => divisor := by
      rw [show dividend.dtype = dtype from within.base.dtype_eq]
      exact Expr.denotes_ofInt (Expr.closed_within index) fits
    refine isDividend.binary (Expr.closed_within index) (by cases kind <;> rfl) isDivisor builds
      fun env _ => ?_
    cases kind <;> exact if_neg nonzero

/-- The expression of the atom denotes its value. -/
def Denotes (allowed : Expr → Prop) (among : Environment → Prop) (values : Environment → Atom → Int)
    (atom : Atom) : Prop :=
  ∀ expr, atom.expr? = some expr → expr.Denotes allowed among fun env => values env atom

end Atom

variable {values : Environment → Atom → Int}

theorem Product.denotes_expr (closed : dtype.Closed allowed) {product : Product} {built : Expr}
    (atoms : ∀ atom ∈ product, atom.Denotes allowed among values)
    (builds : product.expr? = some built) :
    built.Denotes allowed among fun env => product.valueAt (values env) := by
  cases product with
  | nil => cases builds
  | cons atom rest =>
    obtain ⟨first, isFirst, folded⟩ := Option.bind_eq_some_iff.mp builds
    have denotes := Expr.denotes_foldlM closed .mul rfl (fun _ _ => rfl) (fun item env => values env item)
      (fun item member => atoms item (List.mem_cons_of_mem _ member))
      (atoms atom List.mem_cons_self first isFirst) folded
    refine ⟨denotes.within, fun env isAmong => ?_⟩
    rw [denotes.evaluates env isAmong, valueAt, List.map_cons, List.prod_eq_foldl, List.foldl_cons,
      one_mul]

/-! ### Sums -/

namespace SumForm

/-- The sum is made of the given variables' expressions, and it has the integer for its value in each
of the environments, where its atoms have values. -/
structure Stands (names : List Variable) (dtype : DataType) (among : Environment → Prop)
    (value : Environment → Int) (sum : SumForm) : Prop where
  formed : ∃ total, sum.Totals dtype (Atom.Within names dtype) (fun _ => 0) total
  totals : ∀ env, among env →
    sum.Totals dtype (Atom.HasValue env) (fun atom => atom.valueAt env) (value env)

section

variable {left right sum result : SumForm} {first second value : Environment → Int}

theorem Stands.congr (isSum : sum.Stands names dtype among first)
    (same : ∀ env, among env → first env = second env) : sum.Stands names dtype among second :=
  ⟨isSum.formed, fun env isAmong => same env isAmong ▸ isSum.totals env isAmong⟩

theorem stands_ofInt (value : Int) : (ofInt dtype value).Stands names dtype among fun _ => value :=
  ⟨⟨value, totals_ofInt value⟩, fun _ _ => totals_ofInt value⟩

theorem stands_ofAtom {atom : Atom} (within : atom.Within names dtype)
    (hasValue : ∀ env, among env → atom.HasValue env) :
    (ofAtom dtype atom).Stands names dtype among fun env => atom.valueAt env :=
  ⟨⟨0, totals_ofAtom within⟩, fun env isAmong => totals_ofAtom (hasValue env isAmong)⟩

theorem Stands.add (isLeft : left.Stands names dtype among first)
    (isRight : right.Stands names dtype among second) (added : left.add? right = some result) :
    result.Stands names dtype among fun env => first env + second env := by
  obtain ⟨_, formedLeft⟩ := isLeft.formed
  obtain ⟨_, formedRight⟩ := isRight.formed
  exact ⟨⟨_, formedLeft.add formedRight added⟩, fun env isAmong =>
    (isLeft.totals env isAmong).add (isRight.totals env isAmong) added⟩

theorem Stands.sub (isLeft : left.Stands names dtype among first)
    (isRight : right.Stands names dtype among second) (subtracted : left.sub? right = some result) :
    result.Stands names dtype among fun env => first env - second env := by
  obtain ⟨_, formedLeft⟩ := isLeft.formed
  obtain ⟨_, formedRight⟩ := isRight.formed
  exact ⟨⟨_, formedLeft.sub formedRight subtracted⟩, fun env isAmong =>
    (isLeft.totals env isAmong).sub (isRight.totals env isAmong) subtracted⟩

theorem Stands.mul {maxTerms : Nat} (isLeft : left.Stands names dtype among first)
    (isRight : right.Stands names dtype among second)
    (multiplied : left.mul? right maxTerms = some result) :
    result.Stands names dtype among fun env => first env * second env := by
  obtain ⟨_, formedLeft⟩ := isLeft.formed
  obtain ⟨_, formedRight⟩ := isRight.formed
  exact ⟨⟨_, formedLeft.mul formedRight multiplied⟩, fun env isAmong =>
    (isLeft.totals env isAmong).mul (isRight.totals env isAmong) multiplied⟩

theorem Stands.scale {factor : Int} (isSum : sum.Stands names dtype among value)
    (scaled : sum.scale? factor = some result) :
    result.Stands names dtype among fun env => value env * factor := by
  obtain ⟨_, formed⟩ := isSum.formed
  exact ⟨⟨_, formed.scale scaled⟩, fun env isAmong => (isSum.totals env isAmong).scale scaled⟩

theorem Stands.withConstant (isSum : sum.Stands names dtype among value) (constant : Int) :
    SumForm.Stands names dtype among (fun env => value env - sum.constant + constant)
      { sum with constant } := by
  obtain ⟨_, formed⟩ := isSum.formed
  exact ⟨⟨_, formed.withConstant constant⟩, fun env isAmong =>
    (isSum.totals env isAmong).withConstant constant⟩

theorem Stands.quotient {divisor : Int} (isSum : sum.Stands names dtype among value)
    (divided : sum.IsQuotient divisor result) :
    result.Stands names dtype among fun env => value env / divisor := by
  obtain ⟨_, formed⟩ := isSum.formed
  exact ⟨⟨_, (formed.quotient divided).2⟩, fun env isAmong =>
    ((isSum.totals env isAmong).quotient divided).2⟩

theorem Stands.filter (isSum : sum.Stands names dtype among value) (keep : Product × Int → Bool)
    (constant : Int) :
    SumForm.Stands names dtype among
      (fun env => termsAt (fun atom => atom.valueAt env) (sum.terms.filter keep) + constant)
      ⟨sum.dtype, sum.terms.filter keep, constant⟩ := by
  obtain ⟨_, formed⟩ := isSum.formed
  exact ⟨⟨_, formed.filter keep constant⟩, fun env isAmong =>
    (isSum.totals env isAmong).filter keep constant⟩

end

/-! ### Sums as expressions -/

theorem termsAt_signs (values : Atom → Int) (terms : List (Product × Int)) :
    termsAt values terms =
      termsAt values (terms.filter fun term => 0 < term.2) +
        termsAt values (terms.filter fun term => term.2 < 0) := by
  induction terms with
  | nil => rfl
  | cons term rest inductionHypothesis =>
    obtain ⟨product, coefficient⟩ := term
    rw [termsAt_cons, inductionHypothesis, List.filter_cons, List.filter_cons]
    rcases lt_trichotomy coefficient 0 with negative | zero | positive
    · simp [negative, negative.not_gt]
      ring
    · simp [zero]
    · simp [positive, positive.not_gt]
      ring

theorem foldl_add (first : Int) (parts : List Int) :
    parts.foldl (fun left right => left + right) first = first + parts.sum := by
  induction parts generalizing first with
  | nil => simp
  | cons part rest inductionHypothesis =>
    rw [List.foldl_cons, inductionHypothesis, List.sum_cons, add_assoc]

theorem foldl_sub (first : Int) (parts : List Int) :
    parts.foldl (fun left right => left - right) first = first - parts.sum := by
  induction parts generalizing first with
  | nil => simp
  | cons part rest inductionHypothesis =>
    rw [List.foldl_cons, inductionHypothesis, List.sum_cons, sub_sub]

section

variable {terms : List (Product × Int)} {built first : Expr} {value : Environment → Int}

/-- The expressions of the atoms of the terms denote their values. -/
def AtomsDenote (allowed : Expr → Prop) (among : Environment → Prop)
    (values : Environment → Atom → Int) (terms : List (Product × Int)) : Prop :=
  ∀ term ∈ terms, ∀ atom ∈ term.1, atom.Denotes allowed among values

variable (closed : dtype.Closed allowed) (atoms : AtomsDenote allowed among values terms)
include closed

theorem denotes_constantExpr {number : Int} (builds : constantExpr? dtype number = some built) :
    built.Denotes allowed among fun _ => number := by
  obtain ⟨fits, rfl⟩ := Option.ite_none_right_eq_some.mp builds |>.imp_right Option.some.inj
  exact Expr.denotes_ofInt closed fits

include atoms

theorem denotes_termExpr {term : Product × Int} (member : term ∈ terms) {coefficient : Int}
    (builds : termExpr? dtype term.1 coefficient = some built) :
    built.Denotes allowed among fun env => coefficient * term.1.valueAt (values env) := by
  obtain ⟨expr, isExpr, builds⟩ := Option.bind_eq_some_iff.mp builds
  have denotes := Product.denotes_expr closed (atoms term member) isExpr
  split at builds
  next one =>
    cases builds
    simpa only [one, one_mul] using denotes
  next =>
    obtain ⟨constant, isConstant, builds⟩ := Option.bind_eq_some_iff.mp builds
    exact denotes.binary closed rfl (denotes_constantExpr closed isConstant) builds fun env _ =>
      congrArg some (mul_comm _ _)

theorem denotes_add (isFirst : first.Denotes allowed among value)
    (folded : terms.foldlM (fun expr (product, coefficient) => do
      Expr.binary? .add expr (← termExpr? dtype product coefficient)) first = some built) :
    built.Denotes allowed among fun env => value env + termsAt (values env) terms := by
  have denotes := Expr.denotes_foldlM closed .add rfl (fun _ _ => rfl)
    (fun term env => term.2 * term.1.valueAt (values env))
    (fun term member expr isExpr => denotes_termExpr closed atoms member isExpr) isFirst folded
  refine ⟨denotes.within, fun env isAmong => ?_⟩
  rw [denotes.evaluates env isAmong, foldl_add]
  rfl

theorem denotes_sub (isFirst : first.Denotes allowed among value)
    (folded : terms.foldlM (fun expr (product, coefficient) => do
      Expr.binary? .sub expr (← termExpr? dtype product (← Word.neg? coefficient))) first =
        some built) :
    built.Denotes allowed among fun env => value env + termsAt (values env) terms := by
  have each : ∀ term ∈ terms, ∀ expr,
      (do termExpr? dtype term.1 (← Word.neg? term.2)) = some expr →
      expr.Denotes allowed among fun env => -term.2 * term.1.valueAt (values env) := by
    intro term member expr isExpr
    obtain ⟨opposite, isOpposite, isExpr⟩ := Option.bind_eq_some_iff.mp isExpr
    obtain ⟨-, rfl⟩ := Word.ofInt?_eq_some_iff.mp isOpposite
    exact denotes_termExpr closed atoms member isExpr
  have denotes := Expr.denotes_foldlM closed .sub rfl (fun _ _ => rfl) _ each isFirst (by
    simpa only [Option.bind_eq_bind, Option.bind_assoc] using folded)
  refine ⟨denotes.within, fun env isAmong => ?_⟩
  have weights : ∀ term : Product × Int,
      -term.2 * term.1.valueAt (values env) = -1 * (term.2 * term.1.valueAt (values env)) :=
    fun _ => by ring
  simp only [denotes.evaluates env isAmong, foldl_sub, weights, List.sum_map_mul_left]
  rw [neg_one_mul, sub_neg_eq_add]
  rfl

end

/-- A sum as an expression denotes the value that its atoms give it. -/
theorem denotes_expr {sum : SumForm} {built : Expr} (closed : sum.dtype.Closed allowed)
    (atoms : AtomsDenote allowed among values sum.terms) (builds : sum.expr? = some built) :
    built.Denotes allowed among fun env => termsAt (values env) sum.terms + sum.constant := by
  have some_of_filter (keep : Product × Int → Bool) :
      AtomsDenote allowed among values (sum.terms.filter keep) :=
    fun term member => atoms term (List.mem_of_mem_filter member)
  have signs := fun env => termsAt_signs (values env) sum.terms
  have negatives := some_of_filter fun term => term.2 < 0
  have positives := some_of_filter fun term => 0 < term.2
  dsimp only [expr?] at builds
  split at builds
  next isEmpty =>
    obtain ⟨first, isFirst, folded⟩ := Option.bind_eq_some_iff.mp builds
    have denotes := denotes_sub closed negatives (denotes_constantExpr closed isFirst) folded
    refine ⟨denotes.within, fun env isAmong => ?_⟩
    rw [denotes.evaluates env isAmong, signs, isEmpty, termsAt_nil, zero_add, add_comm]
  next product coefficient rest isPositive =>
    rw [isPositive] at positives
    obtain ⟨first, isFirst, builds⟩ := Option.bind_eq_some_iff.mp builds
    obtain ⟨added, isAdded, builds⟩ := Option.bind_eq_some_iff.mp builds
    obtain ⟨terms, areTerms, builds⟩ := Option.bind_eq_some_iff.mp builds
    have denotes := denotes_sub closed negatives (denotes_add closed
      (fun term member => positives term (List.mem_cons_of_mem _ member))
      (denotes_termExpr closed positives List.mem_cons_self isFirst) isAdded) areTerms
    simp only [signs, isPositive, termsAt_cons]
    split at builds
    next zero =>
      cases builds
      refine ⟨denotes.within, fun env isAmong => ?_⟩
      rw [denotes.evaluates env isAmong, zero, add_zero]
    next =>
      split at builds
      next =>
        obtain ⟨constant, isExpr, builds⟩ := Option.bind_eq_some_iff.mp builds
        exact denotes.binary closed rfl (denotes_constantExpr closed isExpr) builds fun _ _ => rfl
      next =>
        obtain ⟨opposite, isOpposite, builds⟩ := Option.bind_eq_some_iff.mp builds
        obtain ⟨-, rfl⟩ := Word.ofInt?_eq_some_iff.mp isOpposite
        obtain ⟨constant, isExpr, builds⟩ := Option.bind_eq_some_iff.mp builds
        refine denotes.binary closed rfl (denotes_constantExpr closed isExpr) builds fun env _ => ?_
        rw [BinaryOp.onLane, sub_neg_eq_add]

/-- A sum as an expression has the value of the sum. -/
theorem Stands.expr (index : dtype.IsIndex) {sum : SumForm} {value : Environment → Int}
    {built : Expr} (isSum : sum.Stands names dtype among value) (builds : sum.expr? = some built) :
    built.Stands names dtype among value := by
  obtain ⟨total, formed⟩ := isSum.formed
  have atoms : AtomsDenote (Expr.Within names dtype) among (fun env atom => atom.valueAt env)
      sum.terms := fun term member atom inside _ => Atom.stands_expr index
    (formed.allowed term member atom inside) fun env isAmong =>
      (isSum.totals env isAmong).allowed term member atom inside
  have closed : sum.dtype.Closed (Expr.Within names dtype) := by
    rw [formed.dtype_eq]
    exact Expr.closed_within index
  have denotes := denotes_expr closed atoms builds
  refine ⟨denotes.within, fun env isAmong => ?_⟩
  rw [denotes.evaluates env isAmong, (isSum.totals env isAmong).value_eq]

end SumForm

end IndexAlgebra
