/-
This file says what it means that a rule makes one expression of another, which answers it is given,
and when these are true. A rule may ask for bounds, for congruence classes and for the relation of
two expressions, and what it makes is only as right as the answers to what it asked. It also holds
the steps that the exactness of most rules is made of: taking a node apart, and putting a node of
parts of it in its place.
-/
import IndexAlgebra.Proofs.LaneValues
import IndexAlgebra.Reduction.Sums

namespace IndexAlgebra

/-! ### Questions and answers -/

/-- What a rule may ask. -/
inductive Question where
  | bound (expr : Expr)
  | congruence (expr : Expr)
  | relation (lhs rhs : Expr)

/-- What rules are told: the evidence, and how two expressions are related. -/
structure Answers where
  evidence : Evidence
  relation : Expr → Expr → Relation

namespace Answers

/-- The answer to the question is the same. -/
def SameTo (first second : Answers) : Question → Prop
  | .bound expr => first.evidence.bound expr = second.evidence.bound expr
  | .congruence expr => first.evidence.congruence expr = second.evidence.congruence expr
  | .relation lhs rhs => first.relation lhs rhs = second.relation lhs rhs

/-- The answer to the question is true of the values in the environment, in every lane. -/
def TrueTo (answers : Answers) (env : Environment) : Question → Prop
  | .bound expr => ∀ index number, expr.valueAt env index = some number →
    (answers.evidence.bound expr).contains number = true
  | .congruence expr => ∀ index number, expr.valueAt env index = some number →
    (answers.evidence.congruence expr).contains number = true
  | .relation lhs rhs => ∀ index left right, lhs.valueAt env index = some left →
    rhs.valueAt env index = some right → (answers.relation lhs rhs).Holds left right

/-- The answer to the question is true of the integers that the evaluation under the check gives, in
every lane. -/
def TrueIn (answers : Answers) (check : RangeCheck) (env : Environment) : Question → Prop
  | .bound expr => ∀ index number, expr.valueIn check env index = some number →
    (answers.evidence.bound expr).contains number = true
  | .congruence expr => ∀ index number, expr.valueIn check env index = some number →
    (answers.evidence.congruence expr).contains number = true
  | .relation lhs rhs => ∀ index left right, lhs.valueIn check env index = some left →
    rhs.valueIn check env index = some right → (answers.relation lhs rhs).Holds left right

theorem TrueTo.trueIn {answers : Answers} {env : Environment} {question : Question}
    (told : answers.TrueTo env question) : answers.TrueIn .checked env question := by
  cases question <;> exact told

open Classical in
/-- The answers to some questions, and no information about anything else. -/
noncomputable def only (answers : Answers) (asked : Question → Prop) : Answers where
  evidence := { answers.evidence with
    bound := fun expr => if asked (.bound expr) then answers.evidence.bound expr else .everything
    congruence := fun expr =>
      if asked (.congruence expr) then answers.evidence.congruence expr else .everything }
  relation := fun lhs rhs =>
    if asked (.relation lhs rhs) then answers.relation lhs rhs else .unknown

theorem only_sameTo {answers : Answers} {asked : Question → Prop} {question : Question}
    (isAsked : asked question) : (answers.only asked).SameTo answers question := by
  cases question <;> exact if_pos isAsked

/-- Answers that are true to what is asked are true to everything if no more of them is kept. -/
theorem only_trueIn {answers : Answers} {asked : Question → Prop} {check : RangeCheck}
    {env : Environment} (told : ∀ question, asked question → answers.TrueIn check env question)
    (question : Question) : (answers.only asked).TrueIn check env question := by
  by_cases isAsked : asked question
  · have isTrue := told question isAsked
    cases question with
    | bound expr =>
      intro index number isNumber
      simpa only [only, if_pos isAsked] using isTrue index number isNumber
    | congruence expr =>
      intro index number isNumber
      simpa only [only, if_pos isAsked] using isTrue index number isNumber
    | relation lhs rhs =>
      intro index left right isLeft isRight
      simpa only [only, if_pos isAsked] using isTrue index left right isLeft isRight
  · cases question with
    | bound expr =>
      intro index number _
      simp only [only, if_neg isAsked, Bound.contains_everything]
    | congruence expr =>
      intro index number _
      simp only [only, if_neg isAsked, Congruence.contains_everything]
    | relation lhs rhs =>
      intro index left right _ _
      simp only [only, if_neg isAsked, Relation.Holds]

end Answers

/-- The rule makes the second expression of the first one. -/
def Rule.Rewrites (answers : Answers) (expr result : Expr) : Rule → Prop
  | plain _ apply => apply answers.evidence expr = some result
  | counted _ fits apply => fits expr = true ∧ apply expr = some result
  | comparing _ operands conclude => ∃ lhs rhs, operands expr = some (lhs, rhs) ∧
    conclude (answers.relation lhs rhs) expr = some result

/-- The rule makes the second expression of the first one on account of the answers to the
questions, whatever else it might be told. -/
def Rule.RewritesAsking (rule : Rule) (asked : Question → Prop) (answers : Answers)
    (expr result : Expr) : Prop :=
  ∀ other : Answers, (∀ question, asked question → other.SameTo answers question) →
    rule.Rewrites other expr result

/-- What a rule makes on account of true answers, it makes of answers that are all true. -/
theorem Rule.RewritesAsking.exists_trueIn {rule : Rule} {asked : Question → Prop}
    {answers : Answers} {env : Environment} {expr result : Expr}
    (rewrites : rule.RewritesAsking asked answers expr result)
    (told : ∀ question, asked question → answers.TrueTo env question) :
    ∃ other : Answers, (∀ question, other.TrueIn .checked env question) ∧
      rule.Rewrites other expr result :=
  ⟨answers.only asked, Answers.only_trueIn fun question isAsked => (told question isAsked).trueIn,
    rewrites _ fun _ => Answers.only_sameTo⟩

namespace Expr

variable {check : RangeCheck} {env : Environment}
  {expr result first second term lhs rhs : Expr} {op : BinaryOp} {dtype constType : DataType}
  {index : Nat} {number value : Int}

/-- Both expressions have the same value wherever both have one. -/
def SameValue (env : Environment) (expr result : Expr) : Prop :=
  ∀ first second, expr.eval env = some first → result.eval env = some second → first = second

/-- The evaluation under the check gives both expressions the same value wherever it gives both of them
one. -/
def SameIn (check : RangeCheck) (env : Environment) (expr result : Expr) : Prop :=
  ∀ first second, expr.evaluate check env = some first →
    result.evaluate check env = some second → first = second

theorem Agrees.sameIn (agrees : Agrees check env expr result) (typed : expr.WellTyped)
    (kinded : env.Kinded) (isInteger : expr.dtype.isInteger = true) :
    SameIn check env expr result :=
  fun _ _ => agrees.eq_of_isInteger typed kinded isInteger

/-! ### Taking nodes apart -/

/-- The integers of the expression are made of those of the two parts, which have the given type. -/
structure Parts (check : RangeCheck) (env : Environment) (op : BinaryOp) (expr : Expr)
    (operand : DataType)
    (first second : Expr) : Prop where
  isFirst : Yields check env first operand (first.valueIn check env)
  isSecond : Yields check env second operand (second.valueIn check env)
  made : ∀ {index number}, expr.valueIn check env index = some number →
    ∃ left, first.valueIn check env index = some left ∧
      ∃ right, second.valueIn check env index = some right ∧
      op.onLane left right = some number

theorem WellTyped.parts [check.Lawful] (typed : (binary dtype op lhs rhs).WellTyped)
    (kinded : env.Kinded)
    (notFloat : lhs.dtype.isFloat = false) :
    Parts check env op (binary dtype op lhs rhs) lhs.dtype lhs rhs := by
  have node := typed
  rw [WellTyped] at node
  obtain ⟨left, right, same, -⟩ := node
  exact ⟨left.yields, ⟨right, same.symm, fun _ _ => id⟩, typed.valueIn_binary kinded notFloat⟩

/-- A binary node over integers is arithmetic on integers of the same type. -/
theorem Yields.parts [check.Lawful] {operand : DataType} {numbers : Nat → Option Int}
    (yields : Yields check env (binary dtype op lhs rhs) operand numbers) (kinded : env.Kinded)
    (isInteger : operand.isInteger = true) :
    Parts check env op (binary dtype op lhs rhs) operand lhs rhs := by
  obtain ⟨typed, rfl, -⟩ := yields
  have node := typed
  rw [WellTyped] at node
  obtain ⟨-, -, -, isType, logical⟩ := node
  rw [Expr.dtype, isType] at isInteger
  obtain ⟨arithmetic, leftInteger⟩ := arithmetic_of_isInteger isInteger logical
  have same : (binary dtype op lhs rhs).dtype = lhs.dtype :=
    isType.trans (binaryType_of_arithmetic arithmetic)
  rw [same]
  exact typed.parts kinded (DataType.isFloat_of_isInteger leftInteger)

variable {operand : DataType}

theorem Parts.symm (parts : Parts check env op expr operand first second)
    (commutes : op.isCommutative = true) : Parts check env op expr operand second first := by
  refine ⟨parts.isSecond, parts.isFirst, fun isNumber => ?_⟩
  obtain ⟨left, isLeft, right, isRight, made⟩ := parts.made isNumber
  exact ⟨right, isRight, left, isLeft, (BinaryOp.onLane_comm commutes left right).trans made⟩

/-- The integers of a node with a constant on the right. -/
theorem Parts.made_const (parts : Parts check env op expr operand first (intConst constType value))
    (isNumber : expr.valueIn check env index = some number) :
    ∃ left, first.valueIn check env index = some left ∧ op.onLane left value = some number := by
  obtain ⟨left, isLeft, right, isRight, made⟩ := parts.made isNumber
  rw [valueIn_intConst isRight] at made
  exact ⟨left, isLeft, made⟩

/-- The integers of a node with a constant on the left. -/
theorem Parts.made_const_left (parts : Parts check env op expr operand (intConst constType value) second)
    (isNumber : expr.valueIn check env index = some number) :
    ∃ right, second.valueIn check env index = some right ∧ op.onLane value right = some number := by
  obtain ⟨left, isLeft, right, isRight, made⟩ := parts.made isNumber
  rw [valueIn_intConst isLeft] at made
  exact ⟨right, isRight, made⟩

/-- The integers of two nodes that share their first part. -/
theorem Parts.made_shared {other third : Expr} {left right : Int}
    (isLeft : Parts check env op expr operand first second)
    (isRight : Parts check env op other operand first third)
    (isX : expr.valueIn check env index = some left)
    (isY : other.valueIn check env index = some right) :
    ∃ shared, first.valueIn check env index = some shared ∧
      ∃ a, second.valueIn check env index = some a ∧
      ∃ b, third.valueIn check env index = some b ∧ op.onLane shared a = some left ∧
        op.onLane shared b = some right := by
  obtain ⟨shared, isShared, a, isA, made⟩ := isLeft.made isX
  obtain ⟨shared', isShared', b, isB, made'⟩ := isRight.made isY
  cases isShared.symm.trans isShared'
  exact ⟨shared, isShared, a, isA, b, isB, made, made'⟩

/-- An operand of a node is found beside the other one. -/
theorem Yields.parts_of_otherOperand? [check.Lawful] {numbers : Nat → Option Int} {other : Expr}
    (yields : Yields check env expr operand numbers) (kinded : env.Kinded)
    (isInteger : operand.isInteger = true) (commutes : op.isCommutative = true)
    (found : Reduction.Sums.otherOperand? expr op term = some other) :
    Parts check env op expr operand term other := by
  obtain ⟨⟨lhs, rhs⟩, isNode, isOther⟩ := Option.bind_eq_some_iff.mp found
  dsimp only at isOther
  obtain ⟨dtype, rfl⟩ := operands?_eq_some.mp isNode
  have parts := yields.parts kinded isInteger
  split at isOther
  next same =>
    cases isOther
    exact same ▸ parts
  next =>
    obtain ⟨same, equal⟩ := Option.ite_none_right_eq_some.mp isOther
    cases equal
    exact same ▸ parts.symm commutes

/-- Two nodes that share an operand are made of it and of the operands that are left. -/
theorem parts_of_withoutShared? {a b c d x y : Expr} (isFirst : Parts check env op first operand a b)
    (isSecond : Parts check env op second operand c d) (commutes : op.isCommutative = true)
    (found : Reduction.Sums.withoutShared? (a, b) (c, d) = some (x, y)) :
    ∃ shared, Parts check env op first operand shared x ∧
      Parts check env op second operand shared y := by
  simp only [Reduction.Sums.withoutShared?] at found
  split at found
  next same => cases found; exact ⟨a, isFirst, same ▸ isSecond⟩
  split at found
  next same => cases found; exact ⟨a, isFirst, same ▸ isSecond.symm commutes⟩
  split at found
  next same => cases found; exact ⟨b, isFirst.symm commutes, same ▸ isSecond⟩
  split at found
  next same => cases found; exact ⟨b, isFirst.symm commutes, same ▸ isSecond.symm commutes⟩
  next => cases found

/-! ### Putting nodes in place -/

/-- A node of a term and a constant on the right. -/
theorem agrees_binaryConst? [check.Lawful]
    (isTerm : Yields check env term dtype (term.valueIn check env))
    (kinded : env.Kinded)
    (builds : binaryConst? op term value = some result) (isType : binaryType op dtype = expr.dtype)
    (reads : ∀ index number, expr.valueIn check env index = some number →
      ∃ left, term.valueIn check env index = some left ∧ op.onLane left value = some number) :
    Agrees check env expr result := by
  refine (isTerm.binaryConst? kinded builds).agrees isType fun index number isNumber => ?_
  obtain ⟨left, isLeft, made⟩ := reads index number isNumber
  rw [isLeft]
  exact made

/-- A constant of the type of the expression. -/
theorem agrees_constantLike? (typed : expr.WellTyped) (kinded : env.Kinded)
    (builds : constantLike? expr value = some result)
    (reads : ∀ index number, expr.valueIn check env index = some number → number = value) :
    Agrees check env expr result :=
  (typed.yields.constantLike? kinded builds).agrees rfl fun index number isNumber =>
    congrArg some (reads index number isNumber).symm

/-! ### Arithmetic on integers -/

/-- The operands of the expression are integers if it is a binary node. -/
def IntegerOperands : Expr → Prop
  | binary _ _ lhs _ => lhs.dtype.isInteger = true
  | _ => True

/-- A well-typed expression over integers, whose value is asked for in the environment. -/
structure OverIntegers (check : RangeCheck) (env : Environment) (expr : Expr) : Prop where
  typed : expr.WellTyped
  kinded : env.Kinded
  operands : expr.IntegerOperands

/-- The expression has integers, which are computed from those of two parts of its type. -/
structure Combines (check : RangeCheck) (env : Environment) (op : BinaryOp)
    (expr first second : Expr) : Prop where
  typed : expr.WellTyped
  kinded : env.Kinded
  isInteger : expr.dtype.isInteger = true
  parts : Parts check env op expr expr.dtype first second

theorem OverIntegers.combines [check.Lawful] (isOver : OverIntegers check env (binary dtype op lhs rhs))
    (arithmetic : op.opClass = .arithmetic) :
    Combines check env op (binary dtype op lhs rhs) lhs rhs := by
  have isInteger : lhs.dtype.isInteger = true := isOver.operands
  have node := isOver.typed
  rw [WellTyped] at node
  obtain ⟨-, -, -, isType, -⟩ := node
  rw [binaryType_of_arithmetic arithmetic] at isType
  subst isType
  exact ⟨isOver.typed, isOver.kinded, isInteger,
    isOver.typed.parts isOver.kinded (DataType.isFloat_of_isInteger isInteger)⟩

namespace Combines

variable {inner : BinaryOp} {a b : Expr} {innerType : DataType}
  {left right numbers : Nat → Option Int}

theorem symm (combines : Combines check env op expr first second) (commutes : op.isCommutative = true) :
    Combines check env op expr second first :=
  ⟨combines.typed, combines.kinded, combines.isInteger, combines.parts.symm commutes⟩

theorem zero (combines : Combines check env op expr first second) {zero : Expr}
    (builds : constantLike? first 0 = some zero) : Yields check env zero expr.dtype fun _ => some 0 :=
  combines.parts.isFirst.constantLike? combines.kinded builds

/-- An expression that has the integers which the operator makes of those of the parts. -/
theorem sameIn (combines : Combines check env op expr first second)
    (isResult : Yields check env result expr.dtype numbers)
    (reads : ∀ {index x y}, first.valueIn check env index = some x →
      second.valueIn check env index = some y →
      numbers index = op.onLane x y) : SameIn check env expr result := by
  refine (isResult.agrees rfl fun index number isNumber => ?_).sameIn combines.typed
    combines.kinded
    combines.isInteger
  obtain ⟨x, isX, y, isY, made⟩ := combines.parts.made isNumber
  exact (reads isX isY).trans made

/-- The first part, where the operator leaves it as it is. -/
theorem sameIn_first (combines : Combines check env op expr first second)
    (reads : ∀ {index x y}, first.valueIn check env index = some x →
      second.valueIn check env index = some y →
      op.onLane x y = some x) : SameIn check env expr first :=
  combines.sameIn combines.parts.isFirst fun isX isY => isX.trans (reads isX isY).symm

/-- A constant that the operator makes of any integers of the parts. -/
theorem sameIn_ofInt (combines : Combines check env op expr first second)
    (fits : expr.dtype.fits value = true)
    (reads : ∀ {index x y}, first.valueIn check env index = some x →
      second.valueIn check env index = some y →
      op.onLane x y = some value) : SameIn check env expr (ofInt expr.dtype value) :=
  combines.sameIn (yields_ofInt combines.kinded combines.typed.valid
    (DataType.isFloat_of_isInteger combines.isInteger) fits) fun isX isY => (reads isX isY).symm

variable [check.Lawful]

theorem ofFirst (combines : Combines check env op expr (binary innerType inner a b) second) :
    Parts check env inner (binary innerType inner a b) expr.dtype a b :=
  combines.parts.isFirst.parts combines.kinded combines.isInteger

theorem ofSecond (combines : Combines check env op expr first (binary innerType inner a b)) :
    Parts check env inner (binary innerType inner a b) expr.dtype a b :=
  combines.parts.isSecond.parts combines.kinded combines.isInteger

theorem yields_binary? (combines : Combines check env op expr first second) {built : Expr}
    (isA : Yields check env a expr.dtype left) (isB : Yields check env b expr.dtype right)
    (arithmetic : inner.opClass = .arithmetic) (builds : binary? inner a b = some built) :
    Yields check env built expr.dtype fun index =>
      (left index).bind fun x => (right index).bind fun y => inner.onLane x y := by
  have yields := isA.binary? isB combines.kinded (DataType.isFloat_of_isInteger combines.isInteger)
    builds
  rwa [binaryType_of_arithmetic arithmetic] at yields

/-- A node of two terms. -/
theorem sameIn_binary? (combines : Combines check env op expr first second)
    (isA : Yields check env a expr.dtype left) (isB : Yields check env b expr.dtype right)
    (arithmetic : inner.opClass = .arithmetic) (builds : binary? inner a b = some result)
    (reads : ∀ {index x y}, first.valueIn check env index = some x →
      second.valueIn check env index = some y →
      ∃ p, left index = some p ∧ ∃ q, right index = some q ∧ inner.onLane p q = op.onLane x y) :
    SameIn check env expr result := by
  refine combines.sameIn (combines.yields_binary? isA isB arithmetic builds) fun isX isY => ?_
  obtain ⟨p, isP, q, isQ, same⟩ := reads isX isY
  rw [isP, isQ]
  exact same

/-- A node of a term and a constant on the right. -/
theorem sameIn_binaryConst? (combines : Combines check env op expr first second)
    (isTerm : Yields check env term expr.dtype left) (arithmetic : inner.opClass = .arithmetic)
    (builds : binaryConst? inner term value = some result)
    (reads : ∀ {index x y}, first.valueIn check env index = some x →
      second.valueIn check env index = some y →
      ∃ p, left index = some p ∧ inner.onLane p value = op.onLane x y) :
      SameIn check env expr result := by
  have yields := isTerm.binaryConst? combines.kinded builds
  rw [binaryType_of_arithmetic arithmetic] at yields
  refine combines.sameIn yields fun isX isY => ?_
  obtain ⟨p, isP, same⟩ := reads isX isY
  rw [isP]
  exact same

/-- A node of a term and a constant on the left. -/
theorem sameIn_constBinary? (combines : Combines check env op expr first second)
    (isTerm : Yields check env term expr.dtype right) (arithmetic : inner.opClass = .arithmetic)
    (builds : constBinary? inner value term = some result)
    (reads : ∀ {index x y}, first.valueIn check env index = some x →
      second.valueIn check env index = some y →
      ∃ q, right index = some q ∧ inner.onLane value q = op.onLane x y) :
      SameIn check env expr result := by
  have yields := isTerm.constBinary? combines.kinded builds
  rw [binaryType_of_arithmetic arithmetic] at yields
  refine combines.sameIn yields fun isX isY => ?_
  obtain ⟨q, isQ, same⟩ := reads isX isY
  rw [isQ]
  exact same

variable {constType otherType : DataType} {collected : BinaryOp} {c d e : Int}

/-- A constant beside a term and another constant is collected with it, where this is an equation of
integers. -/
theorem sameIn_constants (combines : Combines check env op expr
      (binary innerType inner term (intConst constType d)) (intConst otherType c))
    (arithmetic : collected.opClass = .arithmetic)
    (builds : binaryConst? collected term e = some result)
    (collects : ∀ x, collected.onLane x e = (inner.onLane x d).bind (op.onLane · c)) :
    SameIn check env expr result := by
  have parts := combines.ofFirst
  refine combines.sameIn_binaryConst? parts.isFirst arithmetic builds fun isX isY => ?_
  obtain ⟨x, isTerm, made⟩ := parts.made_const isX
  refine ⟨x, isTerm, ?_⟩
  rw [collects, made, valueIn_intConst isY, Option.bind_some]

/-- A constant beside another constant and a term is collected with it. -/
theorem sameIn_constantsLeft (combines : Combines check env op expr
      (binary innerType inner (intConst constType d) term) (intConst otherType c))
    (arithmetic : collected.opClass = .arithmetic)
    (builds : constBinary? collected e term = some result)
    (collects : ∀ x, collected.onLane e x = (inner.onLane d x).bind (op.onLane · c)) :
    SameIn check env expr result := by
  have parts := combines.ofFirst
  refine combines.sameIn_constBinary? parts.isSecond arithmetic builds fun isX isY => ?_
  obtain ⟨x, isTerm, made⟩ := parts.made_const_left isX
  refine ⟨x, isTerm, ?_⟩
  rw [collects, made, valueIn_intConst isY, Option.bind_some]

end Combines

end Expr

end IndexAlgebra
