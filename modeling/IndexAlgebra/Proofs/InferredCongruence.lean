/-
This file proves that the inferred congruence class of an expression contains every lane of its
value, provided that the sums, differences and products of the classes that are met are right, and
that the bounds that are asked for are. Bound variables are renamed apart from everything that is
known first, so that the class of a variable is never used inside a binding that hides it.
-/
import IndexAlgebra.Proofs.Congruence
import IndexAlgebra.Proofs.Lanes
import IndexAlgebra.Proofs.InferredBound

namespace IndexAlgebra

open Word

/-! ### Words -/

/-- Every integer of the value of a variable is a word. -/
def Environment.HoldsWords (env : Environment) : Prop :=
  ∀ name value, env name = some value → ∀ number ∈ value.ints, Fits number

theorem fits_of_zero_or_one {number : Int} (truth : number = 0 ∨ number = 1) : Fits number := by
  rcases truth with rfl | rfl <;> decide

theorem Value.fits_of_inLane {dtype : DataType} {lane : Value} {number : Int}
    (inLane : lane.InLane dtype) (member : number ∈ lane.ints) : Fits number := by
  cases lane with
  | int value =>
    exact Bound.word_of_fits (DataType.isFloat_of_isInteger inLane.1)
      (fits_of_mem_ints inLane member)
  | bool truth => exact fits_of_zero_or_one (Expr.eq_zero_or_one_of_mem_ints member)
  | float value =>
    rw [ints_float] at member
    exact absurd member List.not_mem_nil
  | vector lanes => exact inLane.elim

theorem Environment.Typed.holdsWords {env : Environment} (typed : env.Typed) : env.HoldsWords := by
  intro name value isValue number member
  obtain ⟨lanes, rfl, -, inLanes⟩ := (typed name value isValue).1
  obtain ⟨lane, isLane, inLane⟩ := Value.mem_ints_ofLanes.mp member
  exact Value.fits_of_inLane (inLanes lane isLane) inLane

/-- An arithmetic operator in a checked type gives the word of the type that it gives in a lane. -/
theorem onLane_of_binaryInt? {dtype : DataType} {op : BinaryOp} {left right number : Int}
    (result : Scalar.binaryInt? .checked dtype op left right = some (.int number)) :
    Fits number ∧ dtype.fits number = true ∧ op.onLane left right = some number := by
  have inRange : ∀ computed, (RangeCheck.checked dtype computed).map Value.int = some (.int number) →
      Fits number ∧ dtype.fits number = true ∧ computed = number := by
    intro computed equal
    obtain ⟨checked, isChecked, same⟩ := Option.map_eq_some_iff.mp equal
    obtain ⟨word, fits, rfl⟩ := RangeCheck.checked_eq_some.mp isChecked
    cases same
    exact ⟨word, fits, rfl⟩
  unfold Scalar.binaryInt? at result
  cases op <;>
    simp only [Option.ite_none_left_eq_some, Option.some.injEq, reduceCtorEq] at result
  case add | sub | mul | min | max =>
    obtain ⟨word, fits, rfl⟩ := inRange _ result
    exact ⟨word, fits, rfl⟩
  case truncDiv | truncMod | floorDiv | floorMod =>
    obtain ⟨word, fits, rfl⟩ := inRange _ result.2
    exact ⟨word, fits, if_neg result.1⟩

namespace Expr

variable {env : Environment} {number : Int}

theorem fits_of_reads_ramp {dtype : DataType} {base stride : Expr} {count : Nat}
    (reads : Reads env (ramp dtype base stride count) number) :
    Fits number ∧ dtype.fits number = true := by
  obtain ⟨result, evaluated, member⟩ := reads
  obtain ⟨_, _, _, _, lanes, -, -, -, -, equal, rfl⟩ := evaluate_ramp_eq_some.mp evaluated
  obtain ⟨lane, isLane, inLane⟩ := Value.mem_ints_vector.mp member
  obtain ⟨index, -, isResult⟩ := exists_of_mem_mapM equal isLane
  obtain ⟨checked, isChecked, rfl⟩ := Option.map_eq_some_iff.mp isResult
  obtain ⟨word, fits, rfl⟩ := RangeCheck.checked_eq_some.mp isChecked
  rw [Value.ints_int, List.mem_singleton] at inLane
  exact inLane ▸ ⟨word, fits⟩

/-- The integer of a call fits its type, or is that of a branch. -/
theorem reads_call {dtype : DataType} {op : CallOp} {args : List Expr}
    (reads : Reads env (call dtype op args) number) :
    dtype.fits number = true ∨ ∃ cond onTrue onFalse, op = .ifThenElse ∧
      args = [cond, onTrue, onFalse] ∧ (Reads env onTrue number ∨ Reads env onFalse number) := by
  obtain ⟨result, evaluated, member⟩ := reads
  have reads : Reads env (call dtype op args) number := ⟨result, evaluated, member⟩
  rcases call_cases evaluated with
    ⟨rfl, cond, onTrue, onFalse, rfl⟩ | ⟨rfl, value, rfl⟩ | ⟨lhs, rhs, rfl⟩
  · exact .inr ⟨cond, onTrue, onFalse, rfl, rfl, (reads_ifThenElse reads).imp And.right And.right⟩
  · exact .inl (reads_bitwiseNot reads).1
  · exact .inl (reads_bitwise reads).1

theorem fits_of_reads_call {dtype : DataType} {op : CallOp} {args : List Expr}
    (notFloat : dtype.isFloat = false)
    (ofBranch : ∀ arg ∈ args, Reads env arg number → Fits number)
    (reads : Reads env (call dtype op args) number) : Fits number := by
  rcases reads_call reads with fits | ⟨cond, onTrue, onFalse, rfl, rfl, taken | refused⟩
  · exact Bound.word_of_fits notFloat fits
  · exact ofBranch onTrue (by simp) taken
  · exact ofBranch onFalse (by simp) refused

/-- Every integer that an expression reads is a word. -/
theorem fits_of_reads {expr : Expr} (typed : expr.WellTyped) (integral : expr.Integral)
    (kinded : env.Kinded) (words : env.HoldsWords) (reads : Reads env expr number) : Fits number := by
  induction expr using childrenInduction generalizing env number with
  | step expr inductionHypothesis =>
    have operands := (integral_iff.mp integral).2
    have notFloat := (integral_iff.mp integral).1
    have ofChild : ∀ child ∈ expr.children, Reads env child number → Fits number :=
      fun child isChild reads =>
        inductionHypothesis child isChild (typed.child isChild) (operands child isChild) kinded words reads
    cases expr with
    | var dtype name =>
      obtain ⟨value, evaluated, member⟩ := reads
      exact words name value evaluated number member
    | intConst dtype value =>
      obtain ⟨_, evaluated, member⟩ := reads
      cases evaluated
      rw [Value.ints_int, List.mem_singleton] at member
      rw [WellTyped] at typed
      exact member ▸ Bound.word_of_fits notFloat typed.2.2.2
    | floatConst dtype value =>
      obtain ⟨_, evaluated, member⟩ := reads
      cases evaluated
      rw [Value.ints_float] at member
      exact absurd member List.not_mem_nil
    | boolConst dtype truth =>
      obtain ⟨_, evaluated, member⟩ := reads
      cases evaluated
      exact fits_of_zero_or_one (eq_zero_or_one_of_mem_ints member)
    | cast dtype value =>
      have isChild := List.mem_singleton_self value
      obtain ⟨operand, -, converted⟩ := reads_cast notFloat (fun _ evaluated =>
        (evaluate_kinded (typed.child isChild) kinded evaluated).discrete
          (integral_iff.mp (operands value isChild)).1) reads
      split at converted
      · exact fits_of_zero_or_one (by rw [converted]; split <;> simp)
      · exact Bound.word_of_fits notFloat converted.1
    | binary dtype op lhs rhs =>
      rcases reads_binary reads with ⟨-, truth⟩ | ⟨left, right, -, -, result⟩
      · exact fits_of_zero_or_one truth
      · exact (onLane_of_binaryInt? result).1
    | not dtype value => exact fits_of_zero_or_one (reads_not reads)
    | select dtype cond onTrue onFalse =>
      rcases reads_select reads with taken | refused
      · exact ofChild onTrue (by simp [children]) taken
      · exact ofChild onFalse (by simp [children]) refused
    | ramp dtype base stride lanes => exact (fits_of_reads_ramp reads).1
    | broadcast dtype value lanes =>
      exact ofChild value (List.mem_singleton_self value) (reads_broadcast reads)
    | shuffle dtype vectors indices =>
      obtain ⟨vector, isVector, readsVector⟩ := reads_shuffle reads
      exact ofChild vector isVector readsVector
    | letIn dtype name value body =>
      obtain ⟨bound, evaluated, readsBody⟩ := reads_letIn reads
      have isValue : value ∈ (letIn dtype name value body).children := by simp [children]
      have isBody : body ∈ (letIn dtype name value body).children := by simp [children]
      refine inductionHypothesis body isBody (typed.child isBody) (operands body isBody)
        (kinded.set (typed.kinded_bound kinded evaluated)) ?_ readsBody
      intro other result isResult inner member
      by_cases same : other = name
      · rw [same, Environment.set_self] at isResult
        cases isResult
        exact inductionHypothesis value isValue (typed.child isValue) (operands value isValue)
          kinded words ⟨bound, evaluated, member⟩
      · rw [Environment.set_of_ne _ _ same] at isResult
        exact words other result isResult inner member
    | call dtype op args => exact fits_of_reads_call notFloat ofChild reads

end Expr

/-! ### Classes of operands -/

namespace Congruence

/-- The operation is right about the words in the classes. -/
def Respects (op : BinaryOp) (left right : Congruence) : Prop :=
  ∀ first second result, Fits first → Fits second → Fits result → left.contains first = true →
    right.contains second = true → op.onLane first second = some result →
    (ofBinary op left right false).contains result = true

/-- The class of the left operand matters: the node does not divide, or its divisor is known. -/
def usesLeft (op : BinaryOp) (right : Congruence) : Bool :=
  match op with
  | .truncDiv | .floorDiv | .truncMod | .floorMod => right.divisor?.isSome
  | _ => true

theorem divisor?_eq_some {congruence : Congruence} {divisor : Int}
    (found : congruence.divisor? = some divisor) :
    congruence = constant divisor ∧ divisor ≠ 0 := by
  obtain ⟨modulus, base⟩ := congruence
  rw [divisor?, Option.ite_none_right_eq_some, Option.some.injEq, Bool.and_eq_true, isConstant,
    beq_iff_eq, bne_iff_ne] at found
  obtain ⟨⟨rfl, nonzero⟩, rfl⟩ := found
  exact ⟨rfl, nonzero⟩

section

variable {left right : Congruence} {first second result : Int}

/-- A class that is made from the known divisor contains the result of dividing by it. -/
theorem contains_divided {ofDivisor : Int → Congruence} (member : right.contains second = true)
    (sound : right.divisor?.isSome = true → second ≠ 0 →
      (ofDivisor second).contains result = true) :
    ((right.divisor?.map ofDivisor).getD everything).contains result = true := by
  cases found : right.divisor? with
  | none => exact contains_everything result
  | some divisor =>
    obtain ⟨rfl, nonzero⟩ := divisor?_eq_some found
    obtain rfl := contains_constant.mp member
    exact sound (by rw [found]; rfl) nonzero

/-- The class of a binary node contains what the operator gives. -/
theorem contains_ofBinary {op : BinaryOp} {nonNegative : Bool} (regularLeft : left.Regular)
    (regularRight : right.Regular) (isLeft : usesLeft op right = true → left.contains first = true)
    (isRight : right.contains second = true) (words : Fits first ∧ Fits second ∧ Fits result)
    (isNonNegative : op = .truncDiv → right.divisor?.isSome = true → nonNegative = true → 0 ≤ first)
    (respects : op ∈ [BinaryOp.add, .sub, .mul] → Respects op left right)
    (computed : op.onLane first second = some result) :
    (ofBinary op left right nonNegative).contains result = true := by
  have respected (linear : op ∈ [BinaryOp.add, .sub, .mul]) (uses : usesLeft op right = true) :
      (ofBinary op left right false).contains result = true :=
    respects linear first second result words.1 words.2.1 words.2.2 (isLeft uses) isRight computed
  cases op with
  | add | sub | mul => exact respected (by simp) rfl
  | truncDiv =>
    refine contains_divided isRight fun known nonzero => ?_
    rw [BinaryOp.onLane, if_neg nonzero, Option.some.injEq] at computed
    exact computed ▸ contains_divConst_trunc nonzero (isNonNegative rfl known) (isLeft known)
  | floorDiv =>
    refine contains_divided isRight fun known nonzero => ?_
    rw [BinaryOp.onLane, if_neg nonzero, Option.some.injEq] at computed
    exact computed ▸ contains_divConst_floor nonzero false (isLeft known)
  | truncMod =>
    refine contains_divided isRight fun known nonzero => ?_
    rw [BinaryOp.onLane, if_neg nonzero, Option.some.injEq] at computed
    exact computed ▸ contains_modConst_trunc regularLeft (isLeft known)
  | floorMod =>
    refine contains_divided isRight fun known nonzero => ?_
    rw [BinaryOp.onLane, if_neg nonzero, Option.some.injEq] at computed
    exact computed ▸ contains_modConst_floor regularLeft (isLeft known)
  | min | max =>
    refine contains_union regularLeft regularRight ?_
    rw [BinaryOp.onLane, Option.some.injEq] at computed
    have isOperand : result = first ∨ result = second := by omega
    rcases isOperand with rfl | rfl
    · exact .inl (isLeft rfl)
    · exact .inr isRight
  | eq | ne | lt | le | gt | ge | and | or => exact contains_everything result

theorem regular_getD {congruence? : Option Congruence}
    (regular : ∀ congruence, congruence? = some congruence → congruence.Regular) :
    (congruence?.getD everything).Regular := by
  cases congruence? with
  | none => exact regular_everything
  | some congruence => exact regular congruence rfl

theorem regular_ofBinary (op : BinaryOp) (isLeft : left.Regular) (nonNegative : Bool) :
    (ofBinary op left right nonNegative).Regular := by
  cases op with
  | add => exact regular_add left right
  | sub => exact regular_sub left right
  | mul => exact regular_mul left right
  | truncDiv | floorDiv =>
    refine regular_getD fun congruence found => ?_
    obtain ⟨divisor, -, rfl⟩ := Option.map_eq_some_iff.mp found
    exact regular_divConst isLeft divisor _ _
  | truncMod | floorMod =>
    refine regular_getD fun congruence found => ?_
    obtain ⟨divisor, -, rfl⟩ := Option.map_eq_some_iff.mp found
    exact regular_modConst left divisor _
  | min | max => exact regular_union left right
  | eq | ne | lt | le | gt | ge | and | or => exact regular_everything

theorem regular_shiftLeft (congruence : Congruence) (amount? : Option Int) :
    (congruence.shiftLeft amount?).Regular := by
  unfold shiftLeft
  split
  · split
    · exact regular_mul _ _
    · exact regular_everything
  · exact regular_everything

theorem regular_ofCall (op : CallOp) (args : List (Expr × Congruence)) :
    (ofCall op args).Regular := by
  unfold ofCall
  split
  · exact regular_shiftLeft _ _
  · exact regular_union _ _
  · exact regular_everything

end

end Congruence

namespace Knowledge

/-! ### What the analysis consults -/

/-- The operands of an integer node that are evaluated with it and whose classes its class is made
from. -/
def consulted (known : Knowledge) (locals : Table Congruence) : Expr → List Expr
  | .binary _ op lhs rhs =>
    if Congruence.usesLeft op (known.congruenceWithin locals rhs) then [lhs, rhs] else [rhs]
  | .select _ _ onTrue onFalse => [onTrue, onFalse]
  | .cast dtype value =>
    if value.dtype.isInteger && (known.inferBound value).fits dtype then [value] else []
  | .broadcast _ value _ => [value]
  | .ramp _ base stride _ => [base, stride]
  | .call _ .shiftLeft [value, amount] =>
    if amount.asInt?.any fun amount => decide (0 ≤ amount ∧ amount ≤ 62) then [value] else []
  | _ => []

/-- The class of an expression, in an environment and inside bindings whose variables have the
classes in the table, is made from that of a part, in the environment and inside the bindings of the
part. A choice is only made from the branch that is taken. -/
inductive Consults (known : Knowledge) :
    Environment → Table Congruence → Expr → Environment → Table Congruence → Expr → Prop
  | self {env : Environment} {locals : Table Congruence} {expr : Expr} :
    expr.dtype.isInteger = true → Consults known env locals expr env locals expr
  | operand {env env' : Environment} {locals locals' : Table Congruence} {expr operand part : Expr} :
    expr.dtype.isInteger = true → operand ∈ known.consulted locals expr →
      Consults known env locals operand env' locals' part →
      Consults known env locals expr env' locals' part
  | letValue {env env' : Environment} {locals locals' : Table Congruence} {dtype : DataType}
      {name : Variable} {value body part : Expr} :
    dtype.isInteger = true → Consults known env locals value env' locals' part →
      Consults known env locals (.letIn dtype name value body) env' locals' part
  | letBody {env env' : Environment} {locals locals' : Table Congruence} {dtype : DataType}
      {name : Variable} {value body part : Expr} {bound : Value} :
    dtype.isInteger = true → value.eval env = some bound →
      Consults known (env.set name bound) (locals.insert name (known.congruenceWithin locals value))
        body env' locals' part →
      Consults known env locals (.letIn dtype name value body) env' locals' part
  | taken {env env' : Environment} {locals locals' : Table Congruence} {dtype : DataType}
      {cond onTrue onFalse part : Expr} :
    dtype.isInteger = true → cond.eval env = some (.bool true) →
      Consults known env locals onTrue env' locals' part →
      Consults known env locals (.call dtype .ifThenElse [cond, onTrue, onFalse]) env' locals' part
  | refused {env env' : Environment} {locals locals' : Table Congruence} {dtype : DataType}
      {cond onTrue onFalse part : Expr} :
    dtype.isInteger = true → cond.eval env = some (.bool false) →
      Consults known env locals onFalse env' locals' part →
      Consults known env locals (.call dtype .ifThenElse [cond, onTrue, onFalse]) env' locals' part

/-- The sums, differences and products of classes that the class of a node is made with. -/
def operations (known : Knowledge) (locals : Table Congruence) :
    Expr → List (BinaryOp × Congruence × Congruence)
  | .binary _ op lhs rhs =>
    if op ∈ [BinaryOp.add, .sub, .mul] then
      [(op, known.congruenceWithin locals lhs, known.congruenceWithin locals rhs)]
    else []
  | .ramp _ _ stride _ => [(.mul, known.congruenceWithin locals stride, .everything)]
  | .call _ .shiftLeft [value, amount] =>
    amount.asInt?.toList.map fun amount =>
      (.mul, known.congruenceWithin locals value, .constant (twoPow amount.toNat))
  | _ => []

/-- The operands of a node whose bounds decide about the class of the node. -/
def bounded (known : Knowledge) (locals : Table Congruence) : Expr → List Expr
  | .binary _ .truncDiv lhs rhs =>
    if (known.congruenceWithin locals rhs).divisor?.isSome then [lhs] else []
  | .cast _ value => if value.dtype.isInteger then [value] else []
  | _ => []

/-- What the class of a node is made with is right: the operations on classes, and the bounds of
operands. -/
structure SoundAt (known : Knowledge) (env : Environment) (locals : Table Congruence)
    (expr : Expr) : Prop where
  operations : ∀ op left right, (op, left, right) ∈ known.operations locals expr →
    Congruence.Respects op left right
  bounds : ∀ operand ∈ known.bounded locals expr, ∀ number, operand.Reads env number →
    (known.inferBound operand).contains number = true

/-! ### Classes that hold -/

/-- Every class that is known is regular. -/
structure ClassesRegular (known : Knowledge) : Prop where
  entries : ∀ name congruence, known.congruences.find? name = some congruence → congruence.Regular
  facts : ∀ target congruence, .congruence target congruence ∈ known.facts → congruence.Regular

/-- Every class that is known contains the values that the variables have. -/
structure ClassesHold (known : Knowledge) (env : Environment) : Prop where
  entries : ∀ name congruence, known.congruences.find? name = some congruence →
    ∀ value, env name = some value → ∀ number ∈ value.ints, congruence.contains number = true
  facts : ∀ target congruence, .congruence target congruence ∈ known.facts →
    ∀ number, Expr.Reads env target number → congruence.contains number = true

/-- The name of a variable that has a class is a known name. -/
theorem name_mem_names_of_congruences {known : Knowledge} {name : Variable}
    {congruence : Congruence} (found : known.congruences.find? name = some congruence) :
    name.name ∈ known.names := by
  have isKey : name ∈ known.congruences.keys := List.mem_map_of_mem (mem_of_find? found)
  exact List.mem_map_of_mem (by simp [isKey])

/-- A variable with a name that nothing is known about may have any value. -/
theorem ClassesHold.set {known : Knowledge} {env : Environment} (holds : known.ClassesHold env)
    {name : Variable} (apart : name.name ∉ known.names) (value : Value) :
    known.ClassesHold (env.set name value) := by
  refine ⟨?_, ?_⟩
  · intro other congruence found result isValue number member
    have different : other ≠ name := by
      rintro rfl
      exact apart (name_mem_names_of_congruences found)
    rw [env.set_of_ne value different] at isValue
    exact holds.entries other congruence found result isValue number member
  · rintro target congruence isFact number ⟨result, evaluated, member⟩
    have sameValue : target.eval (env.set name value) = target.eval env := by
      refine Expr.evaluate_congr fun other free => env.set_of_ne value ?_
      rintro rfl
      exact apart (name_mem_names_of_target (.inr (List.mem_map_of_mem isFact)) free)
    rw [sameValue] at evaluated
    exact holds.facts target congruence isFact number ⟨result, evaluated, member⟩

/-- A piece of what is known about the class of an expression is an entry or a fact. -/
theorem mem_classes {known : Knowledge} {expr : Expr} {congruence : Congruence}
    (member : congruence ∈ entries known.congruences expr ++
      known.facts.filterMap fun
        | .congruence target congruence => if target = expr then some congruence else none
        | _ => none) :
    (∃ name, expr.asVariable? = some name ∧ known.congruences.find? name = some congruence) ∨
      .congruence expr congruence ∈ known.facts := by
  simp only [List.mem_append, List.mem_filterMap] at member
  rcases member with isEntry | ⟨fact, isFact, equal⟩
  · rw [entries, Option.mem_toList] at isEntry
    exact .inl (Option.bind_eq_some_iff.mp isEntry)
  · cases fact with
    | congruence target other =>
      rw [Option.ite_none_right_eq_some, Option.some.injEq] at equal
      obtain ⟨rfl, rfl⟩ := equal
      exact .inr isFact
    | bound | truth => contradiction

theorem ClassesRegular.congruenceOf? {known : Knowledge} (regular : known.ClassesRegular)
    {expr : Expr} {congruence : Congruence} (found : known.congruenceOf? expr = some congruence) :
    congruence.Regular := by
  refine of_meet? (motive := Congruence.Regular)
    (fun _ _ isFirst isSecond => Congruence.regular_intersect isFirst isSecond) found
    fun congruence member => ?_
  rcases mem_classes member with ⟨name, -, isEntry⟩ | isFact
  · exact regular.entries name congruence isEntry
  · exact regular.facts expr congruence isFact

/-- What is known about the class of an expression contains what the expression reads. -/
theorem ClassesHold.contains {known : Knowledge} {env : Environment}
    (holds : known.ClassesHold env) {expr : Expr} {number : Int} (reads : expr.Reads env number)
    {congruence : Congruence} (found : known.congruenceOf? expr = some congruence) :
    congruence.contains number = true := by
  refine of_meet? (motive := fun congruence : Congruence => congruence.contains number = true)
    (fun _ _ isFirst isSecond => Congruence.contains_intersect isFirst isSecond) found
    fun congruence member => ?_
  rcases mem_classes member with ⟨name, isName, isEntry⟩ | isFact
  · obtain ⟨value, evaluated, inValue⟩ := reads
    cases expr <;> simp only [Expr.asVariable?, reduceCtorEq, Option.some.injEq] at isName
    subst isName
    exact holds.entries _ congruence isEntry value evaluated number inValue
  · exact holds.facts expr congruence isFact number reads

theorem regular_narrowCongruence {known : Knowledge} (regular : known.ClassesRegular) (expr : Expr)
    {congruence : Congruence} (isRegular : congruence.Regular) :
    (known.narrowCongruence expr congruence).Regular := by
  unfold narrowCongruence
  split
  · split
    next found => exact Congruence.regular_intersect isRegular (regular.congruenceOf? found)
    next => exact isRegular
  · exact Congruence.regular_everything

theorem ClassesHold.contains_narrowCongruence {known : Knowledge} {env : Environment}
    (holds : known.ClassesHold env) {expr : Expr} {number : Int} (reads : expr.Reads env number)
    {congruence : Congruence} (member : congruence.contains number = true) :
    (known.narrowCongruence expr congruence).contains number = true := by
  unfold narrowCongruence
  split
  · split
    next found => exact Congruence.contains_intersect member (holds.contains reads found)
    next => exact member
  · exact Congruence.contains_everything number

theorem congruencesWithin_eq_map (known : Knowledge) (locals : Table Congruence)
    (exprs : List Expr) :
    known.congruencesWithin locals exprs = exprs.map (known.congruenceWithin locals) := by
  induction exprs with
  | nil => rfl
  | cons expr rest inductionHypothesis =>
    rw [congruencesWithin, List.map_cons, inductionHypothesis]

section

attribute [local simp] congruenceWithin

/-- A node that is no integer belongs to every class. -/
theorem congruenceWithin_of_not_integer {known : Knowledge} {locals : Table Congruence}
    {expr : Expr} (notInteger : ¬expr.dtype.isInteger = true) :
    known.congruenceWithin locals expr = .everything := by
  cases expr with
  | var dtype name =>
    rw [congruenceWithin]
    split
    next => exact if_neg notInteger
    next => exact if_neg notInteger
  | _ =>
    rw [congruenceWithin]
    exact if_neg notInteger

/-- The inferred class is regular if those in the table are. -/
theorem regular_congruenceWithin {known : Knowledge} (regular : known.ClassesRegular)
    {locals : Table Congruence} {expr : Expr}
    (isRegular : ∀ name congruence, locals.find? name = some congruence → congruence.Regular) :
    (known.congruenceWithin locals expr).Regular := by
  induction expr using Expr.childrenInduction generalizing locals with
  | step expr inductionHypothesis =>
    have ofChild : ∀ child ∈ expr.children, (known.congruenceWithin locals child).Regular :=
      fun child isChild => inductionHypothesis child isChild isRegular
    cases expr with
    | var dtype name =>
      rw [congruenceWithin]
      split
      next found =>
        split
        · exact isRegular name _ found
        · exact Congruence.regular_everything
      next => exact regular_narrowCongruence regular _ Congruence.regular_everything
    | intConst dtype value =>
      rw [congruenceWithin]
      exact regular_narrowCongruence regular _ (Congruence.regular_constant value)
    | binary dtype op lhs rhs =>
      rw [congruenceWithin]
      exact regular_narrowCongruence regular _
        (Congruence.regular_ofBinary op (ofChild lhs (by simp [Expr.children])) _)
    | select dtype cond onTrue onFalse =>
      rw [congruenceWithin]
      exact regular_narrowCongruence regular _ (Congruence.regular_union _ _)
    | cast dtype value =>
      rw [congruenceWithin]
      refine regular_narrowCongruence regular _ ?_
      split
      · exact ofChild value (List.mem_singleton_self value)
      · exact Congruence.regular_everything
    | broadcast dtype value lanes =>
      rw [congruenceWithin]
      exact regular_narrowCongruence regular _ (ofChild value (List.mem_singleton_self value))
    | ramp dtype base stride lanes =>
      rw [congruenceWithin]
      exact regular_narrowCongruence regular _ (Congruence.regular_add _ _)
    | letIn dtype name value body =>
      rw [congruenceWithin]
      refine regular_narrowCongruence regular _
        (inductionHypothesis body (by simp [Expr.children]) fun other congruence found => ?_)
      rw [Table.find?_insert] at found
      split at found
      · cases found
        exact ofChild value (by simp [Expr.children])
      · exact isRegular other congruence found
    | call dtype op args =>
      rw [congruenceWithin]
      exact regular_narrowCongruence regular _ (Congruence.regular_ofCall op _)
    | floatConst | boolConst | not | shuffle =>
      rw [congruenceWithin]
      exact regular_narrowCongruence regular _ Congruence.regular_everything

end

/-! ### Soundness -/

/-- The values of the variables are words in the classes of the bindings around an expression, and
every class that is known is regular and holds of them. -/
structure Classifies (known : Knowledge) (env : Environment) (locals : Table Congruence) : Prop where
  kinded : env.Kinded
  words : env.HoldsWords
  regular : ∀ name congruence, locals.find? name = some congruence → congruence.Regular
  member : ∀ name congruence, locals.find? name = some congruence →
    ∀ value, env name = some value → ∀ number ∈ value.ints, congruence.contains number = true
  knownRegular : known.ClassesRegular
  holds : known.ClassesHold env

/-- The expression is typed without floating-point nodes, its bound variables are apart from what
is known, and everything that its class is made with is right. -/
structure Examines (known : Knowledge) (env : Environment) (locals : Table Congruence)
    (expr : Expr) : Prop where
  typed : expr.WellTyped
  integral : expr.Integral
  apart : ∀ bound ∈ expr.binders, bound.name ∉ known.names
  sound : ∀ env' locals' part, known.Consults env locals expr env' locals' part →
    known.SoundAt env' locals' part

section

variable {known : Knowledge} {env : Environment} {locals : Table Congruence} {expr operand : Expr}
  {number : Int}

/-- What is asked of an expression passes to an operand whose parts are its parts. -/
theorem Examines.of_child {env' : Environment} {locals' : Table Congruence}
    (examines : known.Examines env locals expr) (isChild : operand ∈ expr.children)
    (consults : ∀ inner table part, known.Consults env' locals' operand inner table part →
      known.Consults env locals expr inner table part) : known.Examines env' locals' operand := by
  refine ⟨examines.typed.child isChild,
    (Expr.integral_iff.mp examines.integral).2 operand isChild, ?_, ?_⟩
  · intro bound member
    obtain ⟨node, isNode, isBinder⟩ := List.mem_filterMap.mp member
    exact examines.apart bound (List.mem_filterMap.mpr
      ⟨node, Expr.mem_postOrder.mpr (.inr ⟨operand, isChild, isNode⟩), isBinder⟩)
  · exact fun inner table part consulted =>
      examines.sound inner table part (consults inner table part consulted)

theorem Examines.ofConsulted (examines : known.Examines env locals expr)
    (isInteger : expr.dtype.isInteger = true) (isChild : operand ∈ expr.children)
    (isConsulted : operand ∈ known.consulted locals expr) : known.Examines env locals operand :=
  examines.of_child isChild fun _ _ _ consults => .operand isInteger isConsulted consults

theorem Examines.soundAt (examines : known.Examines env locals expr)
    (isInteger : expr.dtype.isInteger = true) : known.SoundAt env locals expr :=
  examines.sound _ _ _ (.self isInteger)

theorem Classifies.regular_congruenceWithin (classifies : known.Classifies env locals)
    (expr : Expr) : (known.congruenceWithin locals expr).Regular :=
  Knowledge.regular_congruenceWithin classifies.knownRegular classifies.regular

theorem Classifies.fits (classifies : known.Classifies env locals) (typed : operand.WellTyped)
    (integral : operand.Integral) (reads : operand.Reads env number) : Fits number :=
  Expr.fits_of_reads typed integral classifies.kinded classifies.words reads

theorem Classifies.set (classifies : known.Classifies env locals) {name : Variable} {value : Value}
    {congruence : Congruence} (apart : name.name ∉ known.names) (kinded : value.Kinded name.dtype)
    (words : ∀ number ∈ value.ints, Fits number) (regular : congruence.Regular)
    (contains : ∀ number ∈ value.ints, congruence.contains number = true) :
    known.Classifies (env.set name value) (locals.insert name congruence) := by
  refine ⟨classifies.kinded.set kinded, ?_, ?_, ?_, classifies.knownRegular,
    classifies.holds.set apart value⟩
  · intro other result isValue number member
    by_cases same : other = name
    · rw [same, Environment.set_self] at isValue
      exact words number (Option.some.inj isValue ▸ member)
    · rw [Environment.set_of_ne _ _ same] at isValue
      exact classifies.words other result isValue number member
  · intro other found isEntry
    rw [Table.find?_insert] at isEntry
    split at isEntry
    · exact Option.some.inj isEntry ▸ regular
    · exact classifies.regular other found isEntry
  · intro other found isEntry result isValue number member
    rw [Table.find?_insert] at isEntry
    by_cases same : other = name
    · rw [same, Environment.set_self] at isValue
      rw [if_pos same] at isEntry
      exact Option.some.inj isEntry ▸ contains number (Option.some.inj isValue ▸ member)
    · rw [Environment.set_of_ne _ _ same] at isValue
      rw [if_neg same] at isEntry
      exact classifies.member other found isEntry result isValue number member

end

/-- The class that is inferred for an integer expression inside bindings contains every integer
that the expression reads. -/
def ClassSound (known : Knowledge) (expr : Expr) : Prop :=
  ∀ {env : Environment} {locals : Table Congruence} {number : Int}, known.Classifies env locals →
    known.Examines env locals expr → expr.Reads env number →
    (known.congruenceWithin locals expr).contains number = true

section

attribute [local simp] congruenceWithin

variable {known : Knowledge} {dtype : DataType}

/-- Only integer nodes have a class to be proved right. -/
theorem ClassSound.of_integer {expr : Expr}
    (sound : ∀ {env : Environment} {locals : Table Congruence} {number : Int},
      expr.dtype.isInteger = true → known.Classifies env locals →
      known.Examines env locals expr → expr.Reads env number →
      (known.congruenceWithin locals expr).contains number = true) : known.ClassSound expr := by
  intro env locals number classifies examines reads
  by_cases isInteger : expr.dtype.isInteger = true
  · exact sound isInteger classifies examines reads
  · rw [congruenceWithin_of_not_integer isInteger]
    exact Congruence.contains_everything number

theorem classSound_var (name : Variable) : known.ClassSound (.var dtype name) := by
  apply ClassSound.of_integer
  intro env locals number isInteger classifies examines reads
  rw [congruenceWithin]
  split
  next found =>
    rw [if_pos (show dtype.isInteger = true from isInteger)]
    obtain ⟨value, evaluated, member⟩ := reads
    exact classifies.member name _ found value evaluated _ member
  next => exact classifies.holds.contains_narrowCongruence reads (Congruence.contains_everything _)

theorem classSound_intConst (value : Int) : known.ClassSound (.intConst dtype value) := by
  apply ClassSound.of_integer
  intro env locals number isInteger classifies examines reads
  rw [congruenceWithin]
  refine classifies.holds.contains_narrowCongruence reads (Congruence.contains_constant.mpr ?_)
  obtain ⟨_, evaluated, member⟩ := reads
  cases evaluated
  rwa [Value.ints_int, List.mem_singleton] at member

theorem classSound_binary {op : BinaryOp} {lhs rhs : Expr} (soundLeft : known.ClassSound lhs)
    (soundRight : known.ClassSound rhs) : known.ClassSound (.binary dtype op lhs rhs) := by
  apply ClassSound.of_integer
  intro env locals number isInteger classifies examines reads
  rw [congruenceWithin]
  refine classifies.holds.contains_narrowCongruence reads ?_
  rcases Expr.reads_binary reads with ⟨notArithmetic, -⟩ | ⟨left, right, isLeft, isRight, result⟩
  · cases op <;> first | exact Congruence.contains_everything _ | exact absurd rfl notArithmetic
  have typed := examines.typed
  have operands := (Expr.integral_iff.mp examines.integral).2
  have isLhs : lhs ∈ (Expr.binary dtype op lhs rhs).children := by simp [Expr.children]
  have isRhs : rhs ∈ (Expr.binary dtype op lhs rhs).children := by simp [Expr.children]
  have soundAt := examines.soundAt isInteger
  obtain ⟨word, -, computed⟩ := onLane_of_binaryInt? result
  have leftWord := classifies.fits (typed.child isLhs) (operands lhs isLhs) isLeft
  have rightWord := classifies.fits (typed.child isRhs) (operands rhs isRhs) isRight
  refine Congruence.contains_ofBinary (classifies.regular_congruenceWithin lhs)
    (classifies.regular_congruenceWithin rhs) ?_ ?_ ⟨leftWord, rightWord, word⟩ ?_ ?_ computed
  · intro uses
    refine soundLeft classifies (examines.ofConsulted isInteger isLhs ?_) isLeft
    rw [consulted, if_pos uses]
    exact List.mem_cons_self
  · refine soundRight classifies (examines.ofConsulted isInteger isRhs ?_) isRight
    rw [consulted]
    split <;> simp
  · rintro rfl known nonNegative
    rw [beq_self_eq_true, Bool.true_and] at nonNegative
    have member := soundAt.bounds lhs (by rw [bounded, if_pos known]; simp) left isLeft
    exact Bound.nonneg_of_isNonNegative nonNegative member
  · intro linear
    refine soundAt.operations op _ _ ?_
    rw [operations, if_pos linear]
    exact List.mem_singleton_self _

theorem classSound_select {cond onTrue onFalse : Expr} (soundTrue : known.ClassSound onTrue)
    (soundFalse : known.ClassSound onFalse) :
    known.ClassSound (.select dtype cond onTrue onFalse) := by
  apply ClassSound.of_integer
  intro env locals number isInteger classifies examines reads
  rw [congruenceWithin]
  refine classifies.holds.contains_narrowCongruence reads
    (Congruence.contains_union (classifies.regular_congruenceWithin onTrue)
      (classifies.regular_congruenceWithin onFalse) ?_)
  rcases Expr.reads_select reads with taken | refused
  · exact .inl (soundTrue classifies
      (examines.ofConsulted isInteger (by simp [Expr.children]) (by simp [consulted])) taken)
  · exact .inr (soundFalse classifies
      (examines.ofConsulted isInteger (by simp [Expr.children]) (by simp [consulted])) refused)

theorem classSound_cast {value : Expr} (sound : known.ClassSound value) :
    known.ClassSound (.cast dtype value) := by
  apply ClassSound.of_integer
  intro env locals number isInteger classifies examines reads
  rw [congruenceWithin]
  refine classifies.holds.contains_narrowCongruence reads ?_
  split
  next keeps =>
    change dtype.isInteger = true at isInteger
    have isChild := List.mem_singleton_self value
    have operands := (Expr.integral_iff.mp examines.integral).2
    have typed := examines.typed
    obtain ⟨operand, readsOperand, converted⟩ := Expr.reads_cast
      (DataType.isFloat_of_isInteger isInteger) (fun _ evaluated =>
        (Expr.evaluate_kinded (typed.child isChild) classifies.kinded evaluated).discrete
          (Expr.integral_iff.mp (operands value isChild)).1) reads
    have same : number = operand := by
      have notBool : ¬dtype.isBool = true := fun isBool => by
        rw [DataType.isInteger_of_isBool isBool] at isInteger
        contradiction
      rw [if_neg notBool] at converted
      rw [converted.2]
      split
      next => rfl
      next narrow =>
        have inside := (examines.soundAt isInteger).bounds value
          (by rw [bounded, if_pos (Bool.and_eq_true_iff.mp keeps).1]; simp) operand readsOperand
        have word := classifies.fits (typed.child isChild) (operands value isChild) readsOperand
        rw [Expr.WellTyped] at typed
        exact Bound.wrap_of_fits isInteger typed.2.1.1 narrow
          (Bound.fits_of_contains_narrow isInteger narrow word
            (Bound.contains_of_fits (Bool.and_eq_true_iff.mp keeps).2 inside))
    rw [same]
    refine sound classifies (examines.ofConsulted isInteger isChild ?_) readsOperand
    rw [consulted, if_pos keeps]
    exact isChild
  next => exact Congruence.contains_everything number

theorem classSound_broadcast {value : Expr} {lanes : Nat} (sound : known.ClassSound value) :
    known.ClassSound (.broadcast dtype value lanes) := by
  apply ClassSound.of_integer
  intro env locals number isInteger classifies examines reads
  rw [congruenceWithin]
  have isChild := List.mem_singleton_self value
  exact classifies.holds.contains_narrowCongruence reads
    (sound classifies (examines.ofConsulted isInteger isChild (by simp [consulted]))
      (Expr.reads_broadcast reads))

theorem classSound_ramp {base stride : Expr} {lanes : Nat} (soundBase : known.ClassSound base)
    (soundStride : known.ClassSound stride) :
    known.ClassSound (.ramp dtype base stride lanes) := by
  apply ClassSound.of_integer
  intro env locals number isInteger classifies examines reads
  rw [congruenceWithin]
  refine classifies.holds.contains_narrowCongruence reads ?_
  have operands := (Expr.integral_iff.mp examines.integral).2
  have isBase : base ∈ (Expr.ramp dtype base stride lanes).children := by simp [Expr.children]
  have isStride : stride ∈ (Expr.ramp dtype base stride lanes).children := by simp [Expr.children]
  obtain ⟨first, step, readsBase, readsStride, index, -, rfl⟩ := Expr.reads_ramp reads
  have inBase := soundBase classifies
    (examines.ofConsulted isInteger isBase (by simp [consulted])) readsBase
  have inStride := soundStride classifies
    (examines.ofConsulted isInteger isStride (by simp [consulted])) readsStride
  have word := classifies.fits (examines.typed.child isStride) (operands stride isStride) readsStride
  -- The stride itself is a multiple of the stride, and so in the class of all multiples.
  have once : ((known.congruenceWithin locals stride).mul .everything).contains step = true := by
    refine (examines.soundAt isInteger).operations .mul _ _ (by rw [operations]; simp) step 1 step
      word (by decide) word inStride (Congruence.contains_everything 1) ?_
    rw [BinaryOp.onLane, Int.mul_one]
  have divides := Congruence.contains_iff.mp once
  rw [Congruence.base_mul_everything, Int.sub_zero] at divides
  exact Congruence.contains_add_multiple (classifies.regular_congruenceWithin base)
    (Congruence.regular_mul _ _) (Congruence.base_mul_everything _) inBase
    (Dvd.dvd.mul_left divides _)

theorem classSound_letIn {name : Variable} {value body : Expr} (soundValue : known.ClassSound value)
    (soundBody : known.ClassSound body) : known.ClassSound (.letIn dtype name value body) := by
  apply ClassSound.of_integer
  intro env locals number isInteger classifies examines reads
  rw [congruenceWithin]
  refine classifies.holds.contains_narrowCongruence reads ?_
  obtain ⟨bound, evaluated, readsBody⟩ := Expr.reads_letIn reads
  have isValue : value ∈ (Expr.letIn dtype name value body).children := by simp [Expr.children]
  have examinesValue : known.Examines env locals value :=
    examines.of_child isValue fun _ _ _ consults => .letValue isInteger consults
  have examinesBody : known.Examines (env.set name bound)
      (locals.insert name (known.congruenceWithin locals value)) body :=
    examines.of_child (by simp [Expr.children])
      fun _ _ _ consults => .letBody isInteger evaluated consults
  refine soundBody (classifies.set ?_ ?_ ?_ (classifies.regular_congruenceWithin value) ?_)
    examinesBody readsBody
  · exact examines.apart name (by simp [Expr.binders, Expr.postOrder, Expr.binder?])
  · exact examines.typed.kinded_bound classifies.kinded evaluated
  · exact fun number member =>
      classifies.fits examinesValue.typed examinesValue.integral ⟨bound, evaluated, member⟩
  · exact fun number member => soundValue classifies examinesValue ⟨bound, evaluated, member⟩

theorem classSound_ifThenElse {cond onTrue onFalse : Expr} (soundTrue : known.ClassSound onTrue)
    (soundFalse : known.ClassSound onFalse) :
    known.ClassSound (.call dtype .ifThenElse [cond, onTrue, onFalse]) := by
  apply ClassSound.of_integer
  intro env locals number isInteger classifies examines reads
  rw [congruenceWithin, congruencesWithin_eq_map]
  refine classifies.holds.contains_narrowCongruence reads
    (Congruence.contains_union (classifies.regular_congruenceWithin onTrue)
      (classifies.regular_congruenceWithin onFalse) ?_)
  rcases Expr.reads_ifThenElse reads with ⟨holds, taken⟩ | ⟨fails, refused⟩
  · exact .inl (soundTrue classifies (examines.of_child (by simp [Expr.children])
      fun _ _ _ consults => .taken isInteger holds consults) taken)
  · exact .inr (soundFalse classifies (examines.of_child (by simp [Expr.children])
      fun _ _ _ consults => .refused isInteger fails consults) refused)

/-- An integer constant reads its value. -/
theorem eq_of_reads_asInt? {env : Environment} {expr : Expr} {value number : Int}
    (isConst : expr.asInt? = some value) (reads : expr.Reads env number) : number = value := by
  obtain ⟨_, evaluated, member⟩ := reads
  cases expr <;> cases isConst
  cases evaluated
  rwa [Value.ints_int, List.mem_singleton] at member

theorem classSound_shiftLeft {value amount : Expr} (sound : known.ClassSound value) :
    known.ClassSound (.call dtype .shiftLeft [value, amount]) := by
  apply ClassSound.of_integer
  intro env locals number isInteger classifies examines reads
  rw [congruenceWithin, congruencesWithin_eq_map]
  refine classifies.holds.contains_narrowCongruence reads ?_
  show ((known.congruenceWithin locals value).shiftLeft amount.asInt?).contains number = true
  unfold Congruence.shiftLeft
  split
  next shift isShift =>
    split
    next small =>
      have isValue : value ∈ (Expr.call dtype .shiftLeft [value, amount]).children := by
        simp [Expr.children]
      have operands := (Expr.integral_iff.mp examines.integral).2
      obtain ⟨fits, left, right, readsValue, readsAmount, result⟩ := Expr.reads_bitwise reads
      obtain rfl := eq_of_reads_asInt? isShift readsAmount
      have inValue := sound classifies (examines.ofConsulted isInteger isValue (by
        rw [consulted, isShift, Option.any_some, if_pos (decide_eq_true small)]
        exact List.mem_singleton_self value)) readsValue
      have word := classifies.fits (examines.typed.child isValue) (operands value isValue) readsValue
      have product : number = left * twoPow right.toNat := by
        simp only [Scalar.bitwise?, Option.ite_none_right_eq_some, Option.some.injEq] at result
        rw [← result.2, Bound.bmod_shiftLeft word (by omega)]
      refine (examines.soundAt isInteger).operations .mul _ _ ?_ left (twoPow right.toNat) number
        word (Bound.inside_twoPow (by omega)).fits
        (Bound.word_of_fits (DataType.isFloat_of_isInteger isInteger) fits) inValue
        (Congruence.contains_constant.mpr rfl) ?_
      · rw [operations, isShift]
        exact List.mem_singleton_self _
      · rw [BinaryOp.onLane, product]
    next => exact Congruence.contains_everything number
  next => exact Congruence.contains_everything number

theorem classSound_call {op : CallOp} {args : List Expr}
    (sound : ∀ arg ∈ args, known.ClassSound arg) : known.ClassSound (.call dtype op args) := by
  intro env locals number classifies examines reads
  obtain ⟨result, evaluated, member⟩ := reads
  have reads : (Expr.call dtype op args).Reads env number := ⟨result, evaluated, member⟩
  have ofEverything
      (noClass : Congruence.ofCall op (args.zip (known.congruencesWithin locals args)) = .everything) :
      (known.congruenceWithin locals (.call dtype op args)).contains number = true := by
    rw [congruenceWithin, noClass]
    exact classifies.holds.contains_narrowCongruence reads (Congruence.contains_everything number)
  rcases Expr.call_cases evaluated with
    ⟨rfl, cond, onTrue, onFalse, rfl⟩ | ⟨rfl, value, rfl⟩ | ⟨lhs, rhs, rfl⟩
  · exact classSound_ifThenElse (sound onTrue (by simp)) (sound onFalse (by simp)) classifies
      examines reads
  · exact ofEverything rfl
  · cases op with
    | shiftLeft => exact classSound_shiftLeft (sound lhs (by simp)) classifies examines reads
    | _ => exact ofEverything rfl

/-- A node without a rule of its own has the class of everything, narrowed by what is known. -/
theorem classSound_of_eq {expr : Expr}
    (equal : ∀ locals, known.congruenceWithin locals expr =
      known.narrowCongruence expr .everything) : known.ClassSound expr := by
  intro env locals number classifies examines reads
  rw [equal]
  exact classifies.holds.contains_narrowCongruence reads (Congruence.contains_everything number)

/-- Every integer that an expression reads is in the class that is inferred inside bindings. -/
theorem classSound (known : Knowledge) (expr : Expr) : known.ClassSound expr := by
  induction expr using Expr.childrenInduction with
  | step expr sound =>
    cases expr with
    | var dtype name => exact classSound_var name
    | intConst dtype value => exact classSound_intConst value
    | cast dtype value => exact classSound_cast (sound value List.mem_cons_self)
    | binary dtype op lhs rhs =>
      exact classSound_binary (sound lhs (by simp [Expr.children]))
        (sound rhs (by simp [Expr.children]))
    | select dtype cond onTrue onFalse =>
      exact classSound_select (sound onTrue (by simp [Expr.children]))
        (sound onFalse (by simp [Expr.children]))
    | ramp dtype base stride lanes =>
      exact classSound_ramp (sound base (by simp [Expr.children]))
        (sound stride (by simp [Expr.children]))
    | broadcast dtype value lanes => exact classSound_broadcast (sound value List.mem_cons_self)
    | letIn dtype name value body =>
      exact classSound_letIn (sound value (by simp [Expr.children]))
        (sound body (by simp [Expr.children]))
    | call dtype op args => exact classSound_call sound
    | floatConst | boolConst | not | shuffle =>
      exact classSound_of_eq fun locals => by rw [congruenceWithin]

end

/-- A typed environment classifies an expression outside every binding. -/
theorem classifies_nil {known : Knowledge} {env : Environment} (typed : env.Typed)
    (regular : known.ClassesRegular) (holds : known.ClassesHold env) : known.Classifies env [] := by
  refine ⟨typed.kinded, typed.holdsWords, ?_, ?_, regular, holds⟩
  · intro name congruence found
    cases found
  · intro name congruence found
    cases found

/-- **The inferred congruence class is sound.** If every class that is known holds of the values of
the variables, and the operations on classes and the bounds that the analysis consults are right,
the class of an expression contains every lane of its value. -/
theorem inferCongruence_contains {known : Knowledge} {expr : Expr} {env : Environment}
    {value : Value} (typed : expr.WellTyped) (integral : expr.Integral) (envTyped : env.Typed)
    (regular : known.ClassesRegular) (holds : known.ClassesHold env)
    (sound : ∀ env' locals part, known.Consults env [] (known.isolate expr) env' locals part →
      known.SoundAt env' locals part) (evaluated : expr.eval env = some value) :
    ∀ number ∈ value.ints, (known.inferCongruence expr).contains number = true := by
  intro number member
  have related := known.isolate_renamed typed.namesTyped
  have examines : known.Examines env [] (known.isolate expr) :=
    ⟨related.wellTyped (fun _ _ => rfl) typed, related.integral integral,
      known.isolate_apart expr, sound⟩
  refine classSound known _ (classifies_nil envTyped regular holds) examines ⟨value, ?_, member⟩
  exact (related.evaluate_eq fun _ _ => rfl).trans evaluated

/-- A variable that is known to be one more than a multiple of four doubles to ten if it is five. -/
theorem inferCongruence_contains_double :
    let index : Variable := ⟨"i", .int32, false⟩
    let known : Knowledge := { congruences := [(index, ⟨4, 1⟩)] }
    let expr := Expr.binary .int32 .mul index.expr (.intConst .int32 2)
    let env := Environment.empty.set index (.int 5)
    expr.eval env = some (.int 10) ∧ known.inferCongruence expr = ⟨8, 2⟩ ∧
      ∀ number ∈ (Value.int 10).ints, (known.inferCongruence expr).contains number = true := by
  intro index known expr env
  have evaluated : expr.eval env = some (.int 10) := rfl
  have onlyIndex : ∀ name value, env name = some value → name = index ∧ value = .int 5 := by
    intro name value isValue
    simp only [env, Environment.set] at isValue
    split at isValue
    next same => exact ⟨same, (Option.some.inj isValue).symm⟩
    next => contradiction
  have onlyClass : ∀ name congruence, known.congruences.find? name = some congruence →
      name = index ∧ congruence = ⟨4, 1⟩ := by
    intro name congruence found
    simpa [known] using mem_of_find? found
  refine ⟨evaluated, by decide +kernel,
    inferCongruence_contains (by decide) (by decide) ?_ ?_ ?_ ?_ evaluated⟩
  · intro name value isValue
    obtain ⟨rfl, rfl⟩ := onlyIndex name value isValue
    exact ⟨⟨[.int 5], rfl, rfl, by decide⟩, by simp [index]⟩
  · refine ⟨?_, by simp [known]⟩
    intro name congruence found
    obtain ⟨-, rfl⟩ := onlyClass name congruence found
    exact ⟨by decide, by decide⟩
  · refine ⟨?_, by simp [known]⟩
    intro name congruence found value isValue
    obtain ⟨-, rfl⟩ := onlyClass name congruence found
    obtain ⟨-, rfl⟩ := onlyIndex name value isValue
    simpa using (by decide : (⟨4, 1⟩ : Congruence).contains 5 = true)
  · intro env' locals part consults
    have doubled : Congruence.Respects .mul ⟨4, 1⟩ ⟨0, 2⟩ := by
      rintro first second result - - - isFirst isSecond computed
      obtain ⟨factor, equal⟩ := Congruence.contains_iff.mp isFirst
      obtain rfl := Congruence.contains_constant.mp isSecond
      cases computed
      have product : Congruence.ofBinary .mul ⟨4, 1⟩ ⟨0, 2⟩ false = ⟨8, 2⟩ := by decide +kernel
      rw [product]
      exact Congruence.contains_iff.mpr ⟨factor, by simp only at equal ⊢; omega⟩
    have classOfIndex : known.congruenceWithin [] index.expr = ⟨4, 1⟩ := by decide +kernel
    have classOfTwo : known.congruenceWithin [] (.intConst .int32 2) = ⟨0, 2⟩ := by decide +kernel
    have leaf : ∀ operand ∈ expr.children, known.Consults env [] operand env' locals part →
        known.SoundAt env' locals part := by
      intro operand isChild consults
      simp only [expr, Expr.children, List.mem_cons, List.not_mem_nil, or_false] at isChild
      rcases isChild with rfl | rfl <;> cases consults with
      | self => exact ⟨fun _ _ _ member => absurd member List.not_mem_nil,
          fun _ member => absurd member List.not_mem_nil⟩
      | operand _ isOperand => exact absurd isOperand List.not_mem_nil
    change known.Consults env [] (.binary .int32 .mul index.expr (.intConst .int32 2)) env' locals
      part at consults
    cases consults with
    | self =>
      refine ⟨fun op left right member => ?_, fun _ member => absurd member List.not_mem_nil⟩
      rw [operations, if_pos (by simp), classOfIndex, classOfTwo, List.mem_singleton] at member
      cases member
      exact doubled
    | operand _ isOperand consults =>
      refine leaf _ ?_ consults
      rw [consulted] at isOperand
      split at isOperand
      · exact isOperand
      · exact List.mem_cons_of_mem _ isOperand

end Knowledge

end IndexAlgebra
