/-
This file proves that the inferred bound of an expression contains every lane of its value. Each
node has the values of its operands in their bounds, and what is known about the node holds of its
value. Bound variables are renamed apart from everything that is known first, so that a fact about
a variable is never used inside a binding that hides it.
-/
import IndexAlgebra.Proofs.Bound
import IndexAlgebra.Proofs.ExactValues
import IndexAlgebra.Proofs.Isolation

namespace IndexAlgebra

open Word

namespace Knowledge

/-! ### Bounds that hold -/

/-- Every bound that is known holds of the values that the variables have. -/
structure BoundsHold (known : Knowledge) (env : Environment) : Prop where
  bounds : ∀ name bound, known.bounds.find? name = some bound →
    ∀ value, env name = some value → ∀ number ∈ value.ints, bound.contains number = true
  globals : ∀ target bound, (target, bound) ∈ known.globals →
    ∀ number, Expr.Reads env target number → bound.contains number = true
  facts : ∀ target bound, .bound target bound ∈ known.facts →
    ∀ number, Expr.Reads env target number → bound.contains number = true

theorem mem_of_find? {α : Type} {table : Table α} {name : Variable} {entry : α}
    (found : table.find? name = some entry) : (name, entry) ∈ table := by
  obtain ⟨pair, isPair, rfl⟩ := Option.map_eq_some_iff.mp found
  have same : pair.1 = name := by simpa using List.find?_some isPair
  subst same
  exact List.mem_of_find?_eq_some isPair

/-- The name of a variable that has a bound is a known name. -/
theorem name_mem_names_of_bounds {known : Knowledge} {name : Variable} {bound : Bound}
    (found : known.bounds.find? name = some bound) : name.name ∈ known.names := by
  have isKey : name ∈ known.bounds.keys := List.mem_map_of_mem (mem_of_find? found)
  exact List.mem_map_of_mem (by simp [isKey])

/-- The names of the free variables of what bounds are known about are known names. -/
theorem name_mem_names_of_target {known : Knowledge} {target : Expr} {name : Variable}
    (isTarget : target ∈ known.globals.map Prod.fst ∨ target ∈ known.facts.map Fact.target)
    (free : name ∈ target.freeOccurrences) : name.name ∈ known.names := by
  have occurs : name ∈ target.freeVariables := List.mem_eraseDups.mpr free
  refine List.mem_map_of_mem (List.mem_append_right _ (List.mem_flatMap.mpr ⟨target, ?_, occurs⟩))
  rcases isTarget with inGlobals | inFacts
  · exact List.mem_append_left _ (List.mem_append_right _ inGlobals)
  · exact List.mem_append_right _ inFacts

/-- A variable with a name that nothing is known about may have any value. -/
theorem BoundsHold.set {known : Knowledge} {env : Environment} (holds : known.BoundsHold env)
    {name : Variable} (apart : name.name ∉ known.names) (value : Value) :
    known.BoundsHold (env.set name value) := by
  have sameValue : ∀ target,
      target ∈ known.globals.map Prod.fst ∨ target ∈ known.facts.map Fact.target →
      target.eval (env.set name value) = target.eval env := by
    intro target isTarget
    refine Expr.evaluate_congr fun other free => env.set_of_ne value ?_
    rintro rfl
    exact apart (name_mem_names_of_target isTarget free)
  refine ⟨?_, ?_, ?_⟩
  · intro other bound found result isValue number member
    have different : other ≠ name := by
      rintro rfl
      exact apart (name_mem_names_of_bounds found)
    rw [env.set_of_ne value different] at isValue
    exact holds.bounds other bound found result isValue number member
  · rintro target bound isGlobal number ⟨result, evaluated, member⟩
    rw [sameValue target (.inl (List.mem_map_of_mem isGlobal))] at evaluated
    exact holds.globals target bound isGlobal number ⟨result, evaluated, member⟩
  · rintro target bound isFact number ⟨result, evaluated, member⟩
    rw [sameValue target (.inr (List.mem_map_of_mem isFact))] at evaluated
    exact holds.facts target bound isFact number ⟨result, evaluated, member⟩

/-- What holds of every piece of information, and of two if it holds of both, holds of what remains
of them. -/
theorem of_meet? {α : Type} {intersect : α → α → α} {motive : α → Prop}
    (step : ∀ first second, motive first → motive second → motive (intersect first second))
    {pieces : List α} {met : α} (isMet : meet? intersect pieces = some met)
    (all : ∀ piece ∈ pieces, motive piece) : motive met := by
  cases pieces with
  | nil => contradiction
  | cons first rest =>
    cases isMet
    induction rest generalizing first with
    | nil => exact all first List.mem_cons_self
    | cons second rest inductionHypothesis =>
      rw [List.foldl_cons]
      refine inductionHypothesis _ fun piece member => ?_
      rcases List.mem_cons.mp member with rfl | inRest
      · exact step _ _ (all first (by simp)) (all second (by simp))
      · exact all piece (by simp [inRest])

/-- What is known about the bound of an expression contains what the expression reads. -/
theorem BoundsHold.contains {known : Knowledge} {env : Environment} (holds : known.BoundsHold env)
    {expr : Expr} {number : Int} (reads : expr.Reads env number) {bound : Bound}
    (found : known.boundOf? expr = some bound) : bound.contains number = true := by
  refine of_meet? (motive := fun bound : Bound => bound.contains number = true)
    (fun _ _ isFirst isSecond => Bound.contains_intersect.mpr ⟨isFirst, isSecond⟩) found
    fun bound member => ?_
  simp only [List.mem_append, List.mem_filterMap] at member
  rcases member with (isEntry | ⟨⟨target, other⟩, isGlobal, equal⟩) | ⟨fact, isFact, equal⟩
  · rw [entries, Option.mem_toList] at isEntry
    obtain ⟨name, isName, found⟩ := Option.bind_eq_some_iff.mp isEntry
    obtain ⟨value, evaluated, inValue⟩ := reads
    cases expr <;> simp only [Expr.asVariable?, reduceCtorEq, Option.some.injEq] at isName
    subst isName
    exact holds.bounds _ bound found value evaluated number inValue
  · rw [Option.ite_none_right_eq_some, Option.some.injEq] at equal
    obtain ⟨rfl, rfl⟩ := equal
    exact holds.globals target other isGlobal number reads
  · cases fact with
    | bound target other =>
      rw [Option.ite_none_right_eq_some, Option.some.injEq] at equal
      obtain ⟨rfl, rfl⟩ := equal
      exact holds.facts target other isFact number reads
    | congruence | truth => contradiction

theorem BoundsHold.contains_narrowBound {known : Knowledge} {env : Environment}
    (holds : known.BoundsHold env) {expr : Expr} {number : Int} (reads : expr.Reads env number)
    {bound : Bound} (member : bound.contains number = true) :
    (known.narrowBound expr bound).contains number = true := by
  unfold narrowBound
  split
  next other found => exact Bound.contains_intersect.mpr ⟨member, holds.contains reads found⟩
  next => exact member

theorem boundsWithin_eq_map (known : Knowledge) (locals : Table Bound) (exprs : List Expr) :
    known.boundsWithin locals exprs = exprs.map (known.boundWithin locals) := by
  induction exprs with
  | nil => rfl
  | cons expr rest inductionHypothesis => rw [boundsWithin, List.map_cons, inductionHypothesis]

/-! ### Soundness -/

/-- The values of the variables fit the bounds of the bindings around an expression, and
everything that is known holds of them. -/
structure Covers (known : Knowledge) (env : Environment) (locals : Table Bound) : Prop where
  kinded : env.Kinded
  bounded : ∀ name value, env name = some value → ∀ number ∈ value.ints, Inside number →
    ((locals.find? name).getD (.ofVariable name)).contains number = true
  holds : known.BoundsHold env

/-- The expression is typed without floating-point nodes, its bound variables are apart from what
is known, and every integer that is computed is strictly between the ends. -/
structure Admits (known : Knowledge) (env : Environment) (expr : Expr) : Prop where
  typed : expr.WellTyped
  integral : expr.Integral
  apart : ∀ bound ∈ expr.binders, bound.name ∉ known.names
  inside : ∀ value, expr.Computes env value → ∀ number ∈ value.ints, Inside number

section

variable {known : Knowledge} {env : Environment} {locals : Table Bound} {expr operand : Expr}
  {number : Int}

theorem Covers.set (covers : known.Covers env locals) {name : Variable} {value : Value}
    {bound : Bound} (apart : name.name ∉ known.names) (kinded : value.Kinded name.dtype)
    (contains : ∀ number ∈ value.ints, bound.contains number = true) :
    known.Covers (env.set name value) (locals.insert name bound) := by
  refine ⟨covers.kinded.set kinded, fun other result isValue number member inside => ?_,
    covers.holds.set apart value⟩
  rw [Table.find?_insert]
  by_cases same : other = name
  · rw [same, Environment.set_self] at isValue
    rw [if_pos same]
    exact contains number (Option.some.inj isValue ▸ member)
  · rw [Environment.set_of_ne _ _ same] at isValue
    rw [if_neg same]
    exact covers.bounded other result isValue number member inside

theorem Admits.inside_of_reads (admits : known.Admits env expr)
    (reads : expr.Reads env number) : Inside number := by
  obtain ⟨value, evaluated, member⟩ := reads
  exact admits.inside value (.result evaluated) number member

/-- What is asked of an expression passes to an operand that computes nothing else. -/
theorem Admits.of_child {env' : Environment} (admits : known.Admits env expr)
    (isChild : operand ∈ expr.children)
    (computes : ∀ value, operand.Computes env' value → expr.Computes env value) :
    known.Admits env' operand := by
  refine ⟨admits.typed.child isChild, (Expr.integral_iff.mp admits.integral).2 operand isChild,
    ?_, ?_⟩
  · intro bound member
    obtain ⟨node, isNode, isBinder⟩ := List.mem_filterMap.mp member
    exact admits.apart bound (List.mem_filterMap.mpr
      ⟨node, Expr.mem_postOrder.mpr (.inr ⟨operand, isChild, isNode⟩), isBinder⟩)
  · exact fun value computed => admits.inside value (computes value computed)

theorem Admits.child (admits : known.Admits env expr) (strict : expr.isStrict = true)
    (isChild : operand ∈ expr.children) : known.Admits env operand :=
  admits.of_child isChild fun _ computed => .child strict isChild computed

/-- An integer that a node reads is in the bound of the node if it is in the computed one. -/
theorem Covers.contains_computedBound (covers : known.Covers env locals)
    (admits : known.Admits env expr) (reads : expr.Reads env number) {bound : Bound}
    (member : bound.contains number = true) :
    (known.computedBound expr bound).contains number = true := by
  unfold computedBound
  rw [(Expr.integral_iff.mp admits.integral).1]
  exact covers.holds.contains_narrowBound reads member

end

/-- The bound that is inferred for the expression inside bindings contains every integer that the
expression reads. -/
def BoundSound (known : Knowledge) (expr : Expr) : Prop :=
  ∀ {env : Environment} {locals : Table Bound} {number : Int}, known.Covers env locals →
    known.Admits env expr → expr.Reads env number →
    (known.boundWithin locals expr).contains number = true

section

attribute [local simp] boundWithin

variable {known : Knowledge} {dtype : DataType}

theorem boundSound_var (name : Variable) : known.BoundSound (.var dtype name) := by
  intro env locals number covers admits reads
  rw [boundWithin]
  refine covers.holds.contains_narrowBound reads ?_
  have inside := admits.inside_of_reads reads
  obtain ⟨value, evaluated, member⟩ := reads
  exact covers.bounded name value evaluated number member inside

theorem boundSound_intConst (value : Int) : known.BoundSound (.intConst dtype value) := by
  intro env locals number covers admits reads
  rw [boundWithin]
  refine covers.holds.contains_narrowBound reads ?_
  have inside := admits.inside_of_reads reads
  obtain ⟨_, evaluated, member⟩ := reads
  cases evaluated
  rw [Value.ints_int, List.mem_singleton] at member
  subst member
  exact Bound.contains_point inside

theorem boundSound_boolConst (truth : Bool) : known.BoundSound (.boolConst dtype truth) := by
  intro env locals number covers admits reads
  rw [boundWithin]
  refine covers.holds.contains_narrowBound reads ?_
  have inside := admits.inside_of_reads reads
  obtain ⟨_, evaluated, member⟩ := reads
  cases evaluated
  rw [Value.ints_bool, List.mem_singleton] at member
  subst member
  exact Bound.contains_point inside

theorem boundSound_cast {value : Expr} (sound : known.BoundSound value) :
    known.BoundSound (.cast dtype value) := by
  intro env locals number covers admits reads
  have admitsValue := admits.child rfl (List.mem_singleton_self value)
  have notFloat : dtype.isFloat = false := (Expr.integral_iff.mp admits.integral).1
  have inside := admits.inside_of_reads reads
  rw [boundWithin]
  refine covers.holds.contains_narrowBound reads ?_
  obtain ⟨operand, readsOperand, converted⟩ := Expr.reads_cast notFloat
    (fun _ evaluated => (Expr.evaluate_kinded admitsValue.typed covers.kinded evaluated).discrete
      (Expr.integral_iff.mp admitsValue.integral).1) reads
  have member := sound covers admitsValue readsOperand
  by_cases isBool : dtype.isBool = true
  · rw [if_pos isBool] at converted
    rw [converted]
    exact Bound.contains_cast_bool isBool member
  · rw [if_neg isBool] at converted
    have typed := admits.typed
    rw [Expr.WellTyped] at typed
    exact Bound.contains_cast notFloat isBool typed.2.1.1
      (admitsValue.inside_of_reads readsOperand) inside converted.1 converted.2 member

theorem boundSound_binary {op : BinaryOp} {lhs rhs : Expr} (soundLeft : known.BoundSound lhs)
    (soundRight : known.BoundSound rhs) : known.BoundSound (.binary dtype op lhs rhs) := by
  intro env locals number covers admits reads
  have inside := admits.inside_of_reads reads
  have admitsLeft : known.Admits env lhs := admits.child rfl (by simp [Expr.children])
  have admitsRight : known.Admits env rhs := admits.child rfl (by simp [Expr.children])
  have typed := admits.typed
  rw [Expr.WellTyped] at typed
  obtain ⟨-, -, -, type, -⟩ := typed
  rw [boundWithin]
  refine covers.contains_computedBound admits reads ?_
  rcases Expr.reads_binary reads with
    ⟨notArithmetic, truth⟩ | ⟨left, right, isLeft, isRight, result⟩
  · have member := Bound.contains_truth truth
    cases op <;> first | exact member | exact absurd rfl notArithmetic
  · have member := Bound.contains_binary inside
      (soundLeft covers admitsLeft isLeft) (soundRight covers admitsRight isRight) result
    rw [type]
    cases op <;> exact member

theorem boundSound_not {value : Expr} : known.BoundSound (.not dtype value) := by
  intro env locals number covers admits reads
  rw [boundWithin]
  exact covers.contains_computedBound admits reads (Bound.contains_truth (Expr.reads_not reads))

theorem boundSound_select {cond onTrue onFalse : Expr} (soundTrue : known.BoundSound onTrue)
    (soundFalse : known.BoundSound onFalse) :
    known.BoundSound (.select dtype cond onTrue onFalse) := by
  intro env locals number covers admits reads
  have admitsTrue : known.Admits env onTrue := admits.child rfl (by simp [Expr.children])
  have admitsFalse : known.Admits env onFalse := admits.child rfl (by simp [Expr.children])
  rw [boundWithin]
  refine covers.contains_computedBound admits reads ?_
  rcases Expr.reads_select reads with taken | refused
  · exact Bound.contains_union_left (soundTrue covers admitsTrue taken)
  · exact Bound.contains_union_right (soundFalse covers admitsFalse refused)

theorem boundSound_ramp {base stride : Expr} {lanes : Nat} (soundBase : known.BoundSound base)
    (soundStride : known.BoundSound stride) :
    known.BoundSound (.ramp dtype base stride lanes) := by
  intro env locals number covers admits reads
  have admitsBase : known.Admits env base := admits.child rfl (by simp [Expr.children])
  have admitsStride : known.Admits env stride := admits.child rfl (by simp [Expr.children])
  have inside := admits.inside_of_reads reads
  rw [boundWithin]
  refine covers.contains_computedBound admits reads ?_
  obtain ⟨first, step, isFirst, isStep, index, small, rfl⟩ := Expr.reads_ramp reads
  exact Bound.contains_ramp (admitsStride.inside_of_reads isStep) inside small
    (soundBase covers admitsBase isFirst) (soundStride covers admitsStride isStep)

theorem boundSound_broadcast {value : Expr} {lanes : Nat} (sound : known.BoundSound value) :
    known.BoundSound (.broadcast dtype value lanes) := by
  intro env locals number covers admits reads
  have admitsValue := admits.child rfl (List.mem_singleton_self value)
  rw [boundWithin]
  exact covers.contains_computedBound admits reads
    (sound covers admitsValue (Expr.reads_broadcast reads))

theorem boundSound_shuffle {vectors : List Expr} {indices : List Nat}
    (sound : ∀ vector ∈ vectors, known.BoundSound vector) :
    known.BoundSound (.shuffle dtype vectors indices) := by
  intro env locals number covers admits reads
  rw [boundWithin, boundsWithin_eq_map]
  refine covers.contains_computedBound admits reads ?_
  obtain ⟨vector, isVector, readsVector⟩ := Expr.reads_shuffle reads
  exact Bound.contains_shuffle dtype (List.mem_map_of_mem isVector)
    (sound vector isVector covers (admits.child rfl isVector) readsVector)

theorem boundSound_letIn {name : Variable} {value body : Expr} (soundValue : known.BoundSound value)
    (soundBody : known.BoundSound body) : known.BoundSound (.letIn dtype name value body) := by
  intro env locals number covers admits reads
  rw [boundWithin]
  refine covers.contains_computedBound admits reads ?_
  obtain ⟨bound, evaluated, readsBody⟩ := Expr.reads_letIn reads
  have admitsValue : known.Admits env value :=
    admits.of_child (by simp [Expr.children]) fun _ computed => .letValue computed
  have admitsBody : known.Admits (env.set name bound) body :=
    admits.of_child (by simp [Expr.children]) fun _ computed => .letBody evaluated computed
  refine soundBody (covers.set ?_ ?_ ?_) admitsBody readsBody
  · exact admits.apart name (by simp [Expr.binders, Expr.postOrder, Expr.binder?])
  · exact admits.typed.kinded_bound covers.kinded evaluated
  · exact fun number member => soundValue covers admitsValue ⟨bound, evaluated, member⟩

theorem boundSound_ifThenElse {cond onTrue onFalse : Expr} (soundTrue : known.BoundSound onTrue)
    (soundFalse : known.BoundSound onFalse) :
    known.BoundSound (.call dtype .ifThenElse [cond, onTrue, onFalse]) := by
  intro env locals number covers admits reads
  rw [boundWithin, boundsWithin_eq_map]
  refine covers.contains_computedBound admits reads ?_
  rcases Expr.reads_ifThenElse reads with ⟨holds, taken⟩ | ⟨fails, refused⟩
  · have admitsTrue : known.Admits env onTrue :=
      admits.of_child (by simp [Expr.children]) fun _ computed => .taken holds computed
    exact Bound.contains_union_left (soundTrue covers admitsTrue taken)
  · have admitsFalse : known.Admits env onFalse :=
      admits.of_child (by simp [Expr.children]) fun _ computed => .refused fails computed
    exact Bound.contains_union_right (soundFalse covers admitsFalse refused)

theorem boundSound_bitwise {op : CallOp} {lhs rhs : Expr} (soundLeft : known.BoundSound lhs)
    (soundRight : known.BoundSound rhs) : known.BoundSound (.call dtype op [lhs, rhs]) := by
  intro env locals number covers admits reads
  have inside := admits.inside_of_reads reads
  rw [boundWithin, boundsWithin_eq_map]
  refine covers.contains_computedBound admits reads ?_
  obtain ⟨fits, left, right, isLeft, isRight, result⟩ := Expr.reads_bitwise reads
  have strict : (Expr.call dtype op [lhs, rhs]).isStrict = true := by
    cases op <;> first | rfl | contradiction
  have admitsLeft : known.Admits env lhs := admits.child strict (by simp [Expr.children])
  have admitsRight : known.Admits env rhs := admits.child strict (by simp [Expr.children])
  exact Bound.contains_bitwise fits inside (admitsLeft.inside_of_reads isLeft)
    (admitsRight.inside_of_reads isRight) (soundLeft covers admitsLeft isLeft)
    (soundRight covers admitsRight isRight) result

theorem boundSound_call {op : CallOp} {args : List Expr}
    (sound : ∀ arg ∈ args, known.BoundSound arg) : known.BoundSound (.call dtype op args) := by
  intro env locals number covers admits reads
  obtain ⟨result, evaluated, member⟩ := reads
  have reads : (Expr.call dtype op args).Reads env number := ⟨result, evaluated, member⟩
  rcases Expr.call_cases evaluated with
    ⟨rfl, cond, onTrue, onFalse, rfl⟩ | ⟨rfl, value, rfl⟩ | ⟨lhs, rhs, rfl⟩
  · exact boundSound_ifThenElse (sound onTrue (by simp)) (sound onFalse (by simp)) covers admits reads
  · have inside := admits.inside_of_reads reads
    rw [boundWithin, boundsWithin_eq_map]
    exact covers.contains_computedBound admits reads
      (Bound.contains_ofType inside (Expr.reads_bitwiseNot reads).1)
  · exact boundSound_bitwise (sound lhs (by simp)) (sound rhs (by simp)) covers admits reads

end

/-- Every integer that an expression reads is in the bound that is inferred inside bindings. -/
theorem boundSound (known : Knowledge) (expr : Expr) : known.BoundSound expr := by
  induction expr using Expr.childrenInduction with
  | step expr sound =>
    cases expr with
    | var dtype name => exact boundSound_var name
    | intConst dtype value => exact boundSound_intConst value
    | boolConst dtype truth => exact boundSound_boolConst truth
    | floatConst dtype value =>
      intro _ _ _ _ admits _
      have typed := admits.typed
      have notFloat := (Expr.integral_iff.mp admits.integral).1
      rw [Expr.WellTyped] at typed
      rw [Expr.dtype, typed.2.1] at notFloat
      contradiction
    | cast dtype value => exact boundSound_cast (sound value List.mem_cons_self)
    | binary dtype op lhs rhs =>
      exact boundSound_binary (sound lhs (by simp [Expr.children]))
        (sound rhs (by simp [Expr.children]))
    | not dtype value => exact boundSound_not
    | select dtype cond onTrue onFalse =>
      exact boundSound_select (sound onTrue (by simp [Expr.children]))
        (sound onFalse (by simp [Expr.children]))
    | ramp dtype base stride lanes =>
      exact boundSound_ramp (sound base (by simp [Expr.children]))
        (sound stride (by simp [Expr.children]))
    | broadcast dtype value lanes => exact boundSound_broadcast (sound value List.mem_cons_self)
    | shuffle dtype vectors indices => exact boundSound_shuffle sound
    | letIn dtype name value body =>
      exact boundSound_letIn (sound value (by simp [Expr.children]))
        (sound body (by simp [Expr.children]))
    | call dtype op args => exact boundSound_call sound

theorem contains_ofVariable {name : Variable} {value : Value} {number : Int}
    (typed : value.HasType name.dtype)
    (nonNegative : name.nonNegative = true → ∀ number ∈ value.ints, 0 ≤ number)
    (member : number ∈ value.ints) (inside : Inside number) :
    (Bound.ofVariable name).contains number = true := by
  have ofType : (Bound.ofType name.dtype).contains number = true := by
    obtain ⟨lanes, rfl, -, inLanes⟩ := typed
    obtain ⟨lane, isLane, inLane⟩ := Value.mem_ints_ofLanes.mp member
    exact Bound.contains_ofType inside (Value.fits_of_mem_ints (inLanes lane isLane) inLane)
  unfold Bound.ofVariable
  split
  next marked =>
    have above : Bound.nonNegative.contains number = true :=
      Bound.contains_iff.mpr ⟨Limit.finite_le_finite.mpr (nonNegative marked number member), rfl⟩
    exact Bound.contains_intersect.mpr ⟨ofType, above⟩
  next => exact ofType

/-- A typed environment covers an expression outside every binding. -/
theorem covers_nil {known : Knowledge} {env : Environment} (typed : env.Typed)
    (holds : known.BoundsHold env) : known.Covers env [] := by
  refine ⟨typed.kinded, fun name value isValue number member inside => ?_, holds⟩
  have hasType := typed name value isValue
  exact contains_ofVariable hasType.1 hasType.2 member inside

/-- **The inferred bound is sound.** If every bound that is known holds of the values of the
variables, and every integer that is computed is strictly between the ends that stand for the
infinities, the bound of an expression contains every lane of its value. -/
theorem inferBound_contains {known : Knowledge} {expr : Expr} {env : Environment} {value : Value}
    (typed : expr.WellTyped) (integral : expr.Integral) (envTyped : env.Typed)
    (holds : known.BoundsHold env) (evaluated : expr.eval env = some value)
    (inside : ∀ computed, expr.Computes env computed → ∀ number ∈ computed.ints, Inside number) :
    ∀ number ∈ value.ints, (known.inferBound expr).contains number = true := by
  intro number member
  have related := known.isolate_renamed typed.namesTyped
  have admits : known.Admits env (known.isolate expr) := by
    refine ⟨related.wellTyped (fun _ _ => rfl) typed, related.integral integral,
      known.isolate_apart expr, fun computed computes => ?_⟩
    exact inside computed (related.computes (fun _ _ => rfl) computes)
  refine boundSound known _ (covers_nil envTyped holds) admits ⟨value, ?_, member⟩
  exact (related.evaluate_eq fun _ _ => rfl).trans evaluated

/-- A variable that is known to lie from zero to ten doubles to ten if it is five. -/
theorem inferBound_contains_double :
    let index : Variable := ⟨"i", .int32, true⟩
    let known : Knowledge := { bounds := [(index, .ofInts 0 10)] }
    let expr := Expr.binary .int32 .mul index.expr (.intConst .int32 2)
    let env := Environment.empty.set index (.int 5)
    expr.eval env = some (.int 10) ∧
      ∀ number ∈ (Value.int 10).ints, (known.inferBound expr).contains number = true := by
  intro index known expr env
  have evaluated : expr.eval env = some (.int 10) := rfl
  have onlyIndex : ∀ name value, env name = some value → name = index ∧ value = .int 5 := by
    intro name value isValue
    simp only [env, Environment.set] at isValue
    split at isValue
    next same => exact ⟨same, (Option.some.inj isValue).symm⟩
    next => contradiction
  refine ⟨evaluated, inferBound_contains (by decide) (by decide) ?_ ?_ evaluated ?_⟩
  · intro name value isValue
    obtain ⟨rfl, rfl⟩ := onlyIndex name value isValue
    exact ⟨⟨[.int 5], rfl, rfl, by decide⟩, by simp⟩
  · refine ⟨?_, by simp [known], by simp [known]⟩
    intro name bound found value isValue
    obtain ⟨rfl, rfl⟩ := onlyIndex name value isValue
    cases found
    simpa using (by decide : (Bound.ofInts 0 10).contains 5 = true)
  · intro computed computes
    have values : computed = .int 10 ∨ computed = .int 5 ∨ computed = .int 2 := by
      rcases (Expr.computes_iff rfl).mp computes with isProduct | ⟨operand, isOperand, computes⟩
      · exact .inl (Option.some.inj isProduct).symm
      · simp only [expr, Expr.children, List.mem_cons, List.not_mem_nil, or_false] at isOperand
        rcases isOperand with rfl | rfl <;>
          rcases (Expr.computes_iff rfl).mp computes with isValue | ⟨_, isChild, _⟩
        · exact .inr (.inl (Option.some.inj isValue).symm)
        · exact absurd isChild List.not_mem_nil
        · exact .inr (.inr (Option.some.inj isValue).symm)
        · exact absurd isChild List.not_mem_nil
    rcases values with rfl | rfl | rfl <;> simpa using by decide

end Knowledge

end IndexAlgebra
