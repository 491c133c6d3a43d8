/-
This file proves that the inferred interval of an expression surrounds the values of the expression.
The ends of the interval speak of the environment outside all bindings: a binding replaces the entry
of its variable in the domain, and an expression that mentions no variable of the domain has the
same meaning inside and outside. A conversion may change what an end means, and so each end is followed
to the conversions that it is built from.
-/
import IndexAlgebra.Proofs.Interval
import IndexAlgebra.Proofs.Isolation

namespace IndexAlgebra

namespace Interval

/-! ### What the interval depends on -/

namespace Analyses

/-- The parts of the expression do not matter for the end of its interval on the side. -/
def ignoresParts (analyses : Analyses) (domain : Table Interval) (side : Side) (expr : Expr) : Bool :=
  isFixed domain expr || ((analyses.infer domain expr).endOn side).isNone

/-- The ends of intervals of operands after they are converted, for each conversion that the end of the
interval of the expression on the side is built from. Those of the entries of the domain are given. -/
def conversions (analyses : Analyses) (domain : Table Interval) (entries : Variable → Side → List Expr)
    (side : Side) : Expr → List Expr
  | .broadcast _ value _ => conversions analyses domain entries side value
  | expr@(.var _ name) => if analyses.ignoresParts domain side expr then [] else entries name side
  | expr@(.binary _ op lhs rhs) =>
    if analyses.ignoresParts domain side expr then []
    else
      let sides := analyses.operandSides op (analyses.infer domain lhs) (analyses.infer domain rhs) side
      sides.1.flatMap (fun side => conversions analyses domain entries side lhs) ++
        sides.2.flatMap fun side => conversions analyses domain entries side rhs
  | expr@(.select _ _ onTrue onFalse) =>
    if analyses.ignoresParts domain side expr then []
    else
      conversions analyses domain entries side onTrue ++
        conversions analyses domain entries side onFalse
  | expr@(.cast dtype value) =>
    if analyses.ignoresParts domain side expr then []
    else
      conversions analyses domain entries side value ++
        (((analyses.infer domain value).convert value.dtype dtype).endOn side).toList
  | expr@(.ramp _ base _ _) =>
    if analyses.ignoresParts domain side expr then []
    else conversions analyses domain entries side base
  | expr@(.letIn _ name value body) =>
    if analyses.ignoresParts domain side expr then []
    else
      conversions analyses (domain.insert name (analyses.infer domain value))
        (Function.update entries name fun side => conversions analyses domain entries side value) side
        body
  | _ => []

/-- The domain describes the variables inside bindings: the values of those that it has an entry for
are surrounded by the entry, whose ends speak of the environment outside, on each side that is built
from conversions that keep meanings, and every other variable has the value that it has outside. -/
structure Describes (domain : Table Interval) (entries : Variable → Side → List Expr)
    (env inner : Environment) : Prop where
  kinded : inner.Kinded
  surrounds : ∀ name interval, domain.find? name = some interval → name.dtype.isInteger = true →
    ∀ value, inner name = some value → ∀ number ∈ value.ints, ∀ side,
      (∀ converted ∈ entries name side, KeepsMeaning env converted) →
        interval.SurroundsOn env side number
  outside : ∀ name, domain.find? name = none → inner name = env name

/-- What is asked of an expression over integers for its interval to be right on a side. -/
structure Admits (analyses : Analyses) (domain : Table Interval)
    (entries : Variable → Side → List Expr) (side : Side) (env inner : Environment) (expr : Expr) :
    Prop where
  describes : Describes domain entries env inner
  typed : expr.WellTyped
  scalars : ∀ name ∈ expr.freeOccurrences, domain.find? name = none → name.dtype.lanes = 1
  kept : ∀ converted ∈ analyses.conversions domain entries side expr, KeepsMeaning env converted

/-- Where each side of the interval of the expression is right, it surrounds all integers that the
expression means. -/
def SoundOn (analyses : Analyses) (env : Environment) (expr : Expr) : Prop :=
  ∀ domain entries side inner, analyses.Admits domain entries side env inner expr →
    expr.dtype.isInteger = true →
    ∀ number, expr.MeansLane inner number → (analyses.infer domain expr).SurroundsOn env side number

variable {analyses : Analyses} {domain : Table Interval} {entries : Variable → Side → List Expr}
  {side used : Side} {env inner : Environment}

/-- A scalar integer that the domain says nothing about is an end. -/
theorem isEnd_of_isFixed {expr : Expr} {number : Int} (describes : Describes domain entries env inner)
    (typed : expr.WellTyped) (isInteger : expr.dtype.isInteger = true)
    (fixed : isFixed domain expr = true) (means : expr.MeansLane inner number) :
    expr.IsEnd env number := by
  obtain ⟨scalar, unmentioned⟩ := Bool.and_eq_true_iff.mp fixed
  obtain ⟨value, means, member⟩ := means
  have one := Expr.lanes_eq_one_of_isScalar scalar
  have meansOutside : expr.Means env value := means.congr fun name occurs => by
    refine (describes.outside name ?_).symm
    have notEntry := unmentioned
    rw [Bool.not_eq_true', List.any_eq_false] at notEntry
    simpa using notEntry name (Expr.mem_mentions_of_mem_freeOccurrences occurs)
  obtain ⟨single, rfl⟩ :=
    (Expr.evaluate_kinded typed describes.kinded means.evaluates).exists_int isInteger one
  rw [Value.ints_int, List.mem_singleton] at member
  exact ⟨member ▸ meansOutside, isInteger, one⟩

/-- If the domain says nothing about the expression, its interval is the point that it is. -/
theorem infer_of_isFixed {expr : Expr} (fixed : isFixed domain expr = true)
    (notBroadcast : ∀ dtype value lanes, expr ≠ .broadcast dtype value lanes) :
    analyses.infer domain expr = .point expr := by
  unfold infer
  split
  next => exact absurd rfl (notBroadcast _ _ _)
  all_goals exact if_pos fixed

theorem surroundsOn_of_isNone {interval : Interval} (isNone : (interval.endOn side).isNone = true)
    (number : Int) : interval.SurroundsOn env side number := by
  rw [SurroundsOn, Option.isNone_iff_eq_none.mp isNone]
  exact endHolds_none env _

/-- It is enough that the interval is right where the parts of the expression matter. -/
theorem SoundOn.of_parts {expr : Expr}
    (notBroadcast : ∀ dtype value lanes, expr ≠ .broadcast dtype value lanes)
    (sound : ∀ domain entries side inner, analyses.Admits domain entries side env inner expr →
      expr.dtype.isInteger = true → analyses.ignoresParts domain side expr = false →
      ∀ number, expr.MeansLane inner number →
        (analyses.infer domain expr).SurroundsOn env side number) : analyses.SoundOn env expr := by
  intro domain entries side inner admits isInteger number means
  by_cases ignores : analyses.ignoresParts domain side expr = true
  · rcases Bool.or_eq_true_iff.mp ignores with fixed | isNone
    · rw [infer_of_isFixed fixed notBroadcast]
      have isEnd := isEnd_of_isFixed admits.describes admits.typed isInteger fixed means
      exact (surrounds_point isEnd).on side
    · exact surroundsOn_of_isNone isNone number
  · exact sound domain entries side inner admits isInteger (Bool.eq_false_iff.mpr ignores) number means

theorem not_isFixed_of_parts {expr : Expr} (matter : analyses.ignoresParts domain side expr = false) :
    isFixed domain expr = false := (Bool.or_eq_false_iff.mp matter).1

theorem isNone_endOn_of_parts {expr : Expr}
    (matter : analyses.ignoresParts domain side expr = false) :
    ((analyses.infer domain expr).endOn side).isNone = false := (Bool.or_eq_false_iff.mp matter).2

/-- What is asked of an expression on a side is asked of an operand in the same environment on the sides
that this side is built from. -/
theorem Admits.child {expr child : Expr} (admits : analyses.Admits domain entries side env inner expr)
    (isChild : child ∈ expr.children) (free : child.freeOccurrences ⊆ expr.freeOccurrences)
    (kept : ∀ converted ∈ analyses.conversions domain entries used child, KeepsMeaning env converted) :
    analyses.Admits domain entries used env inner child :=
  ⟨admits.describes, admits.typed.child isChild, fun name occurs => admits.scalars name (free occurs),
    kept⟩

section

attribute [local simp] infer conversions

variable {dtype : DataType}

theorem soundOn_var (name : Variable) : analyses.SoundOn env (.var dtype name) := by
  apply SoundOn.of_parts (fun _ _ _ => Expr.noConfusion)
  intro domain entries side inner admits isInteger matter number means
  have typed := admits.typed
  rw [Expr.WellTyped] at typed
  have notFixed := not_isFixed_of_parts matter
  have kept := admits.kept
  rw [conversions, if_neg (Bool.eq_false_iff.mp matter)] at kept
  rw [infer, if_neg (Bool.eq_false_iff.mp notFixed)]
  obtain ⟨value, means, member⟩ := means
  cases found : domain.find? name with
  | some interval =>
    exact admits.describes.surrounds name interval found (typed.1 ▸ isInteger) value means.evaluates
      number member side kept
  | none =>
    have one := admits.scalars name (List.mem_singleton_self name) found
    refine absurd notFixed ?_
    simp [isFixed, DataType.isScalar, Expr.dtype, typed.1, one, Expr.mentions, Expr.postOrder,
      Expr.asVariable?, found]

theorem soundOn_broadcast {value : Expr} {lanes : Nat} (sound : analyses.SoundOn env value) :
    analyses.SoundOn env (.broadcast dtype value lanes) := by
  intro domain entries side inner admits isInteger number means
  have typed := admits.typed
  rw [Expr.WellTyped] at typed
  rw [infer]
  have isChild : value ∈ (Expr.broadcast dtype value lanes).children := List.mem_singleton_self value
  exact sound domain entries side inner (admits.child isChild (List.Subset.refl _) admits.kept)
    (by rw [Expr.dtype, typed.2.2.2] at isInteger; exact isInteger) number
    (means.child rfl isChild (Expr.readsUnder_broadcast means.readsUnder))

/-- An expression over integers that means something means an integer in some lane. -/
theorem exists_meansLane {expr : Expr} {value : Value} (describes : Describes domain entries env inner)
    (typed : expr.WellTyped) (isInteger : expr.dtype.isInteger = true)
    (means : expr.Means inner value) : ∃ number, expr.MeansLane inner number := by
  obtain ⟨lanes, rfl, length, ofKind⟩ :=
    Expr.evaluate_kinded typed describes.kinded means.evaluates
  have some : 0 < lanes.length := length ▸ typed.valid.2.2.1
  have isLane := List.getElem_mem some
  have isKind := ofKind _ isLane
  generalize lanes[0] = lane at isLane isKind
  cases lane with
  | int number => exact ⟨number, _, means, Value.mem_ints_ofLanes.mpr ⟨_, isLane, by simp⟩⟩
  | bool truth =>
    rw [Value.OfKind] at isKind
    rw [DataType.isInteger_of_isBool isKind] at isInteger
    contradiction
  | float number =>
    rw [Value.OfKind, DataType.isFloat_of_isInteger isInteger] at isKind
    contradiction
  | vector lanes => exact isKind.elim

theorem soundOn_binary (right : analyses.SoundIn env) {op : BinaryOp} {lhs rhs : Expr}
    (soundLeft : analyses.SoundOn env lhs) (soundRight : analyses.SoundOn env rhs) :
    analyses.SoundOn env (.binary dtype op lhs rhs) := by
  apply SoundOn.of_parts (fun _ _ _ => Expr.noConfusion)
  intro domain entries side inner admits isInteger matter number means
  have typed := admits.typed
  rw [Expr.WellTyped] at typed
  obtain ⟨-, -, same, rfl, logical⟩ := typed
  obtain ⟨arithmetic, leftInteger⟩ := Expr.arithmetic_of_isInteger isInteger logical
  have kept := admits.kept
  rw [conversions, if_neg (Bool.eq_false_iff.mp matter), List.forall_mem_append] at kept
  rw [infer, if_neg (Bool.eq_false_iff.mp (not_isFixed_of_parts matter))]
  rcases Expr.readsUnder_binary means.readsUnder with
    ⟨notArithmetic, -⟩ | ⟨first, second, isFirst, isSecond, computed⟩
  · exact absurd arithmetic notArithmetic
  · rw [Scalar.binaryInt?_unbounded arithmetic] at computed
    obtain ⟨result, isResult, equal⟩ := Option.map_eq_some_iff.mp computed
    cases equal
    have isLhs : lhs ∈ (Expr.binary (Expr.binaryType op lhs.dtype) op lhs rhs).children := by
      simp [Expr.children]
    have isRhs : rhs ∈ (Expr.binary (Expr.binaryType op lhs.dtype) op lhs rhs).children := by
      simp [Expr.children]
    refine surroundsOn_binary right (fun used isUsed => ?_) (fun used isUsed => ?_) isResult
    · have ofUsed := fun converted member =>
        kept.1 converted (List.mem_flatMap.mpr ⟨used, isUsed, member⟩)
      exact soundLeft domain entries used inner
        (admits.child isLhs (List.subset_append_left _ _) ofUsed) leftInteger first
        (means.child rfl isLhs isFirst)
    · have ofUsed := fun converted member =>
        kept.2 converted (List.mem_flatMap.mpr ⟨used, isUsed, member⟩)
      exact soundRight domain entries used inner
        (admits.child isRhs (List.subset_append_right _ _) ofUsed) (same ▸ leftInteger) second
        (means.child rfl isRhs isSecond)

theorem soundOn_select (right : analyses.SoundIn env) {cond onTrue onFalse : Expr}
    (soundTrue : analyses.SoundOn env onTrue) (soundFalse : analyses.SoundOn env onFalse) :
    analyses.SoundOn env (.select dtype cond onTrue onFalse) := by
  apply SoundOn.of_parts (fun _ _ _ => Expr.noConfusion)
  intro domain entries side inner admits isInteger matter number means
  have typed := admits.typed
  rw [Expr.WellTyped] at typed
  obtain ⟨-, -, -, -, same, rfl, -⟩ := typed
  have kept := admits.kept
  rw [conversions, if_neg (Bool.eq_false_iff.mp matter), List.forall_mem_append] at kept
  rw [infer, if_neg (Bool.eq_false_iff.mp (not_isFixed_of_parts matter))]
  have isTrue : onTrue ∈ (Expr.select onTrue.dtype cond onTrue onFalse).children := by
    simp [Expr.children]
  have isFalse : onFalse ∈ (Expr.select onTrue.dtype cond onTrue onFalse).children := by
    simp [Expr.children]
  have ofTrue := soundTrue domain entries side inner
    (admits.child isTrue (fun _ occurs => by simp [Expr.freeOccurrences, occurs]) kept.1) isInteger
  have ofFalse := soundFalse domain entries side inner
    (admits.child isFalse (fun _ occurs => by simp [Expr.freeOccurrences, occurs]) kept.2)
    (same ▸ isInteger)
  -- Both branches mean something, whichever of them the lane is from.
  have ⟨_, meansValue, _⟩ := means
  obtain ⟨_, taken, refused, -, -, isTaken, isRefused, -, -⟩ :=
    Expr.evaluate_select_eq_some.mp meansValue.evaluates
  obtain ⟨first, isFirst⟩ := exists_meansLane admits.describes (admits.typed.child isTrue) isInteger
    (meansValue.child rfl isTrue isTaken)
  obtain ⟨second, isSecond⟩ := exists_meansLane admits.describes (admits.typed.child isFalse)
    (same ▸ isInteger) (meansValue.child rfl isFalse isRefused)
  rcases Expr.readsUnder_select means.readsUnder with ofTaken | ofRefused
  · exact surroundsOn_union right (ofTrue number (means.child rfl isTrue ofTaken))
      (ofFalse second isSecond) (.inl rfl)
  · exact surroundsOn_union right (ofTrue first isFirst)
      (ofFalse number (means.child rfl isFalse ofRefused)) (.inr rfl)

theorem soundOn_cast {value : Expr} (sound : analyses.SoundOn env value) :
    analyses.SoundOn env (.cast dtype value) := by
  apply SoundOn.of_parts (fun _ _ _ => Expr.noConfusion)
  intro domain entries side inner admits isInteger matter number means
  have typed := admits.typed
  rw [Expr.WellTyped] at typed
  have kept := admits.kept
  rw [conversions, if_neg (Bool.eq_false_iff.mp matter), List.forall_mem_append] at kept
  have isSome := isNone_endOn_of_parts matter
  rw [infer, if_neg (Bool.eq_false_iff.mp (not_isFixed_of_parts matter))] at isSome ⊢
  have isChild : value ∈ (Expr.cast dtype value).children := List.mem_singleton_self value
  have widens : value.dtype.widensTo dtype = true := Bool.of_not_eq_false fun widens => by
    rw [convert, widens] at isSome
    cases side <;> cases isSome
  have fromInteger := (widensTo_iff.mp widens).1
  have notFloat := DataType.isFloat_of_isInteger isInteger
  obtain ⟨operand, reads, converted⟩ := Expr.readsUnder_cast notFloat
    (fun result isResult => (Expr.evaluate_kinded typed.1 admits.describes.kinded isResult).discrete
      (DataType.isFloat_of_isInteger fromInteger)) means.readsUnder
  have fits := fits_of_widens widens (means.fits_of_cast reads)
  have unchanged : operand = number := by
    rw [if_neg (by simp [DataType.isBool_of_isInteger isInteger])] at converted
    rw [← Option.some.inj converted]
    split
    next => rfl
    next narrow => exact (Bound.wrap_of_fits isInteger typed.2.1.1 narrow fits).symm
  subst unchanged
  exact surroundsOn_convert (sound domain entries side inner
    (admits.child isChild (List.Subset.refl _) kept.1) fromInteger operand
    (means.child rfl isChild reads)) fun expr isEnd => kept.2 expr (Option.mem_toList.mpr isEnd)

theorem soundOn_ramp (right : analyses.SoundIn env) {base stride : Expr} {lanes : Nat}
    (sound : analyses.SoundOn env base) : analyses.SoundOn env (.ramp dtype base stride lanes) := by
  apply SoundOn.of_parts (fun _ _ _ => Expr.noConfusion)
  intro domain entries side inner admits isInteger matter number means
  have typed := admits.typed
  rw [Expr.WellTyped] at typed
  obtain ⟨-, -, same, one, -, rfl⟩ := typed
  have kept := admits.kept
  rw [conversions, if_neg (Bool.eq_false_iff.mp matter)] at kept
  rw [infer, if_neg (Bool.eq_false_iff.mp (not_isFixed_of_parts matter))]
  split
  next offsets isOffsets =>
    obtain ⟨first, step, isFirst, isStep, index, inRange, equal⟩ :=
      Expr.readsUnder_ramp means.readsUnder
    have isStride : stride.IsEnd env step := by
      obtain ⟨value, isConst, -⟩ := Option.bind_eq_some_iff.mp isOffsets
      obtain ⟨_, rfl⟩ := Expr.asInt?_eq_some.mp isConst
      obtain ⟨_, evaluated, member⟩ := isStep
      cases evaluated
      rw [Value.ints_int, List.mem_singleton] at member
      subst member
      exact ⟨Expr.means_intConst _ _, same ▸ isInteger, same ▸ one⟩
    have isChild : base ∈ (Expr.ramp (base.dtype.withLanes lanes) base stride lanes).children := by
      simp [Expr.children]
    rw [← Option.some.inj equal]
    exact surroundsOn_add right
      (sound domain entries side inner (admits.child isChild (List.subset_append_left _ _) kept)
        isInteger first (means.child rfl isChild isFirst))
      ((surrounds_ofStride isStride inRange isOffsets).on side)
  next => exact (surrounds_everything env number).on side

/-- A domain describes the body of a binding with an entry for the bound variable. -/
theorem Describes.insert {name : Variable} {interval : Interval} {value : Value}
    {built : Side → List Expr} (describes : Describes domain entries env inner)
    (kinded : value.Kinded name.dtype)
    (surrounds : name.dtype.isInteger = true → ∀ number ∈ value.ints, ∀ side,
      (∀ converted ∈ built side, KeepsMeaning env converted) → interval.SurroundsOn env side number) :
    Describes (domain.insert name interval) (Function.update entries name built) env
      (inner.set name value) where
  kinded := describes.kinded.set kinded
  surrounds := by
    intro other entry found isInteger result isResult
    rw [Table.find?_insert] at found
    by_cases same : other = name
    · subst same
      rw [if_pos rfl] at found
      rw [Environment.set_self] at isResult
      cases found
      cases isResult
      rw [Function.update_self]
      exact surrounds isInteger
    · rw [if_neg same] at found
      rw [Environment.set_of_ne _ _ same] at isResult
      rw [Function.update_of_ne same]
      exact describes.surrounds other entry found isInteger result isResult
  outside := by
    intro other missing
    rw [Table.find?_insert] at missing
    by_cases same : other = name
    · rw [if_pos same] at missing
      cases missing
    · rw [if_neg same] at missing
      rw [Environment.set_of_ne _ _ same]
      exact describes.outside other missing

theorem soundOn_letIn {name : Variable} {value body : Expr} (soundValue : analyses.SoundOn env value)
    (soundBody : analyses.SoundOn env body) :
    analyses.SoundOn env (.letIn dtype name value body) := by
  apply SoundOn.of_parts (fun _ _ _ => Expr.noConfusion)
  intro domain entries side inner admits isInteger matter number means
  have typed := admits.typed
  rw [Expr.WellTyped] at typed
  obtain ⟨valueTyped, bodyTyped, sameType, rfl⟩ := typed
  have kept := admits.kept
  rw [conversions, if_neg (Bool.eq_false_iff.mp matter)] at kept
  rw [infer, if_neg (Bool.eq_false_iff.mp (not_isFixed_of_parts matter))]
  obtain ⟨result, means, member⟩ := means
  obtain ⟨bound, meansBound, meansBody⟩ := means.exists_letIn
  have isValue : value ∈ (Expr.letIn body.dtype name value body).children := by simp [Expr.children]
  have describes := admits.describes.insert
    (sameType ▸ Expr.evaluate_kinded valueTyped admits.describes.kinded meansBound.evaluates)
    fun isInteger read inBound used kept => soundValue domain entries used inner
      (admits.child isValue (List.subset_append_left _ _) kept) (sameType ▸ isInteger) read
      ⟨bound, meansBound, inBound⟩
  refine soundBody _ _ _ _ ⟨describes, bodyTyped, ?_, kept⟩ isInteger number
    ⟨result, meansBody, member⟩
  intro other occurs missing
  rw [Table.find?_insert] at missing
  by_cases same : other = name
  · rw [if_pos same] at missing
    cases missing
  · rw [if_neg same] at missing
    refine admits.scalars other (List.mem_append_right _ ?_) missing
    exact List.mem_filter.mpr ⟨occurs, by simpa using same⟩

/-- **The interval of every expression over integers surrounds what the expression means**, on each side
that is built from conversions that keep the meaning of the ends that they convert. -/
theorem soundOn (right : analyses.SoundIn env) (expr : Expr) : analyses.SoundOn env expr := by
  induction expr using Expr.childrenInduction with
  | step expr inductionHypothesis =>
    cases expr with
    | var dtype name => exact soundOn_var name
    | broadcast dtype value lanes =>
      exact soundOn_broadcast (inductionHypothesis value (by simp [Expr.children]))
    | binary dtype op lhs rhs =>
      exact soundOn_binary right (inductionHypothesis lhs (by simp [Expr.children]))
        (inductionHypothesis rhs (by simp [Expr.children]))
    | select dtype cond onTrue onFalse =>
      exact soundOn_select right (inductionHypothesis onTrue (by simp [Expr.children]))
        (inductionHypothesis onFalse (by simp [Expr.children]))
    | cast dtype value =>
      exact soundOn_cast (inductionHypothesis value (by simp [Expr.children]))
    | ramp dtype base stride lanes =>
      exact soundOn_ramp right (inductionHypothesis base (by simp [Expr.children]))
    | letIn dtype name value body =>
      exact soundOn_letIn (inductionHypothesis value (by simp [Expr.children]))
        (inductionHypothesis body (by simp [Expr.children]))
    | _ =>
      apply SoundOn.of_parts (fun _ _ _ => Expr.noConfusion)
      intro domain entries side inner _ _ matter number _
      rw [infer, if_neg (Bool.eq_false_iff.mp (not_isFixed_of_parts matter))]
      · exact (surrounds_everything env number).on side
      all_goals
        intros
        contradiction

end

end Analyses

end Interval

namespace Analyzer

/-- **The interval of an expression surrounds the values of the expression.** The expression is one
over integers with scalar variables, every variable of the domain lies between ends that mean
integers, and the analyses that the analyzer asks about ends are right where it asks them: right
analyses give the same interval. An end that the interval has then means an integer, and every lane of
the expression is on the right side of it. This holds as long as every conversion that the end is built
from keeps the meaning of what it converts, which the conversion of an end of another type than the
converted operand need not. -/
theorem inferInterval_surrounds {analyzer : Analyzer} {analyses : Interval.Analyses}
    {domain : Table Interval} {expr : Expr} {env : Environment} {number : Int} {side : Interval.Side}
    (sound : analyses.SoundIn env)
    (same : analyses.infer domain (analyzer.known.isolate expr) = analyzer.inferInterval domain expr)
    (kinded : env.Kinded)
    (inDomain : ∀ name interval, domain.find? name = some interval → ∀ value,
      env name = some value → ∀ number ∈ value.ints, interval.Surrounds env number)
    (typed : expr.WellTyped) (isInteger : expr.dtype.isInteger = true)
    (scalars : ∀ name ∈ expr.freeOccurrences, name.dtype.lanes = 1)
    (kept : ∀ converted ∈
        analyses.conversions domain (fun _ _ => []) side (analyzer.known.isolate expr),
      Interval.KeepsMeaning env converted)
    (means : expr.MeansLane env number) :
    (analyzer.inferInterval domain expr).SurroundsOn env side number := by
  have renamed := analyzer.known.isolate_renamed typed.namesTyped
  obtain ⟨value, means, member⟩ := means
  have meansRenamed := renamed.means (fun _ _ => rfl) means
  rw [← same]
  refine Interval.Analyses.soundOn sound _ domain (fun _ _ => []) side env
    ⟨⟨kinded, ?_, fun _ _ => rfl⟩, ?_, ?_, kept⟩ (renamed.dtype_eq ▸ isInteger) number
    ⟨value, meansRenamed, member⟩
  · exact fun name interval found _ value isValue number member side _ =>
      (inDomain name interval found value isValue number member).on side
  · exact renamed.wellTyped (fun _ _ => rfl) typed
  · intro name occurs _
    obtain ⟨other, isFree, rfl⟩ := renamed.exists_free occurs
    exact scalars other isFree

/-- With `x` from zero to ten, the sum of `y` and `x` as a wider integer is from `y` to `y + 10`. -/
theorem inferInterval_surrounds_sum :
    let narrow : DataType := .scalar .int 8
    let first : Variable := ⟨"x", narrow, false⟩
    let second : Variable := ⟨"y", .int32, false⟩
    let domain : Table Interval := [(first, .between (.intConst narrow 0) (.intConst narrow 10))]
    let expr := Expr.binary .int32 .add (.cast .int32 first.expr) second.expr
    let env := (Environment.empty.set first (.int 3)).set second (.int 5)
    (({} : Analyzer).inferInterval domain expr).Surrounds env 8 := by
  intro narrow first second domain expr env
  let low := Expr.binary .int32 .add (.cast .int32 (.intConst narrow 0)) second.expr
  let high := Expr.binary .int32 .add (.cast .int32 (.intConst narrow 10)) second.expr
  let simple := Expr.binary .int32 .add second.expr (.intConst .int32 10)
  let analyses : Interval.Analyses :=
    ⟨fun expr => if expr = low then second.expr else if expr = high then simple else expr,
      fun _ => .everything⟩
  have same : analyses.infer domain (({} : Analyzer).known.isolate expr) =
      ({} : Analyzer).inferInterval domain expr := by decide +kernel
  have isSecond : second.expr.IsEnd env 5 := ⟨Expr.means_var .int32 rfl, rfl, rfl⟩
  have isConst (dtype : DataType) (number : Int) : (Expr.intConst dtype number).Means env (.int number) :=
    Expr.means_intConst dtype number
  have isCast (number : Int) (fits : narrow.fits number = true)
      (fits' : DataType.int32.fits number = true) :
      (Expr.cast .int32 (.intConst narrow number)).Means env (.int number) :=
    Expr.means_cast (isConst narrow number) rfl (by decide) rfl fits fits'
  have isLow : low.Means env (.int 5) :=
    Expr.means_binary rfl (isCast 0 (by decide) (by decide)) isSecond.means rfl rfl rfl rfl
  have isHigh : high.Means env (.int 15) :=
    Expr.means_binary rfl (isCast 10 (by decide) (by decide)) isSecond.means rfl rfl rfl rfl
  have isSimple : simple.Means env (.int 15) :=
    Expr.means_binary rfl isSecond.means (isConst .int32 10) rfl rfl rfl rfl
  have reduces (expr : Expr) (value : Value) (means : expr.Means env value) :
      (analyses.reduce expr).Means env value ∧ (analyses.reduce expr).dtype = expr.dtype := by
    dsimp only [analyses]
    split
    next isLowest =>
      subst isLowest
      exact ⟨isLow.unique means ▸ isSecond.means, rfl⟩
    next =>
      split
      next isHighest =>
        subst isHighest
        exact ⟨isHigh.unique means ▸ isSimple, rfl⟩
      next => exact ⟨means, rfl⟩
  have sound : analyses.SoundIn env :=
    ⟨fun expr value means => (reduces expr value means).1,
      fun expr value means => (reduces expr value means).2, fun _ _ _ _ _ => Bound.contains_everything _⟩
  have converted (side : Interval.Side) :
      analyses.conversions domain (fun _ _ => []) side (({} : Analyzer).known.isolate expr) =
        [.cast .int32 (.intConst narrow (if side = .lower then 0 else 10))] := by
    cases side <;> decide +kernel
  refine Interval.surrounds_of_both fun side _ =>
    inferInterval_surrounds sound same ?_ ?_ (by decide) rfl (by decide) ?_ ?_
  · intro name value isValue
    rcases Environment.cases_of_set_set isValue with ⟨rfl, rfl⟩ | ⟨rfl, rfl⟩ <;>
      exact Value.kinded_int _ rfl rfl
  · intro name interval found value isValue number member
    rcases Environment.cases_of_set_set isValue with ⟨rfl, rfl⟩ | ⟨rfl, rfl⟩ <;> cases found
    rw [Value.ints_int, List.mem_singleton] at member
    subst member
    exact Interval.surrounds_between ⟨isConst narrow 0, rfl, rfl⟩ ⟨isConst narrow 10, rfl, rfl⟩
      (by decide) (by decide)
  · rw [converted, List.forall_mem_singleton]
    refine Interval.keepsMeaning_of_widens rfl (by decide) rfl (isCast _ ?_ ?_).castsFit
    all_goals cases side <;> decide
  · have isFirst : (Expr.cast .int32 first.expr).Means env (.int 3) :=
      Expr.means_cast (Expr.means_var narrow rfl) rfl (by decide) rfl (by decide) (by decide)
    exact ⟨.int 8, Expr.means_binary rfl isFirst isSecond.means rfl rfl rfl rfl, by simp⟩

/-- A conversion need not keep the meaning of an end of another type than the converted operand. For
`x` of eight bits from zero to `n` of 64 bits, `x` as an integer of 32 bits is given the upper end
`n` as an integer of 32 bits. It means zero if `n` is `2 ^ 32`, while `x` may be five. No analysis
is asked about an end here, so that all of them are right. -/
theorem inferInterval_converts_wider_end :
    let narrow : DataType := .scalar .int 8
    let first : Variable := ⟨"x", narrow, false⟩
    let last : Variable := ⟨"n", .int64, false⟩
    let domain : Table Interval := [(first, .between (.intConst narrow 0) last.expr)]
    let expr := Expr.cast .int32 first.expr
    let env := (Environment.empty.set first (.int 5)).set last (.int (twoPow 32))
    (∀ analyses : Interval.Analyses, analyses.infer domain (({} : Analyzer).known.isolate expr) =
        ({} : Analyzer).inferInterval domain expr) ∧
      (∀ interval, domain.find? first = some interval → interval.Surrounds env 5) ∧
      expr.Means env (.int 5) ∧
      ∃ upper, (({} : Analyzer).inferInterval domain expr).upper = some upper ∧
        upper.Means env (.int 0) := by
  intro narrow first last domain expr env
  have isLast : last.expr.Means env (.int (twoPow 32)) := Expr.means_var .int64 rfl
  have isFirst : first.expr.Means env (.int 5) := Expr.means_var narrow rfl
  refine ⟨fun _ => rfl, ?_, Expr.means_cast isFirst rfl (by decide) rfl (by decide) (by decide),
    .cast .int32 last.expr, rfl, ?_, ?_⟩
  · intro interval found
    cases found
    exact Interval.surrounds_between ⟨Expr.means_intConst narrow 0, rfl, rfl⟩ ⟨isLast, rfl, rfl⟩
      (by decide) (by decide)
  · rfl
  · refine Expr.castsFit_cast isLast.castsFit fun value isValue number member => ?_
    cases isLast.evaluates.symm.trans isValue
    rw [Value.ints_int, List.mem_singleton] at member
    subst member
    decide +kernel

end Analyzer

end IndexAlgebra
