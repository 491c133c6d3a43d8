/-
This file proves when the bound of an expression in a scope lies within its bound outside. Some
assignment has to satisfy what is known outside and the condition of the scope. Then no node is looser
inside exactly if every node keeps the range that its query falls back to outside. An expression for which
the query never falls back is therefore never looser in a scope. The quotient of two variables can be: its
bound outside is the range of its type, and a divisor that is known to be negative gives it one that
reaches beyond that range.
-/
import IndexAlgebra.Proofs.RenamedBound

namespace IndexAlgebra

/-! ### Comparisons with constants -/

section

variable {env : Environment} {dtype : DataType} {name : Variable} {number limit : Int} {expr : Expr}

theorem Expr.staysInside_var (isValue : env name = some (.int number)) (inside : Word.Inside number) :
    name.expr.StaysInside env :=
  staysInside_of_children rfl isValue (by simpa using inside)
    fun _ isChild => absurd isChild List.not_mem_nil

/-- A true comparison with a constant stays inside the ends if the other operand does. -/
theorem Expr.holdsInside_comparison {op : BinaryOp}
    (typed : (Expr.binary .bool op expr (.intConst dtype limit)).WellTyped)
    (isTrue : (Expr.binary .bool op expr (.intConst dtype limit)).eval env = some (.bool true))
    (inside : expr.StaysInside env) (insideLimit : Word.Inside limit) :
    (Expr.binary .bool op expr (.intConst dtype limit)).HoldsInside env := by
  have ofLimit : (Expr.intConst dtype limit).StaysInside env :=
    staysInside_of_children rfl rfl (by simpa using insideLimit)
      fun _ isChild => absurd isChild List.not_mem_nil
  refine ⟨typed, isTrue, staysInside_of_children rfl isTrue (by simpa using by decide) ?_⟩
  simp only [children, List.forall_mem_cons]
  exact ⟨inside, ofLimit, fun _ isChild => absurd isChild List.not_mem_nil⟩

end

namespace Analyzer

open Knowledge

/-! ### The bound in a scope -/

/-- What is known in the scope of the condition. -/
def knownUnder (analyzer : Analyzer) (cond : Expr) : Knowledge :=
  (analyzer.enterScope (some cond)).2.known

/-- No node of the expression has a looser bound in the scope of the condition than outside. -/
def LoosensNowhere (analyzer : Analyzer) (cond expr : Expr) : Prop :=
  Everywhere analyzer.known (analyzer.knownUnder cond)
    (NoLooser analyzer.known (analyzer.knownUnder cond)) [] []
    ((analyzer.knownUnder cond).isolate expr)

/-- Wherever the query for a node of the expression falls back to the range of its type outside, the
bound of the node in the scope of the condition is in that range. -/
def KeepsRanges (analyzer : Analyzer) (cond expr : Expr) : Prop :=
  Everywhere analyzer.known (analyzer.knownUnder cond)
    (KeepsRange analyzer.known (analyzer.knownUnder cond)) [] []
    ((analyzer.knownUnder cond).isolate expr)

variable {analyzer : Analyzer} {env : Environment} {cond expr : Expr}

/-- Renaming apart keeps all parts of an expression without floating-point nodes. -/
theorem integral_of_mem_isolate {known : Knowledge} (typed : expr.WellTyped) (integral : expr.Integral) :
    ∀ node ∈ (known.isolate expr).postOrder, known.recordedBounds node ≠ [] → node.Integral := by
  have ofIsolated : (known.isolate expr).Integral :=
    (known.isolate_renamed typed.namesTyped).integral integral
  intro node isNode _
  exact Expr.of_mem_postOrder (fun _ integral => (Expr.integral_iff.mp integral).2) _ ofIsolated isNode

/-- Under an assignment that satisfies what is known, no node is looser exactly if every node keeps the
range that its query falls back to. -/
theorem loosensNowhere_iff (satisfied : analyzer.known.SatisfiedBy env) (holds : cond.HoldsInside env)
    (reduced : (analyzer.reduce (analyzer.known.isolate cond)).HoldsInside env)
    (typed : expr.WellTyped)
    (integral : ∀ node ∈ ((analyzer.knownUnder cond).isolate expr).postOrder,
      (analyzer.knownUnder cond).recordedBounds node ≠ [] → node.Integral) :
    analyzer.LoosensNowhere cond expr ↔ analyzer.KeepsRanges cond expr := by
  have grows : (analyzer.knownUnder cond).Extends analyzer.known := extends_enterScope _ _ _
  have consistent : (analyzer.knownUnder cond).Consistent :=
    (satisfiedBy_enterScope satisfied holds reduced).consistent
  have related := (analyzer.knownUnder cond).isolate_renamed typed.namesTyped
  have isolates : (analyzer.knownUnder cond).Isolates ((analyzer.knownUnder cond).isolate expr) :=
    ⟨related.wellTyped (fun _ _ => rfl) typed, (analyzer.knownUnder cond).isolate_apart expr, integral⟩
  exact everywhere_noLooser_iff grows consistent isolates (fun _ _ => rfl)
    ⟨fun _ _ found => absurd found.symm (Option.some_ne_none _), fun _ _ => rfl⟩

/-- Where no node is looser, the bound of the expression is not. -/
theorem LoosensNowhere.isSubsetOf (nowhere : analyzer.LoosensNowhere cond expr) (typed : expr.WellTyped)
    (plain : expr.hasLet = true → analyzer.known.RecordsPlain) :
    ((analyzer.knownUnder cond).inferBound expr).isSubsetOf (analyzer.known.inferBound expr) = true := by
  have same : analyzer.known.inferBound expr =
      analyzer.known.boundWithin [] ((analyzer.knownUnder cond).isolate expr) :=
    inferBound_eq_boundWithin typed (names_subset_enterScope _ _ _) plain
  rw [same]
  exact nowhere.here

/-- Where the query falls back for no node of the expression, there are no ranges to keep. -/
theorem keepsRanges_of_neverFallsBack (typed : expr.WellTyped) (never : expr.NeverFallsBack) :
    analyzer.KeepsRanges cond expr :=
  everywhere_keepsRange
    (((analyzer.knownUnder cond).isolate_renamed typed.namesTyped).neverFallsBack never)

/-- **Assuming more loosens no bound but by leaving a fallback.** Let an assignment satisfy the bounds that
are known, and let the condition and its simplified form be true in it. No node of the expression has a
looser bound in the scope of the condition exactly if every node whose query falls back outside keeps the
range of its type, and then the bound of the expression in the scope lies within the one outside. Two things
are asked of what is recorded: by `plain`, no bound of an expression with bindings, if the expression has
bindings itself (`inferBound_loosens_renamed` shows why), and by `integral`, no bound of a node of it that
computes with floating-point numbers. -/
theorem inferBound_narrows (satisfied : analyzer.known.SatisfiedBy env) (holds : cond.HoldsInside env)
    (reduced : (analyzer.reduce (analyzer.known.isolate cond)).HoldsInside env)
    (typed : expr.WellTyped) (plain : expr.hasLet = true → analyzer.known.RecordsPlain)
    (integral : ∀ node ∈ ((analyzer.knownUnder cond).isolate expr).postOrder,
      (analyzer.knownUnder cond).recordedBounds node ≠ [] → node.Integral) :
    (analyzer.LoosensNowhere cond expr ↔ analyzer.KeepsRanges cond expr) ∧
      (analyzer.KeepsRanges cond expr →
        ((analyzer.knownUnder cond).inferBound expr).isSubsetOf (analyzer.known.inferBound expr) =
          true) := by
  have equivalent := loosensNowhere_iff satisfied holds reduced typed integral
  exact ⟨equivalent, fun keeps => (equivalent.mpr keeps).isSubsetOf typed plain⟩

/-- Nothing is recorded at the start. -/
theorem satisfiedBy_start (typed : env.Typed) : ({} : Analyzer).known.SatisfiedBy env :=
  ⟨typed, fun _ _ found => absurd found.symm (Option.some_ne_none _),
    fun _ _ isGlobal => absurd isGlobal List.not_mem_nil,
    fun _ _ isFact => absurd isFact List.not_mem_nil⟩

/-- The quotient of four by a negative divisor is at least minus four, which is in the range that the
query falls back to for any divisor. -/
theorem inferBound_narrows_quotient :
    let divisor : Variable := ⟨"y", .int32, false⟩
    let cond := Expr.binary .bool .lt divisor.expr (.intConst .int32 0)
    let expr := Expr.binary .int32 .truncDiv (.intConst .int32 4) divisor.expr
    let env := Environment.empty.set divisor (.int (-1))
    cond.eval env = some (.bool true) ∧ ({} : Analyzer).KeepsRanges cond expr ∧
      ((({} : Analyzer).knownUnder cond).inferBound expr).isSubsetOf
        (({} : Analyzer).known.inferBound expr) = true := by
  intro divisor cond expr env
  have isTrue : cond.eval env = some (.bool true) := rfl
  have typed : env.Typed := Environment.typed_empty.set_int rfl (by decide) (by decide)
  have holds : cond.HoldsInside env :=
    Expr.holdsInside_comparison (by decide) isTrue (Expr.staysInside_var rfl (by decide)) (by decide)
  have reduced : ({} : Analyzer).reduce cond = cond := by decide +kernel
  have isolated : (({} : Analyzer).knownUnder cond).isolate expr = expr :=
    Knowledge.isolate_of_hasLet _ rfl
  have keeps : ({} : Analyzer).KeepsRanges cond expr := by
    unfold KeepsRanges
    rw [isolated]
    refine .node rfl (fun _ => ?_) fun operand isOperand => everywhere_keepsRange ?_
    · show ((({} : Analyzer).knownUnder cond).boundWithin [] expr).fits .int32 = true
      decide +kernel
    · simp only [expr, Expr.children, List.mem_cons, List.not_mem_nil, or_false] at isOperand
      rcases isOperand with rfl | rfl <;> decide
  have narrows := inferBound_narrows (satisfiedBy_start typed) holds (reduced.symm ▸ holds)
    (by decide : expr.WellTyped) (fun hasLet => absurd hasLet (by decide))
    (integral_of_mem_isolate (by decide) (by decide))
  exact ⟨isTrue, keeps, narrows.2 keeps⟩

/-- The quotient of two variables reaches beyond the range of its type once the divisor is known to be
negative, whereas the range bounds it while the divisor may be zero. -/
theorem inferBound_loosens_quotient :
    ¬ ∀ (analyzer : Analyzer) (cond expr : Expr) (env : Environment), expr.WellTyped → expr.Integral →
      analyzer.known.SatisfiedBy env → cond.HoldsInside env →
      (analyzer.reduce (analyzer.known.isolate cond)).HoldsInside env →
      ((analyzer.knownUnder cond).inferBound expr).isSubsetOf (analyzer.known.inferBound expr) = true := by
  intro narrows
  let dividend : Variable := ⟨"x", .int32, false⟩
  let divisor : Variable := ⟨"y", .int32, false⟩
  let cond := Expr.binary .bool .lt divisor.expr (.intConst .int32 0)
  let expr := Expr.binary .int32 .truncDiv dividend.expr divisor.expr
  let env := (Environment.empty.set dividend (.int 0)).set divisor (.int (-1))
  have typed : env.Typed := (Environment.typed_empty.set_int rfl (by decide) (by decide)).set_int rfl
    (by decide) (by decide)
  have holds : cond.HoldsInside env :=
    Expr.holdsInside_comparison (by decide) rfl (Expr.staysInside_var rfl (by decide)) (by decide)
  have reduced : ({} : Analyzer).reduce cond = cond := by decide +kernel
  have subset := narrows {} cond expr env (by decide) (by decide) (satisfiedBy_start typed) holds
    (reduced.symm ▸ holds)
  have outside : ({} : Analyzer).known.inferBound expr = .ofInts (-2147483648) 2147483647 := by
    decide +kernel
  have inside : (({} : Analyzer).knownUnder cond).inferBound expr = .ofInts (-2147483647) 2147483648 := by
    decide +kernel
  rw [outside, inside] at subset
  exact absurd subset (by decide)

/-- A bound that is recorded for an expression with bindings is lost in a scope whose condition reads a
variable with the name of a bound one, since the bound variable gets another name there. -/
theorem inferBound_loosens_renamed :
    ¬ ∀ (analyzer : Analyzer) (cond expr : Expr) (env : Environment), expr.WellTyped → expr.Integral →
      analyzer.known.SatisfiedBy env → cond.HoldsInside env →
      (analyzer.reduce (analyzer.known.isolate cond)).HoldsInside env → analyzer.KeepsRanges cond expr →
      ((analyzer.knownUnder cond).inferBound expr).isSubsetOf (analyzer.known.inferBound expr) = true := by
  intro narrows
  let name : Variable := ⟨"x", .int32, false⟩
  let bound : Variable := ⟨"t", .int32, false⟩
  let square (factor : Expr) := Expr.binary .int32 .mul factor factor
  let expr := Expr.letIn .int32 bound name.expr (square bound.expr)
  let small := Expr.binary .bool .lt expr (.intConst .int32 6)
  let cond := Expr.binary .bool .lt bound.expr (.intConst .int32 100)
  let env := (Environment.empty.set name (.int 1)).set bound (.int 1)
  let analyzer := (({} : Analyzer).enterScope (some small)).2
  have ofSquare : ∀ {env : Environment} {factor : Variable}, env factor = some (.int 1) →
      (square factor.expr).eval env = some (.int 1) → (square factor.expr).StaysInside env := by
    intro env factor isValue isSquare
    have ofFactor := Expr.staysInside_var isValue (by decide)
    refine Expr.staysInside_of_children rfl isSquare (by simpa using by decide) ?_
    simp only [square, Expr.children, List.forall_mem_cons]
    exact ⟨ofFactor, ofFactor, fun _ isChild => absurd isChild List.not_mem_nil⟩
  have ofExpr : expr.StaysInside env :=
    Expr.staysInside_letIn rfl (Expr.staysInside_var rfl (by decide)) (ofSquare rfl rfl)
  have typed : env.Typed := (Environment.typed_empty.set_int rfl (by decide) (by decide)).set_int rfl
    (by decide) (by decide)
  have isSmall : small.HoldsInside env :=
    Expr.holdsInside_comparison (by decide) rfl ofExpr (by decide)
  have isReduced : (Expr.binary .bool .lt (square name.expr) (.intConst .int32 6)).HoldsInside env :=
    Expr.holdsInside_comparison (by decide) rfl (ofSquare rfl rfl) (by decide)
  have reducedSmall : ({} : Analyzer).reduce (({} : Analyzer).known.isolate small) =
      .binary .bool .lt (square name.expr) (.intConst .int32 6) := by decide +kernel
  have satisfied : analyzer.known.SatisfiedBy env :=
    satisfiedBy_enterScope (satisfiedBy_start typed) isSmall (by rw [reducedSmall]; exact isReduced)
  have holds : cond.HoldsInside env :=
    Expr.holdsInside_comparison (by decide) rfl (Expr.staysInside_var rfl (by decide)) (by decide)
  have reduced : analyzer.reduce (analyzer.known.isolate cond) = cond := by decide +kernel
  have subset := narrows analyzer cond expr env (by decide) (by decide) satisfied holds
    (by rw [reduced]; exact holds) (keepsRanges_of_neverFallsBack (by decide) (by decide))
  have loosens : ((analyzer.knownUnder cond).inferBound expr).isSubsetOf
      (analyzer.known.inferBound expr) = false := by decide +kernel
  exact absurd (subset.symm.trans loosens) (by decide)

/-- An expression whose nodes all have bounds of their own is never looser in a scope. -/
theorem inferBound_narrows_of_neverFallsBack (satisfied : analyzer.known.SatisfiedBy env)
    (holds : cond.HoldsInside env)
    (reduced : (analyzer.reduce (analyzer.known.isolate cond)).HoldsInside env)
    (typed : expr.WellTyped) (integral : expr.Integral) (never : expr.NeverFallsBack)
    (plain : expr.hasLet = true → analyzer.known.RecordsPlain) :
    ((analyzer.knownUnder cond).inferBound expr).isSubsetOf (analyzer.known.inferBound expr) = true :=
  have nowhere := (loosensNowhere_iff satisfied holds reduced typed
    (integral_of_mem_isolate typed integral)).mpr (keepsRanges_of_neverFallsBack typed never)
  nowhere.isSubsetOf typed plain

end Analyzer

end IndexAlgebra
