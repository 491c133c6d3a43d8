/-
This file proves what flattening ends with. A round of putting together takes the first quotient of a sum
that has its remainder beside it, and no rounds go on for ever: they lead to a sum without such a
pair, unless a round leaves the range of words. The sum form of every expression is without pairs, and
the fuel that is found for an expression is enough.
-/
import IndexAlgebra.Analyzer.Canonical
import Mathlib.Logic.Relation

namespace IndexAlgebra

namespace SumForm

/-- A division calls itself for what is left where that is a constant, and the division of a constant
calls no other one. -/
theorem splitRest?_of_asConst? {divide : Divide} {bound : Expr → Bound} {kind : Split} {divisor : Int}
    {rest : SumForm} {value : Int} (isConst : rest.asConst? = some value) :
    rest.splitRest? divide kind divisor = rest.split? divide bound kind divisor ∧
      rest.split? divide bound kind divisor =
        (rest.splitExact? divide kind divisor).or (splitConstant? kind divisor rest.dtype value) := by
  unfold splitRest? split?
  rw [isConst]
  cases rest.splitExact? divide kind divisor <;> exact ⟨rfl, rfl⟩

end SumForm

namespace Flattening

/-! ### Rounds of putting together -/

variable {setting : Setting} {fuel : Nat} {expr : Expr} {sum : SumForm} {next? : Option SumForm}

/-- One round of putting together: the first pair of the sum is replaced by the sum form of its dividend,
unless that leaves the range of words. -/
def Round (setting : Setting) (sum : SumForm) (next? : Option SumForm) : Prop :=
  ∃ fuel pair dividend, sum.findPair? = some pair ∧ sumOf? setting fuel pair.dividend = some dividend ∧
    (dividend.scale? pair.coefficient).bind (sum.withoutPair pair).add? = next?

/-- A round leaves a sum for the next one. -/
def Rounds (setting : Setting) (sum next : SumForm) : Prop := Round setting sum (some next)

/-- What is put together went through rounds to a sum without a pair, or to one whose pair leaves the
range of words. -/
theorem exists_last_of_recombine? (recombined : recombine? setting fuel sum = some next?) :
    ∃ last, Relation.ReflTransGen (Rounds setting) sum last ∧
      (last.findPair? = none ∧ next? = some last ∨ Round setting last none ∧ next? = none) := by
  induction fuel generalizing sum with
  | zero => cases recombined
  | succ fuel inductionHypothesis =>
    unfold recombine? at recombined
    split at recombined
    next noPair =>
      cases recombined
      exact ⟨sum, .refl, .inl ⟨noPair, rfl⟩⟩
    next pair found =>
      obtain ⟨dividend, isDividend, recombined⟩ := Option.bind_eq_some_iff.mp recombined
      split at recombined
      next next together =>
        obtain ⟨last, rounds, ends⟩ := inductionHypothesis recombined
        exact ⟨last, .head ⟨fuel, pair, dividend, found, isDividend, together⟩ rounds, ends⟩
      next overflows =>
        cases recombined
        exact ⟨sum, .refl, .inr ⟨⟨fuel, pair, dividend, found, isDividend, overflows⟩, rfl⟩⟩

/-- No rounds go on for ever from a sum whose putting together ends. -/
theorem acc_of_recombine? (recombined : recombine? setting fuel sum = some next?) :
    Acc (fun next sum => Rounds setting sum next) sum := by
  induction fuel generalizing sum with
  | zero => cases recombined
  | succ fuel inductionHypothesis =>
    refine Acc.intro sum fun next ⟨more, pair, dividend, found, isDividend, together⟩ => ?_
    rw [recombine?, found] at recombined
    obtain ⟨dividend', isDividend', recombined⟩ := Option.bind_eq_some_iff.mp recombined
    obtain rfl := sumOf?_unique isDividend' isDividend
    rw [together] at recombined
    exact inductionHypothesis recombined

/-- In a sum form every quotient is put together with its remainder. -/
theorem findPair?_of_sumOf? (isSum : sumOf? setting fuel expr = some sum) : sum.findPair? = none := by
  have leaf : ∀ {leaf?}, Option.map SumForm.ofLeaf leaf? = some sum → sum.findPair? = none := by
    intro leaf? isLeaf
    obtain ⟨leaf, -, rfl⟩ := Option.map_eq_some_iff.mp isLeaf
    rfl
  cases fuel with
  | zero => cases isSum
  | succ fuel =>
    unfold sumOf? at isSum
    split at isSum
    next =>
      split at isSum
      all_goals
        cases isSum
        rfl
    next =>
      split at isSum
      next =>
        obtain ⟨sum?, -, isSum⟩ := Option.bind_eq_some_iff.mp isSum
        split at isSum
        next =>
          obtain ⟨result?, recombined, isSum⟩ := Option.bind_eq_some_iff.mp isSum
          split at isSum
          next =>
            cases isSum
            obtain ⟨last, -, ⟨noPair, equal⟩ | ⟨-, equal⟩⟩ := exists_last_of_recombine? recombined
            · cases equal
              exact noPair
            · cases equal
          next => exact leaf isSum
        next => exact leaf isSum
      next => exact leaf isSum
    next => exact leaf isSum

/-! ### Fuel that is enough -/

theorem isSome_enoughFuel (keeps : setting.divide.KeepsProducts) (expr : Expr) (fuel : Nat) :
    (flatten? setting (enoughFuel setting keeps expr fuel) expr).isSome := by
  fun_induction enoughFuel setting keeps expr fuel with
  | case1 fuel isEnough => exact isEnough
  | case2 fuel _ inductionHypothesis => exact inductionHypothesis

/-- The fuel that is found for an expression is enough. -/
theorem isSome_flatten?_fuelFor (exact : setting.divide = SumForm.divideExact?) (expr : Expr) :
    (flatten? setting (fuelFor setting expr) expr).isSome := by
  obtain ⟨bound, divide, maxTerms⟩ := setting
  obtain rfl : divide = SumForm.divideExact? := exact
  unfold fuelFor
  dsimp only
  split
  next isEnough => exact isEnough
  next => exact isSome_enoughFuel _ expr _

/-- What flattening answers is what it ends with. -/
theorem flatten?_of_fuelFor_le (exact : setting.divide = SumForm.divideExact?)
    (enough : fuelFor setting expr ≤ fuel) :
    flatten? setting fuel expr = some (flatten setting expr) := by
  obtain ⟨result, isResult⟩ := Option.isSome_iff_exists.mp (isSome_flatten?_fuelFor exact expr)
  rw [flatten, isResult]
  exact (grows_of_le enough).flatten expr result isResult

end Flattening

namespace Analyzer

open Flattening

/-- Flattening terminates for every analyzer and every expression, whatever its limits. The expression
that is answered is the one that every fuel from some point on ends with. Every expression has a sum
form, in which no quotient has its remainder beside it, and so the sum form of every binary node ends.
A division calls itself for a constant alone, where it calls no other. No rounds of putting a quotient
and its remainder together go on for ever: every sum is brought to one without a pair, or to one where
the next round leaves the range of words and the node stays an atom. -/
theorem flatten_terminates (analyzer : Analyzer) :
    (∀ expr fuel, fuelFor analyzer.flattening expr ≤ fuel →
      flatten? analyzer.flattening fuel expr = some (analyzer.flatten expr)) ∧
    (∀ expr, ∃ enough sum, sum.findPair? = none ∧
      ∀ fuel, enough ≤ fuel → sumOf? analyzer.flattening fuel expr = some sum) ∧
    (∀ op lhs rhs, ∃ enough sum?,
      ∀ fuel, enough ≤ fuel → binarySum? analyzer.flattening fuel op lhs rhs = some sum?) ∧
    (∀ kind divisor (rest : SumForm) value, rest.asConst? = some value →
      rest.splitRest? analyzer.flattening.divide kind divisor =
          rest.split? analyzer.flattening.divide analyzer.flattening.bound kind divisor ∧
        rest.split? analyzer.flattening.divide analyzer.flattening.bound kind divisor =
          (rest.splitExact? analyzer.flattening.divide kind divisor).or
            (SumForm.splitConstant? kind divisor rest.dtype value)) ∧
    WellFounded (fun next sum => Rounds analyzer.flattening sum next) ∧
    ∀ sum, ∃ enough last, Relation.ReflTransGen (Rounds analyzer.flattening) sum last ∧
      (last.findPair? = none ∧
          (∀ fuel, enough ≤ fuel → recombine? analyzer.flattening fuel sum = some (some last)) ∨
        Round analyzer.flattening last none ∧
          ∀ fuel, enough ≤ fuel → recombine? analyzer.flattening fuel sum = some none) := by
  have keeps : analyzer.flattening.divide.KeepsProducts := SumForm.divideExact?_keepsProducts
  refine ⟨fun expr fuel enough => flatten?_of_fuelFor_le rfl enough, fun expr => ?_,
    fun op lhs rhs => ?_, fun kind divisor rest value => SumForm.splitRest?_of_asConst?,
    ⟨fun sum => ?_⟩, fun sum => ?_⟩
  · obtain ⟨enough, sum, isSum⟩ := hasSum keeps expr
    exact ⟨enough, sum, findPair?_of_sumOf? isSum,
      fun fuel isEnough => (grows_of_le isEnough).sumOf expr sum isSum⟩
  · obtain ⟨enough, sum?, isSum⟩ := exists_binarySum? op (hasSum keeps lhs) (hasSum keeps rhs)
    exact ⟨enough, sum?, fun fuel isEnough => (grows_of_le isEnough).binarySum op lhs rhs sum? isSum⟩
  · obtain ⟨enough, result?, recombined⟩ := recombines keeps sum
    exact acc_of_recombine? recombined
  · obtain ⟨enough, result?, recombined⟩ := recombines keeps sum
    have ends : ∀ fuel, enough ≤ fuel → recombine? analyzer.flattening fuel sum = some result? :=
      fun fuel isEnough => (grows_of_le isEnough).recombine sum result? recombined
    obtain ⟨last, rounds, ⟨noPair, rfl⟩ | ⟨overflows, rfl⟩⟩ := exists_last_of_recombine? recombined
    · exact ⟨enough, last, rounds, .inl ⟨noPair, ends⟩⟩
    · exact ⟨enough, last, rounds, .inr ⟨overflows, ends⟩⟩

/-- Two rounds. The dividend that is put together by three is `x / 4 * 4 + y`, whose quotient finds the
remainder of `x` beside it. -/
example :
    let first : Variable := ⟨"x", .int32, false⟩
    let second : Variable := ⟨"y", .int32, false⟩
    let node := Expr.binary .int32
    let four := Expr.intConst .int32 4
    let dividend := node .add (node .mul (node .floorDiv first.expr four) four) second.expr
    let sum : SumForm :=
      ⟨.int32, [([.split dividend 3 .floorDiv], 3), ([.split dividend 3 .floorMod], 1),
        ([.split first.expr 4 .floorMod], 1)], 0⟩
    recombine? ({} : Analyzer).flattening 20 sum =
      some (some ⟨.int32, [([.leaf first.expr], 1), ([.leaf second.expr], 1)], 0⟩) := by
  decide +kernel

end Analyzer

end IndexAlgebra
