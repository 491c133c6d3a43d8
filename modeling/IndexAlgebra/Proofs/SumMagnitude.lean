/-
This file says when the arithmetic of sums has results. The magnitude of a sum is that of its
coefficients and its constant together. A sum or difference has a result if the magnitudes of both
operands are together a word, and a multiple or product has one if their product is.
-/
import IndexAlgebra.Proofs.SumContent
import Mathlib.Algebra.Order.BigOperators.Group.List

namespace IndexAlgebra

theorem Word.ofInt?_of_natAbs_le {value : Int} (small : value.natAbs ≤ greatest.natAbs) :
    ofInt? value = some value := by
  refine ofInt?_eq_some_iff.mpr ⟨?_, rfl⟩
  unfold Fits least greatest at *
  omega

namespace SumForm

open Word

variable {terms : List (Product × Int)} {product : Product} {coefficient : Int}
  {left right sum result : SumForm}

/-- The sum of the magnitudes of the coefficients. -/
def termsMagnitude (terms : List (Product × Int)) : Nat :=
  (terms.map fun term => term.2.natAbs).sum

@[simp]
theorem termsMagnitude_nil : termsMagnitude [] = 0 := rfl

@[simp]
theorem termsMagnitude_cons (term : Product × Int) (terms : List (Product × Int)) :
    termsMagnitude (term :: terms) = term.2.natAbs + termsMagnitude terms := List.sum_cons

/-- The sum of the magnitudes of the coefficients and the constant. -/
def magnitude (sum : SumForm) : Nat := termsMagnitude sum.terms + sum.constant.natAbs

/-! ### Addition -/

theorem exists_insertTerm? (product : Product)
    (room : termsMagnitude terms + coefficient.natAbs ≤ greatest.natAbs) :
    ∃ inserted, insertTerm? product coefficient terms = some inserted ∧
      termsMagnitude inserted ≤ termsMagnitude terms + coefficient.natAbs := by
  induction terms with
  | nil => exact ⟨_, rfl, by simp⟩
  | cons term rest inductionHypothesis =>
    obtain ⟨first, value⟩ := term
    rw [termsMagnitude_cons] at room ⊢
    rw [insertTerm?]
    split
    next => exact ⟨_, rfl, by simp; omega⟩
    next =>
      have total : Word.add? value coefficient = some (value + coefficient) :=
        ofInt?_of_natAbs_le (by omega)
      rw [total]
      refine ⟨_, rfl, ?_⟩
      dsimp only
      split
      next => omega
      next =>
        rw [termsMagnitude_cons]
        omega
    next =>
      obtain ⟨tail, isTail, small⟩ := inductionHypothesis (by omega)
      refine ⟨_, by rw [isTail, Option.map_some], ?_⟩
      rw [termsMagnitude_cons]
      omega

/-- The step has a result where the magnitudes of the terms and an amount are together a word. It
leaves the constant as it is and raises the magnitude by the amount at most. -/
def Spends (amount : Nat) (step : SumForm → Option SumForm) : Prop :=
  ∀ sum : SumForm, termsMagnitude sum.terms + amount ≤ greatest.natAbs →
    ∃ result, step sum = some result ∧ result.constant = sum.constant ∧
      termsMagnitude result.terms ≤ termsMagnitude sum.terms + amount

theorem spends_term (product : Product) (coefficient : Int) :
    Spends coefficient.natAbs fun sum => sum.addTerm? product coefficient := by
  intro sum room
  unfold addTerm?
  split
  next => exact ⟨sum, rfl, rfl, Nat.le_add_right _ _⟩
  next =>
    obtain ⟨inserted, inserts, small⟩ := exists_insertTerm? product room
    exact ⟨{ sum with terms := inserted }, by simp only [inserts, Option.map_some], rfl, small⟩

theorem spends_product (product : Product) (left right : Int) :
    Spends (left.natAbs * right.natAbs)
      (fun sum => do sum.addTerm? product (← Word.mul? left right)) := by
  intro sum room
  rw [← Int.natAbs_mul] at room ⊢
  have isProduct : Word.mul? left right = some (left * right) := ofInt?_of_natAbs_le (by omega)
  simp only [isProduct, Option.bind_eq_bind, Option.bind_some]
  exact spends_term product (left * right) sum room

theorem spends_foldlM {β : Type} {step : SumForm → β → Option SumForm} (amount : β → Nat)
    {parts : List β} (each : ∀ part ∈ parts, Spends (amount part) fun sum => step sum part) :
    Spends (parts.map amount).sum fun sum => parts.foldlM step sum := by
  refine foldlM_of_steps Spends (fun sum _ => ⟨sum, rfl, rfl, Nat.le_add_right _ _⟩)
    (fun first second before after spends spends' sum room => ?_) amount each
  obtain ⟨between, isBetween, sameConstant, small⟩ := spends sum (by omega)
  obtain ⟨result, isResult, sameConstant', small'⟩ := spends' between (by omega)
  exact ⟨result, Option.bind_eq_some_iff.mpr ⟨between, isBetween, isResult⟩,
    sameConstant'.trans sameConstant, by omega⟩

theorem exists_addTerm? (product : Product)
    (small : sum.magnitude + coefficient.natAbs ≤ greatest.natAbs) :
    ∃ result, sum.addTerm? product coefficient = some result := by
  unfold magnitude at small
  obtain ⟨result, isResult, -⟩ := spends_term product coefficient sum (by omega)
  exact ⟨result, isResult⟩

theorem exists_add? (small : left.magnitude + right.magnitude ≤ greatest.natAbs) :
    ∃ sum, left.add? right = some sum := by
  unfold magnitude at small
  obtain ⟨total, isTotal, sameConstant, -⟩ := spends_foldlM _
    (fun term (_ : term ∈ right.terms) => spends_term term.1 term.2) left
    (show _ + termsMagnitude right.terms ≤ _ by omega)
  have isConstant : Word.add? total.constant right.constant = some _ :=
    ofInt?_of_natAbs_le (by rw [sameConstant]; omega)
  exact ⟨_, Option.bind_eq_some_iff.mpr ⟨total, isTotal, by rw [isConstant]; rfl⟩⟩

/-! ### Multiples -/

theorem natAbs_le_termsMagnitude {term : Product × Int} (member : term ∈ terms) :
    term.2.natAbs ≤ termsMagnitude terms :=
  List.single_le_sum (fun _ _ => Nat.zero_le _) _ (List.mem_map_of_mem member)

theorem exists_scale? {factor : Int} (small : sum.magnitude * factor.natAbs ≤ greatest.natAbs) :
    ∃ multiple, sum.scale? factor = some multiple := by
  rw [scale?]
  split
  next => exact ⟨_, rfl⟩
  next =>
    rw [magnitude, Nat.add_mul] at small
    have each (term result : Product × Int) :
        (Word.mul? term.2 factor).map (term.1, ·) = some result ↔
          Fits (term.2 * factor) ∧ (term.1, term.2 * factor) = result := by
      simp [Option.map_eq_some_iff, Word.mul?, ofInt?_eq_some_iff, and_assoc]
    have fits : ∀ term ∈ sum.terms, Fits (term.2 * factor) := fun term member => by
      refine (ofInt?_eq_some_iff.mp (ofInt?_of_natAbs_le ?_)).1
      have large := Nat.mul_le_mul_right factor.natAbs (natAbs_le_termsMagnitude member)
      rw [Int.natAbs_mul]
      omega
    have isConstant : Word.mul? sum.constant factor = some _ :=
      ofInt?_of_natAbs_le (by rw [Int.natAbs_mul]; omega)
    exact ⟨_, Option.bind_eq_some_iff.mpr ⟨_, (mapM_checked_eq_some_iff each).mpr ⟨fits, rfl⟩,
      by rw [isConstant]; rfl⟩⟩

theorem termsMagnitude_map_mul (factor : Int) (terms : List (Product × Int)) :
    termsMagnitude (terms.map fun term => (term.1, term.2 * factor)) =
      termsMagnitude terms * factor.natAbs := by
  simp [termsMagnitude, Function.comp_def, Int.natAbs_mul, List.sum_map_mul_right]

theorem exists_sub? (small : left.magnitude + right.magnitude ≤ greatest.natAbs) :
    ∃ difference, left.sub? right = some difference := by
  obtain ⟨opposite, isOpposite⟩ : ∃ opposite, right.scale? (-1) = some opposite :=
    exists_scale? (by simpa using (Nat.le_add_left _ _).trans small)
  have sameMagnitude : opposite.magnitude = right.magnitude := by
    rw [eq_of_scale? (by decide) isOpposite, magnitude, magnitude, termsMagnitude_map_mul]
    simp
  obtain ⟨difference, isDifference⟩ := exists_add? (sameMagnitude ▸ small)
  exact ⟨difference, Option.bind_eq_some_iff.mpr ⟨opposite, isOpposite, isDifference⟩⟩

/-! ### Products -/

theorem magnitude_of_asConst? {factor : Int} (isConst : sum.asConst? = some factor) :
    sum.magnitude = factor.natAbs := by
  obtain ⟨isEmpty, rfl⟩ := Option.ite_none_right_eq_some.mp isConst |>.imp_right Option.some.inj
  rw [magnitude, List.isEmpty_iff.mp isEmpty, termsMagnitude_nil, Nat.zero_add]

theorem spends_scaled (terms : List (Product × Int)) (factor : Int) :
    Spends (termsMagnitude terms * factor.natAbs) fun sum => sum.addScaled? terms factor := by
  rw [termsMagnitude, ← List.sum_map_mul_right]
  exact spends_foldlM _ fun term _ => spends_product term.1 term.2 factor

theorem spends_products (terms : List (Product × Int)) (term : Product × Int) :
    Spends (term.2.natAbs * termsMagnitude terms) fun sum => sum.addProducts? terms term := by
  rw [termsMagnitude, ← List.sum_map_mul_left]
  exact spends_foldlM _ fun other _ => spends_product (term.1.mul other.1) term.2 other.2

theorem exists_mul? {maxTerms : Nat}
    (small : left.magnitude * right.magnitude ≤ greatest.natAbs)
    (few : (left.terms.length + 1) * (right.terms.length + 1) ≤ maxTerms) :
    ∃ product, left.mul? right maxTerms = some product := by
  unfold mul?
  split
  next factor _ isConst => exact exists_scale? (magnitude_of_asConst? isConst ▸ small)
  next factor _ _ isConst =>
    rw [Nat.mul_comm] at small
    exact exists_scale? (magnitude_of_asConst? isConst ▸ small)
  next =>
    rw [if_neg (Nat.not_lt.mpr few)]
    simp only [magnitude, Nat.add_mul, Nat.mul_add] at small
    rw [Nat.mul_comm left.constant.natAbs] at small
    have isConstant : Word.mul? left.constant right.constant = some _ :=
      ofInt?_of_natAbs_le (by rw [Int.natAbs_mul]; omega)
    have start : termsMagnitude (ofInt left.dtype (left.constant * right.constant)).terms = 0 := rfl
    obtain ⟨first, isFirst, -, fits⟩ := spends_scaled left.terms right.constant
      (ofInt left.dtype (left.constant * right.constant)) (by omega)
    obtain ⟨second, isSecond, -, fits'⟩ := spends_scaled right.terms left.constant first (by omega)
    have products := spends_foldlM (fun term => term.2.natAbs * termsMagnitude right.terms)
      (fun term (_ : term ∈ left.terms) => spends_products right.terms term)
    rw [List.sum_map_mul_right] at products
    obtain ⟨third, isThird, -⟩ := products second (show _ + termsMagnitude left.terms * _ ≤ _ by omega)
    exact ⟨third, by rw [isConstant]; simp [isFirst, isSecond, isThird]⟩

end SumForm

end IndexAlgebra
