/-
This file proves that the order of expressions is total and respects equality. Every expression is
written as a word of letters in which no word is the beginning of another. The order of expressions
is the order of their words, and so are the orders of atoms and products.
-/
import IndexAlgebra.SumForm

namespace IndexAlgebra

/-! ### Words of letters -/

/-- A number or a text. -/
abbrev Letter := Int × String

/-- The order of words of letters, with the shorter one first. -/
def compareWords : List Letter → List Letter → Ordering :=
  List.compareLex (compareLex (compareOn Prod.fst) (compareOn Prod.snd))

instance : Std.TransCmp compareWords :=
  inferInstanceAs (Std.TransCmp (List.compareLex (compareLex (compareOn Prod.fst) (compareOn Prod.snd))))

/-- The comparison is that of the words, which are told apart before either ends. -/
def SpelledBy {α : Type} (compare : α → α → Ordering) (word : α → List Letter) : Prop :=
  ∀ first second rest rest',
    compareWords (word first ++ rest) (word second ++ rest') =
      (compare first second).then (compareWords rest rest')

namespace SpelledBy

variable {α : Type} {compare : α → α → Ordering} {word : α → List Letter}

theorem compare_eq (spelled : SpelledBy compare word) (first second : α) :
    compare first second = compareWords (word first) (word second) := by
  have spell := spelled first second [] []
  have empty : compareWords [] [] = .eq := List.compareLex_nil_nil
  rw [List.append_nil, List.append_nil, empty, Ordering.then_eq] at spell
  exact spell.symm

/-- A comparison of words is oriented and transitive. -/
theorem transCmp (spelled : SpelledBy compare word) : Std.TransCmp compare where
  eq_swap {first second} := by
    rw [spelled.compare_eq, spelled.compare_eq]
    exact Std.OrientedCmp.eq_swap
  isLE_trans {first second third} := by
    rw [spelled.compare_eq, spelled.compare_eq, spelled.compare_eq]
    exact Std.TransCmp.isLE_trans

end SpelledBy

theorem compareWords_cons (first second : Letter) (rest rest' : List Letter) :
    compareWords (first :: rest) (second :: rest') =
      (compare first.1 second.1).then
        ((compare first.2 second.2).then (compareWords rest rest')) := by
  rw [← Ordering.then_assoc]
  exact List.compareLex_cons_cons

/-- The number as a letter. -/
def Letter.number (value : Int) : Letter := (value, "")

/-- The text as a letter. -/
def Letter.text (value : String) : Letter := (0, value)

@[simp]
theorem compareWords_number (value value' : Int) (rest rest' : List Letter) :
    compareWords (.number value :: rest) (.number value' :: rest') =
      (compare value value').then (compareWords rest rest') := by
  rw [compareWords_cons]
  simp only [Letter.number, Std.compare_self, Ordering.eq_then]

@[simp]
theorem compareWords_text (value value' : String) (rest rest' : List Letter) :
    compareWords (.text value :: rest) (.text value' :: rest') =
      (compare value value').then (compareWords rest rest') := by
  rw [compareWords_cons]
  simp only [Letter.text, Std.compare_self, Ordering.eq_then]

@[simp]
theorem compare_natCast (first second : Nat) :
    compare (first : Int) (second : Int) = compare first second := by
  simp only [compare, compareOfLessAndEq, Int.ofNat_lt, Int.ofNat_inj]

/-! ### Types, variables and operations -/

def DataType.word (dtype : DataType) : List Letter :=
  [.number dtype.code.rank, .number dtype.bits, .number dtype.lanes]

@[simp]
theorem DataType.compareWords_word (first second : DataType) (rest rest' : List Letter) :
    compareWords (first.word ++ rest) (second.word ++ rest') =
      (compare first second).then (compareWords rest rest') := by
  simp [word, compare, Ordering.then_assoc]

def Variable.word (name : Variable) : List Letter :=
  .text name.name :: name.dtype.word ++ [.number name.nonNegative.toNat]

@[simp]
theorem Variable.compareWords_word (first second : Variable) (rest rest' : List Letter) :
    compareWords (first.word ++ rest) (second.word ++ rest') =
      (compare first second).then (compareWords rest rest') := by
  simp [word, compare, Ordering.then_assoc]

def CallOp.word : CallOp → List Letter
  | external name => [.number 7, .text name]
  | op => [.number op.rank]

@[simp]
theorem CallOp.compareWords_word (first second : CallOp) (rest rest' : List Letter) :
    compareWords (first.word ++ rest) (second.word ++ rest') =
      (compare first second).then (compareWords rest rest') := by
  cases first <;> cases second <;> simp [word, compare, rank] <;> rfl

/-! ### Expressions -/

namespace Expr

def wordIndices : List Nat → List Letter
  | [] => [.number 0]
  | first :: rest => .number 1 :: .number first :: wordIndices rest

@[simp]
theorem compareWords_wordIndices : ∀ (indices indices' : List Nat) (rest rest' : List Letter),
    compareWords (wordIndices indices ++ rest) (wordIndices indices' ++ rest') =
      (compareIndices indices indices').then (compareWords rest rest')
  | [], [], _, _ => by simp [wordIndices, compareIndices]
  | [], _ :: _, _, _ => by simp [wordIndices, compareIndices]; rfl
  | _ :: _, [], _, _ => by simp [wordIndices, compareIndices]; rfl
  | first :: indices, second :: indices', rest, rest' => by
    simp [wordIndices, compareIndices, Ordering.then_assoc,
      compareWords_wordIndices indices indices' rest rest']

mutual

/-- The kind of the node, its parts from left to right and its type. -/
def word : Expr → List Letter
  | var dtype name => .number 0 :: (name.word ++ dtype.word)
  | intConst dtype value => .number 1 :: .number value :: dtype.word
  | floatConst dtype value => .number 2 :: .number value.orderKey :: dtype.word
  | boolConst dtype value => .number 3 :: .number value.toNat :: dtype.word
  | cast dtype value => .number 4 :: (value.word ++ dtype.word)
  | binary dtype op lhs rhs =>
    .number 5 :: .number op.rank :: (lhs.word ++ (rhs.word ++ dtype.word))
  | not dtype value => .number 6 :: (value.word ++ dtype.word)
  | select dtype cond onTrue onFalse =>
    .number 7 :: (cond.word ++ (onTrue.word ++ (onFalse.word ++ dtype.word)))
  | ramp dtype base stride lanes =>
    .number 8 :: (base.word ++ (stride.word ++ .number lanes :: dtype.word))
  | broadcast dtype value lanes => .number 9 :: (value.word ++ .number lanes :: dtype.word)
  | shuffle dtype vectors indices =>
    .number 10 :: (wordList vectors ++ (wordIndices indices ++ dtype.word))
  | letIn dtype name value body =>
    .number 11 :: (name.word ++ (value.word ++ (body.word ++ dtype.word)))
  | call dtype op args => .number 12 :: (op.word ++ (wordList args ++ dtype.word))

def wordList : List Expr → List Letter
  | [] => [.number 0]
  | first :: rest => .number 1 :: (first.word ++ wordList rest)

end

attribute [local simp] word wordList compare compareList rank Binary64.compare Ordering.then_assoc

mutual

/-- Expressions are ordered as their words. -/
theorem compareWords_word : ∀ (first second : Expr) (rest rest' : List Letter),
    compareWords (first.word ++ rest) (second.word ++ rest') =
      (compare first second).then (compareWords rest rest')
  | var dtype name, second, rest, rest' => by cases second <;> simp <;> rfl
  | intConst dtype value, second, rest, rest' => by cases second <;> simp <;> rfl
  | floatConst dtype value, second, rest, rest' => by cases second <;> simp <;> rfl
  | boolConst dtype value, second, rest, rest' => by cases second <;> simp <;> rfl
  | cast dtype value, second, rest, rest' => by
    cases second <;> simp [compareWords_word value] <;> rfl
  | binary dtype op lhs rhs, second, rest, rest' => by
    cases second <;> simp [compareWords_word lhs, compareWords_word rhs] <;> rfl
  | not dtype value, second, rest, rest' => by
    cases second <;> simp [compareWords_word value] <;> rfl
  | select dtype cond onTrue onFalse, second, rest, rest' => by
    cases second <;>
      simp [compareWords_word cond, compareWords_word onTrue, compareWords_word onFalse] <;> rfl
  | ramp dtype base stride lanes, second, rest, rest' => by
    cases second <;> simp [compareWords_word base, compareWords_word stride] <;> rfl
  | broadcast dtype value lanes, second, rest, rest' => by
    cases second <;> simp [compareWords_word value] <;> rfl
  | shuffle dtype vectors indices, second, rest, rest' => by
    cases second <;> simp [compareWords_wordList vectors] <;> rfl
  | letIn dtype name value body, second, rest, rest' => by
    cases second <;> simp [compareWords_word value, compareWords_word body] <;> rfl
  | call dtype op args, second, rest, rest' => by
    cases second <;> simp [compareWords_wordList args] <;> rfl

theorem compareWords_wordList : ∀ (first second : List Expr) (rest rest' : List Letter),
    compareWords (wordList first ++ rest) (wordList second ++ rest') =
      (compareList first second).then (compareWords rest rest')
  | [], [], rest, rest' => by simp
  | [], _ :: _, rest, rest' => by
    simp
    rfl
  | _ :: _, [], rest, rest' => by
    simp
    rfl
  | head :: tail, _ :: _, rest, rest' => by
    simp [compareWords_word head, compareWords_wordList tail]

end

end Expr

/-! ### Equality -/

/-- The order of floating-point numbers tells all bits apart. -/
theorem Binary64.orderKey_injective {first second : Binary64}
    (equal : first.orderKey = second.orderKey) : first = second := by
  obtain ⟨bits⟩ := first
  obtain ⟨bits'⟩ := second
  have weight : signWeight = 9223372036854775808 := by decide
  have bound := bits.toNat_lt
  have bound' := bits'.toNat_lt
  rw [Binary64.mk.injEq, ← UInt64.toNat_inj]
  simp only [orderKey, isNegative, magnitude, decide_eq_true_eq, weight] at equal
  split at equal <;> split at equal <;> omega

theorem Binary64.compare_eq_iff {first second : Binary64} :
    compare first second = .eq ↔ first = second := by
  rw [compare, Std.compare_eq_iff_eq]
  exact ⟨orderKey_injective, congrArg orderKey⟩

theorem toNat_eq_iff {first second : Bool} : first.toNat = second.toNat ↔ first = second := by
  cases first <;> cases second <;> decide

theorem Variable.compare_eq_iff {first second : Variable} :
    compare first second = .eq ↔ first = second := by
  obtain ⟨name, dtype, mark⟩ := first
  obtain ⟨name', dtype', mark'⟩ := second
  simp [compare, Ordering.then_eq_eq, DataType.compare_eq_iff, toNat_eq_iff]

theorem CallOp.compare_eq_iff {first second : CallOp} :
    compare first second = .eq ↔ first = second := by
  cases first <;> cases second <;> simp [compare, rank]

theorem BinaryOp.rank_eq_iff {first second : BinaryOp} :
    first.rank = second.rank ↔ first = second :=
  ⟨rank_injective, congrArg rank⟩

namespace Expr

theorem compareIndices_eq_iff : ∀ {first second : List Nat},
    compareIndices first second = .eq ↔ first = second
  | [], second => by cases second <;> simp [compareIndices]
  | head :: tail, second => by
    cases second <;> simp [compareIndices, Ordering.then_eq_eq, compareIndices_eq_iff]

-- the type stands last in the order and first in a node
attribute [local simp] compare compareList rank Ordering.then_eq_eq DataType.compare_eq_iff
  Variable.compare_eq_iff CallOp.compare_eq_iff Binary64.compare_eq_iff toNat_eq_iff
  BinaryOp.rank_eq_iff compareIndices_eq_iff and_comm and_left_comm
  and_assoc

mutual

/-- Two expressions are equal in order if they are the same tree. -/
theorem compare_eq_iff : ∀ first second : Expr, compare first second = .eq ↔ first = second
  | var dtype name, second => by cases second <;> simp
  | intConst dtype value, second => by cases second <;> simp
  | floatConst dtype value, second => by cases second <;> simp
  | boolConst dtype value, second => by cases second <;> simp
  | cast dtype value, second => by cases second <;> simp [compare_eq_iff value]
  | binary dtype op lhs rhs, second => by
    cases second <;> simp [compare_eq_iff lhs, compare_eq_iff rhs]
  | not dtype value, second => by cases second <;> simp [compare_eq_iff value]
  | select dtype cond onTrue onFalse, second => by
    cases second <;>
      simp [compare_eq_iff cond, compare_eq_iff onTrue, compare_eq_iff onFalse]
  | ramp dtype base stride lanes, second => by
    cases second <;> simp [compare_eq_iff base, compare_eq_iff stride]
  | broadcast dtype value lanes, second => by cases second <;> simp [compare_eq_iff value]
  | shuffle dtype vectors indices, second => by
    cases second <;> simp [compareList_eq_iff vectors]
  | letIn dtype name value body, second => by
    cases second <;> simp [compare_eq_iff value, compare_eq_iff body]
  | call dtype op args, second => by cases second <;> simp [compareList_eq_iff args]

theorem compareList_eq_iff : ∀ first second : List Expr,
    compareList first second = .eq ↔ first = second
  | [], second => by cases second <;> simp
  | head :: tail, second => by
    cases second <;> simp [compare_eq_iff head, compareList_eq_iff tail]

end

instance : Std.TransCmp compare := SpelledBy.transCmp compareWords_word

instance : Std.LawfulEqCmp compare where
  compare_self := (compare_eq_iff _ _).mpr rfl
  eq_of_compare := (compare_eq_iff _ _).mp

/-- The order of expressions is a total order in which only equal expressions stand at one
place. -/
theorem compare_total (first second third : Expr) :
    (compare first second = .eq ↔ same first second = true) ∧
    compare first second = (compare second first).swap ∧
    (compare first second = .lt → compare second third = .lt → compare first third = .lt) := by
  refine ⟨?_, Std.OrientedCmp.eq_swap, Std.TransCmp.lt_trans⟩
  calc compare first second = .eq
    _ ↔ first = second := compare_eq_iff first second
    _ ↔ same first second = true := (same_iff_eq first second).symm

/-- Arguments that begin another list of arguments stand before it. The sign of a zero counts, and
so do the bits of what is not a number. -/
theorem compare_total_zeros :
    let applied (args : List Binary64) : Expr :=
      .call .int32 (.external "f") (args.map (.floatConst (.scalar .float 64)))
    compare (applied [.zero true]) (applied [.zero false]) = .lt ∧
    compare (applied [.zero false]) (applied [.zero false, .nan]) = .lt ∧
    compare (applied [.zero true]) (applied [.zero false, .nan]) = .lt := by
  intro applied
  have signs : compare (applied [.zero true]) (applied [.zero false]) = .lt := by decide +kernel
  have lengths : compare (applied [.zero false]) (applied [.zero false, .nan]) = .lt := by
    decide +kernel
  exact ⟨signs, lengths, (compare_total _ _ _).2.2 signs lengths⟩

end Expr

/-! ### Atoms and products -/

namespace Split

theorem rank_eq_iff {first second : Split} : first.rank = second.rank ↔ first = second := by
  cases first <;> cases second <;> decide

end Split

namespace Atom

def word : Atom → List Letter
  | leaf expr => .number 0 :: expr.word
  | split dividend divisor kind =>
    .number 1 :: (dividend.word ++ [.number divisor, .number kind.rank])

theorem compareWords_word (first second : Atom) (rest rest' : List Letter) :
    compareWords (first.word ++ rest) (second.word ++ rest') =
      (compare first second).then (compareWords rest rest') := by
  cases first <;> cases second <;>
    simp [word, compare, Expr.compareWords_word, Ordering.then_assoc] <;> rfl

theorem compare_eq_iff (first second : Atom) : compare first second = .eq ↔ first = second := by
  cases first <;> cases second <;>
    simp [compare, Ordering.then_eq_eq, Split.rank_eq_iff]

instance : Std.TransCmp compare := SpelledBy.transCmp compareWords_word

instance : Std.LawfulEqCmp compare where
  compare_self := (compare_eq_iff _ _).mpr rfl
  eq_of_compare := (compare_eq_iff _ _).mp

end Atom

namespace Product

theorem compare_eq_compareLex : compare = List.compareLex Atom.compare := by
  funext first second
  induction first generalizing second with
  | nil => cases second <;> rfl
  | cons atom rest inductionHypothesis =>
    cases second with
    | nil => rfl
    | cons => rw [compare, inductionHypothesis, List.compareLex_cons_cons]

instance : Std.TransCmp compare := compare_eq_compareLex ▸ inferInstance

instance : Std.LawfulEqCmp compare := compare_eq_compareLex ▸ inferInstance

end Product

end IndexAlgebra
