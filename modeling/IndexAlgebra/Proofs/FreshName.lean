/-
This file proves that a fresh variable is fresh: its name is none of those that are taken. The
numbered names of a variable are all different, so that one of the first `taken.length + 1` is
free.
-/
import IndexAlgebra.Expr
import Mathlib.Tactic.ByContra

namespace IndexAlgebra.Variable

/-! ### Numbered names -/

theorem numbered_injective {name : String} {first second : Nat}
    (equal : numbered name first = numbered name second) : first = second := by
  have digits := congrArg String.toList ((String.append_right_inj _).mp equal)
  have numbers := congrArg (fun digits => Nat.ofDigitChars 10 digits 0) digits
  simpa [Nat.toString_eq_repr] using numbers

/-- Not all of the first numbered names can be taken. -/
theorem exists_numbered_not_mem (name : String) (taken : List String) :
    ∃ index, index ≤ taken.length ∧ numbered name (index + 1) ∉ taken := by
  by_contra none
  have all : ∀ index, index ≤ taken.length → numbered name (index + 1) ∈ taken := by
    intro index small
    by_contra free
    exact none ⟨index, small, free⟩
  have distinct : ((List.range (taken.length + 1)).map
      fun index => numbered name (index + 1)).Nodup := by
    refine List.Pairwise.map _ ?_ List.nodup_range
    intro first second different equal
    exact different (Nat.succ.inj (numbered_injective equal))
  have contained : ((List.range (taken.length + 1)).map
      fun index => numbered name (index + 1)) ⊆ taken := by
    intro candidate member
    obtain ⟨index, small, rfl⟩ := List.mem_map.mp member
    exact all index (Nat.le_of_lt_succ (List.mem_range.mp small))
  have lengths := distinct.length_le_of_subset contained
  simp only [List.length_map, List.length_range] at lengths
  omega

/-! ### Fresh variables -/

/-- The name of a fresh variable is not taken. -/
theorem name_fresh_not_mem (name : Variable) (taken : List String) :
    (name.fresh taken).name ∉ taken := by
  unfold fresh
  cases found : (List.range taken.length).find? fun index =>
      !taken.contains (numbered name.name (index + 1)) with
  | some index => simpa using List.find?_some found
  | none =>
    obtain ⟨index, small, free⟩ := exists_numbered_not_mem name.name taken
    have last : index = taken.length := by
      by_contra notLast
      have inRange : index ∈ List.range taken.length :=
        List.mem_range.mpr (Nat.lt_of_le_of_ne small notLast)
      have isTaken := List.find?_eq_none.mp found index inRange
      simp at isTaken
      exact free isTaken
    subst last
    exact free

@[simp]
theorem dtype_fresh (name : Variable) (taken : List String) :
    (name.fresh taken).dtype = name.dtype := rfl

@[simp]
theorem nonNegative_fresh (name : Variable) (taken : List String) :
    (name.fresh taken).nonNegative = name.nonNegative := rfl

end IndexAlgebra.Variable
