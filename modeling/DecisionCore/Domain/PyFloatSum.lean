import Mathlib.Algebra.BigOperators.Group.Finset.Basic
import Mathlib.Algebra.BigOperators.GroupWithZero.Finset
import DecisionCore.Domain.Values

/-!
# Sums of floats

Addition is associative and commutative on the exact numbers with the special values, so a sum does not depend on the
order of its terms.  It is NaN when a term is, or when both infinities are among the terms.
-/

namespace DecisionCore.PyFloat

instance : Zero PyFloat := ⟨fin 0⟩

instance : Add PyFloat := ⟨add⟩

theorem zero_eq : (0 : PyFloat) = fin 0 := rfl

theorem add_comm' (a b : PyFloat) : a + b = b + a := by
  change add a b = add b a
  cases a <;> cases b <;> simp [add, add_comm]

instance : AddCommMonoid PyFloat where
  add_assoc a b c := by
    change add (add a b) c = add a (add b c)
    cases a <;> cases b <;> cases c <;> simp [add, add_assoc]
  zero_add a := by
    change add (fin 0) a = a
    cases a <;> simp [add]
  add_zero a := by
    change add a (fin 0) = a
    cases a <;> simp [add]
  add_comm := add_comm'
  nsmul := nsmulRec

/-- Rationals are added as floats. -/
def finHom : ℚ →+ PyFloat where
  toFun := fin
  map_zero' := rfl
  map_add' _ _ := rfl

theorem fin_sum {ι : Type} (s : Finset ι) (f : ι → ℚ) : ∑ i ∈ s, fin (f i) = fin (∑ i ∈ s, f i) :=
  (map_sum finHom f s).symm

/-! ## Special values in a sum -/

theorem add_eq_nan_iff (a b : PyFloat) :
    a + b = nan ↔ a = nan ∨ b = nan ∨ a = posInf ∧ b = negInf ∨ a = negInf ∧ b = posInf := by
  change add a b = nan ↔ _
  cases a <;> cases b <;> simp [add]

theorem add_eq_posInf_iff (a b : PyFloat) :
    a + b = posInf ↔ a = posInf ∧ b ≠ nan ∧ b ≠ negInf ∨ b = posInf ∧ a ≠ nan ∧ a ≠ negInf := by
  change add a b = posInf ↔ _
  cases a <;> cases b <;> simp [add]

theorem add_eq_negInf_iff (a b : PyFloat) :
    a + b = negInf ↔ a = negInf ∧ b ≠ nan ∧ b ≠ posInf ∨ b = negInf ∧ a ≠ nan ∧ a ≠ posInf := by
  change add a b = negInf ↔ _
  cases a <;> cases b <;> simp [add]

/-- The special values of a sum, by those among the terms. -/
theorem sum_special (terms : List PyFloat) :
    (terms.sum = nan ↔ nan ∈ terms ∨ posInf ∈ terms ∧ negInf ∈ terms) ∧
      (terms.sum = posInf ↔ posInf ∈ terms ∧ nan ∉ terms ∧ negInf ∉ terms) ∧
      (terms.sum = negInf ↔ negInf ∈ terms ∧ nan ∉ terms ∧ posInf ∉ terms) := by
  induction terms with
  | nil => simp [zero_eq]
  | cons term rest ih =>
    obtain ⟨hnan, hpos, hneg⟩ := ih
    simp only [List.sum_cons, add_eq_nan_iff, add_eq_posInf_iff, add_eq_negInf_iff, hnan, hpos, hneg, List.mem_cons,
      ne_eq, eq_comm (b := term)]
    cases term with
    | nan => simp
    | fin q => simp
    | posInf =>
      simp only [reduceCtorEq, false_or, true_or, true_and, not_false_eq_true, not_true_eq_false]
      grind
    | negInf =>
      simp only [reduceCtorEq, false_or, true_or, true_and, not_false_eq_true, not_true_eq_false]
      grind

theorem sum_eq_nan_iff {ι : Type} (s : Finset ι) (f : ι → PyFloat) :
    ∑ i ∈ s, f i = nan ↔ (∃ i ∈ s, f i = nan) ∨ (∃ i ∈ s, f i = posInf) ∧ ∃ i ∈ s, f i = negInf := by
  rw [← Finset.sum_map_toList, (sum_special _).1]
  simp

end DecisionCore.PyFloat
