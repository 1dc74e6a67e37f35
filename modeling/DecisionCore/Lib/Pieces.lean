import Mathlib.Data.List.Infix
import Mathlib.Data.List.TakeDrop

/-!
# Pieces of a list

What stands in a list from an offset on: slices by offset and length, and the statement that a given
list stands at an offset, which offset-based readers are verified by.
-/

namespace Pieces

variable {α : Type*} {data piece first second : List α} {off : ℕ}

/-- `data[off:off + length]`. -/
def slice (data : List α) (off length : ℕ) : List α := (data.drop off).take length

theorem length_slice {length : ℕ} (h : off + length ≤ data.length) : (slice data off length).length = length := by
  rw [slice, List.length_take, List.length_drop]
  omega

/-- The piece stands in the data at the offset. -/
def At (data : List α) (off : ℕ) (piece : List α) : Prop := off ≤ data.length ∧ piece <+: data.drop off

theorem At.of_append (before piece after : List α) : At (before ++ piece ++ after) before.length piece := by
  refine ⟨?_, ?_⟩
  · simp only [List.length_append]
    omega
  · rw [List.append_assoc, List.drop_left]
    exact List.prefix_append piece after

theorem At.self (data : List α) : At data 0 data := ⟨Nat.zero_le _, List.prefix_rfl⟩

theorem At.le (h : At data off piece) : off + piece.length ≤ data.length := by
  have hlength := h.2.length_le
  have hoff := h.1
  rw [List.length_drop] at hlength
  omega

theorem At.slice_eq (h : At data off piece) : slice data off piece.length = piece := by
  obtain ⟨after, hafter⟩ := h.2
  rw [slice, ← hafter, List.take_left]

/-- A slice within the data stands where it was cut out. -/
theorem at_slice {length : ℕ} (h : off + length ≤ data.length) : At data off (slice data off length) :=
  ⟨by omega, List.take_prefix _ _⟩

theorem at_getElem (h : off < data.length) : At data off [data[off]] := by
  refine ⟨h.le, ?_⟩
  rw [List.drop_eq_getElem_cons h]
  exact List.prefix_append [data[off]] _

/-- The parts of a piece stand one behind the other. -/
theorem at_append : At data off (first ++ second) ↔ At data off first ∧ At data (off + first.length) second := by
  constructor
  · intro h
    have hle := h.le
    obtain ⟨after, hafter⟩ := h.2
    rw [List.length_append] at hle
    refine ⟨⟨h.1, ⟨second ++ after, by rw [← List.append_assoc, hafter]⟩⟩, by omega, ⟨after, ?_⟩⟩
    rw [← List.drop_drop, ← hafter, List.append_assoc, List.drop_left]
  · rintro ⟨⟨hoff, rest, hrest⟩, -, after, hafter⟩
    rw [← List.drop_drop, ← hrest, List.drop_left] at hafter
    exact ⟨hoff, after, by rw [List.append_assoc, hafter, hrest]⟩

theorem At.left (h : At data off (first ++ second)) : At data off first := (at_append.mp h).1

theorem At.right (h : At data off (first ++ second)) : At data (off + first.length) second := (at_append.mp h).2

theorem At.cons (h : off < data.length) (hrest : At data (off + 1) piece) : At data off (data[off] :: piece) := by
  rw [← List.singleton_append]
  exact at_append.mpr ⟨at_getElem h, hrest⟩

theorem At.tail {item : α} {rest : List α} (h : At data off (item :: rest)) : At data (off + 1) rest := by
  rw [← List.singleton_append] at h
  exact h.right

theorem At.getElem {item : α} {rest : List α} (h : At data off (item :: rest)) :
    ∃ hlt : off < data.length, data[off] = item := by
  have hlt : off < data.length := by
    have hle := h.le
    rw [List.length_cons] at hle
    omega
  obtain ⟨after, hafter⟩ := h.2
  refine ⟨hlt, ?_⟩
  rw [List.drop_eq_getElem_cons hlt, List.cons_append, List.cons.injEq] at hafter
  exact hafter.1.symm

end Pieces
