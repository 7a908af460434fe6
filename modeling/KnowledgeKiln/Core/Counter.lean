import Mathlib

/-!
# Counters on texts

A tokenizer merges characters across the border of two texts, so the count of a text is not the
sum of the counts of its parts. A `Counter` is bounded on both sides instead: a part never counts
more than the whole, and the whole never more than its parts together.

* `count_flatten_le`, `count_le_flatten`: the same for a text in any number of parts.
* `Additive.count_flatten`: a counter that does not merge counts the parts one by one.
* `perBlock n`: one token for every `n + 1` elements, rounded up.
-/
namespace KnowledgeKiln.Core

variable {α : Type*}

/-- A count of lists that is monotone and sub-additive on concatenation. -/
structure Counter (α : Type*) where
  count : List α → Nat
  count_append_le : ∀ s t, count (s ++ t) ≤ count s + count t
  count_left_le : ∀ s t, count s ≤ count (s ++ t)
  count_right_le : ∀ s t, count t ≤ count (s ++ t)

namespace Counter

variable {c : Counter α} {s t : List α} {parts : List (List α)}

theorem count_infix_le (h : s <:+: t) : c.count s ≤ c.count t := by
  obtain ⟨before, after, rfl⟩ := h
  exact (c.count_right_le before s).trans (c.count_left_le (before ++ s) after)

theorem count_le_flatten (h : s ∈ parts) : c.count s ≤ c.count parts.flatten := by
  obtain ⟨before, after, rfl⟩ := List.append_of_mem h
  refine count_infix_le ⟨before.flatten, after.flatten, ?_⟩
  simp

theorem count_flatten_le (h : parts ≠ []) :
    c.count parts.flatten ≤ (parts.map c.count).sum := by
  induction parts with
  | nil => exact absurd rfl h
  | cons p ps ih =>
    rw [List.flatten_cons, List.map_cons, List.sum_cons]
    by_cases hps : ps = []
    · simp [hps]
    · exact (c.count_append_le p ps.flatten).trans (Nat.add_le_add_left (ih hps) _)

/-- Nothing is merged. -/
def Additive (c : Counter α) : Prop := ∀ s t, c.count (s ++ t) = c.count s + c.count t

theorem Additive.count_flatten (h : c.Additive) :
    c.count parts.flatten = (parts.map c.count).sum := by
  induction parts with
  | nil =>
    have h0 := h [] []
    rw [List.append_nil] at h0
    rw [List.flatten_nil, List.map_nil, List.sum_nil]
    omega
  | cons p ps ih => rw [List.flatten_cons, h, ih, List.map_cons, List.sum_cons]

theorem blocks_le_iff {a n k : Nat} : (a + n) / (n + 1) ≤ k ↔ a ≤ (n + 1) * k := by
  rw [Nat.div_le_iff_le_mul_add_pred n.succ_pos, Nat.succ_sub_one, Nat.add_le_add_iff_right]

/-- One token for every `n + 1` elements, rounded up. -/
def perBlock (α : Type*) (n : Nat) : Counter α where
  count s := (s.length + n) / (n + 1)
  count_append_le s t := by
    rw [blocks_le_iff, List.length_append, Nat.mul_add]
    exact Nat.add_le_add (blocks_le_iff.mp le_rfl) (blocks_le_iff.mp le_rfl)
  count_left_le s t := Nat.div_le_div_right (by rw [List.length_append]; omega)
  count_right_le s t := Nat.div_le_div_right (by rw [List.length_append]; omega)

end Counter

end KnowledgeKiln.Core
