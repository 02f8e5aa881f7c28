import DeviceProgramming.Machine.Cells
import Mathlib.Data.Finset.Prod
import Mathlib.Data.Int.ConditionallyCompleteOrder
import Mathlib.Data.Int.Interval
import Mathlib.Order.CompletePartialOrder

namespace DeviceProgramming

variable {α : Type*} [LinearOrder α]

/-- The pairs of the first `n` cells that are in the wrong order. -/
noncomputable def inverted (n : ℕ) (a : ℤ → α) : Finset (ℤ × ℤ) :=
  (Finset.Ico (0 : ℤ) n ×ˢ Finset.Ico (0 : ℤ) n).filter fun p => p.1 < p.2 ∧ a p.2 < a p.1

/-- The number of inversions of the first `n` cells. -/
noncomputable def inversions (n : ℕ) (a : ℤ → α) : ℕ := (inverted n a).card

variable {n : ℕ} {a : ℤ → α} {x : ℤ}

theorem mem_inverted {i j : ℤ} :
    (i, j) ∈ inverted n a ↔ ((0 ≤ i ∧ i < n) ∧ 0 ≤ j ∧ j < n) ∧ i < j ∧ a j < a i := by
  simp only [inverted, Finset.mem_filter, Finset.mem_product, Finset.mem_Ico]

/-- Exchanging two neighbours takes their own inversion away and carries the
others along. -/
theorem inverted_swap (lower : 0 ≤ x) (upper : x + 1 < n) (greater : a (x + 1) < a x) :
    inverted n (swap a x (x + 1)) =
      ((inverted n a).erase (x, x + 1)).map
        ((Equiv.swap x (x + 1)).prodCongr (Equiv.swap x (x + 1))).toEmbedding := by
  ext ⟨i, j⟩
  rw [Finset.mem_map_equiv, Finset.mem_erase]
  simp only [Equiv.prodCongr_symm, Equiv.symm_swap, Equiv.prodCongr_apply, Prod.map_apply, mem_inverted, swap_eq,
    Function.comp_apply, ne_eq, Prod.mk.injEq]
  have smaller : ¬ a x < a (x + 1) := not_lt.mpr greater.le
  have place (z : ℤ) : (z = x ∧ Equiv.swap x (x + 1) z = x + 1) ∨ (z = x + 1 ∧ Equiv.swap x (x + 1) z = x) ∨
      (z ≠ x ∧ z ≠ x + 1 ∧ Equiv.swap x (x + 1) z = z) := by
    by_cases first : z = x
    · exact Or.inl ⟨first, by rw [first, Equiv.swap_apply_left]⟩
    · by_cases second : z = x + 1
      · exact Or.inr (Or.inl ⟨second, by rw [second, Equiv.swap_apply_right]⟩)
      · exact Or.inr (Or.inr ⟨first, second, Equiv.swap_apply_of_ne_of_ne first second⟩)
  by_cases wrong : a (Equiv.swap x (x + 1) j) < a (Equiv.swap x (x + 1) i)
  · have apart : ¬ (i = x ∧ j = x + 1) := by
      rintro ⟨rfl, rfl⟩
      rw [Equiv.swap_apply_left, Equiv.swap_apply_right] at wrong
      exact smaller wrong
    simp only [wrong, and_true]
    have first := place i
    have second := place j
    omega
  · simp only [wrong, and_false]

theorem inversions_swap (lower : 0 ≤ x) (upper : x + 1 < n) (greater : a (x + 1) < a x) :
    inversions n (swap a x (x + 1)) + 1 = inversions n a := by
  have own : (x, x + 1) ∈ inverted n a := mem_inverted.mpr ⟨by omega, by omega, greater⟩
  rw [inversions, inverted_swap lower upper greater, Finset.card_map, Finset.card_erase_add_one own, inversions]

end DeviceProgramming
