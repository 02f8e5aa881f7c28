import DeviceProgramming.ParallelSort.ThreadSort
import Mathlib.Tactic.Positivity
import Mathlib.Tactic.Zify

namespace DeviceProgramming.ParallelSort

variable {n nthreads : ℕ}

/-- There is at least one thread, and no more threads than numbers. -/
structure Fits (n nthreads : ℕ) : Prop where
  positive : 1 ≤ nthreads
  enough : nthreads ≤ n

@[simp] theorem region_left (t : Fin nthreads) :
    (region n nthreads t).left = (t : ℕ) * regionLength n nthreads := rfl

theorem region_right (t : Fin nthreads) : (region n nthreads t).right =
    if (t : ℕ) = nthreads - 1 then (n : ℤ) - 1 else ((t : ℕ) + 1) * regionLength n nthreads - 1 := rfl

theorem regionLength_pos (fits : Fits n nthreads) : 1 ≤ regionLength n nthreads :=
  (Nat.one_le_div_iff fits.positive).mpr fits.enough

/-- The first `i` regions, without what the last one has more, are in the file. -/
theorem mul_regionLength_le {i : ℕ} (le : i ≤ nthreads) : i * regionLength n nthreads ≤ n :=
  calc i * regionLength n nthreads ≤ nthreads * regionLength n nthreads := Nat.mul_le_mul_right _ le
    _ ≤ n := Nat.mul_div_le n nthreads

/-- A region lies between its own border and the next one. -/
theorem region_bounds (fits : Fits n nthreads) (t : Fin nthreads) :
    0 ≤ (region n nthreads t).left ∧ (region n nthreads t).left ≤ (region n nthreads t).right ∧
    (((t : ℕ) + 1) * regionLength n nthreads - 1 : ℤ) ≤ (region n nthreads t).right ∧
    (region n nthreads t).right ≤ n - 1 := by
  have length := regionLength_pos fits
  have inside : ((t : ℕ) + 1) * regionLength n nthreads ≤ n := mul_regionLength_le t.isLt
  have next : ((t : ℕ) + 1) * regionLength n nthreads = (t : ℕ) * regionLength n nthreads + regionLength n nthreads :=
    Nat.succ_mul _ _
  have lower : (0 : ℤ) ≤ (t : ℕ) * regionLength n nthreads := by positivity
  zify at inside next
  rw [region_left, region_right]
  split <;> omega

/-- The two cells of a border are in the file. -/
theorem border_inside {i : ℕ} (fits : Fits n nthreads) (one : 1 ≤ i) (within : i + 1 ≤ nthreads) :
    0 ≤ (i * regionLength n nthreads : ℤ) - 1 ∧ (i * regionLength n nthreads : ℤ) < n := by
  have length := regionLength_pos fits
  have first : 1 * regionLength n nthreads ≤ i * regionLength n nthreads := Nat.mul_le_mul_right _ one
  have last : (i + 1) * regionLength n nthreads ≤ n := mul_regionLength_le within
  rw [Nat.succ_mul] at last
  zify at first last length
  omega

/-- The regions are in the order of the threads. -/
theorem region_before {t u : Fin nthreads} (before : t < u) :
    (region n nthreads t).right < (region n nthreads u).left := by
  have notLast : (t : ℕ) ≠ nthreads - 1 := by omega
  have le : ((t : ℕ) + 1) * regionLength n nthreads ≤ (u : ℕ) * regionLength n nthreads := Nat.mul_le_mul_right _ before
  zify at le
  rw [region_left, region_right, if_neg notLast]
  omega

/-- The regions of two threads have no cell in common. -/
theorem region_disjoint {t u : Fin nthreads} (differ : t ≠ u) {x : ℤ}
    (lower : (region n nthreads t).left ≤ x) (upper : x ≤ (region n nthreads t).right) :
    x < (region n nthreads u).left ∨ (region n nthreads u).right < x := by
  rcases lt_or_gt_of_ne differ with before | after
  · have order := region_before (n := n) before
    exact Or.inl (by omega)
  · have order := region_before (n := n) after
    exact Or.inr (by omega)

/-- Two neighbouring cells are in one region or on the two sides of a border. -/
theorem neighbours (fits : Fits n nthreads) {x : ℤ} (lower : 0 ≤ x) (upper : x < n - 1) :
    (∃ t : Fin nthreads, (region n nthreads t).left ≤ x ∧ x + 1 ≤ (region n nthreads t).right) ∨
    ∃ i : ℕ, 1 ≤ i ∧ i < nthreads ∧ x = i * regionLength n nthreads - 1 := by
  have length := regionLength_pos fits
  obtain ⟨k, rfl⟩ := Int.eq_ofNat_of_zero_le lower
  obtain ⟨q, r, small, division⟩ : ∃ q r, r < regionLength n nthreads ∧ q * regionLength n nthreads + r = k :=
    ⟨k / regionLength n nthreads, k % regionLength n nthreads, Nat.mod_lt _ length, Nat.div_add_mod' ..⟩
  have next : (q + 1) * regionLength n nthreads = q * regionLength n nthreads + regionLength n nthreads :=
    Nat.succ_mul ..
  by_cases last : nthreads - 1 ≤ q
  · have final : nthreads - 1 < nthreads := Nat.sub_lt fits.positive one_pos
    have le : (nthreads - 1) * regionLength n nthreads ≤ k := by
      have below : (nthreads - 1) * regionLength n nthreads ≤ q * regionLength n nthreads :=
        Nat.mul_le_mul_right _ last
      omega
    refine Or.inl ⟨⟨nthreads - 1, final⟩, ?_, ?_⟩
    · rw [region_left]
      exact_mod_cast le
    · rw [region_right, if_pos rfl]
      omega
  · zify at next division
    by_cases atEnd : r + 1 = regionLength n nthreads
    · refine Or.inr ⟨q + 1, by omega, by omega, ?_⟩
      push_cast
      omega
    · refine Or.inl ⟨⟨q, by omega⟩, ?_, ?_⟩
      · rw [region_left]
        dsimp only
        omega
      · have notLast : q ≠ nthreads - 1 := by omega
        rw [region_right, if_neg notLast]
        dsimp only
        omega

/-- Regions in order with ordered borders make an array in order. -/
theorem monotoneOn_of_regions {vec : ℤ → ℤ} (fits : Fits n nthreads)
    (regions : ∀ t : Fin nthreads,
      MonotoneOn vec (Set.Icc (region n nthreads t).left (region n nthreads t).right))
    (borders : ∀ i : ℕ, 1 ≤ i → i < nthreads →
      vec (i * regionLength n nthreads - 1) ≤ vec (i * regionLength n nthreads)) :
    MonotoneOn vec (Set.Icc 0 (n - 1)) := by
  refine monotoneOn_of_neighbours fun x lower upper => ?_
  rcases neighbours fits lower upper with ⟨t, left, right⟩ | ⟨i, one, before, rfl⟩
  · exact regions t ⟨left, by omega⟩ ⟨by omega, right⟩ (by omega)
  · rw [sub_add_cancel]
    exact borders i one before

end DeviceProgramming.ParallelSort
