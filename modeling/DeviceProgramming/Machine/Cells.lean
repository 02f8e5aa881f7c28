import Mathlib.Algebra.Order.SuccPred
import Mathlib.Data.Int.ConditionallyCompleteOrder
import Mathlib.Data.Int.SuccPred
import Mathlib.Data.List.FinRange
import Mathlib.Data.List.OfFn
import Mathlib.Data.Set.Monotone
import Mathlib.Order.BourbakiWitt
import Mathlib.Order.CompletePartialOrder
import Mathlib.Tactic.Common

namespace DeviceProgramming

variable {α : Type*}

/-- Two cells of an array exchanged. -/
def swap (a : ℤ → α) (x y : ℤ) : ℤ → α := Function.update (Function.update a x (a y)) y (a x)

/-- The first `n` cells. -/
def contents (n : ℕ) (a : ℤ → α) : List α := List.ofFn fun k : Fin n => a (k : ℕ)

theorem swap_eq (a : ℤ → α) (x y : ℤ) : swap a x y = a ∘ Equiv.swap x y := by
  funext z
  simp only [swap, Function.comp_apply, Equiv.swap_apply_def, Function.update_apply]
  split_ifs <;> simp_all

@[simp] theorem swap_first (a : ℤ → α) (x y : ℤ) : swap a x y x = a y := by
  rw [swap_eq, Function.comp_apply, Equiv.swap_apply_left]

@[simp] theorem swap_second (a : ℤ → α) (x y : ℤ) : swap a x y y = a x := by
  rw [swap_eq, Function.comp_apply, Equiv.swap_apply_right]

theorem swap_other (a : ℤ → α) {x y z : ℤ} (first : z ≠ x) (second : z ≠ y) : swap a x y z = a z := by
  rw [swap_eq, Function.comp_apply, Equiv.swap_apply_of_ne_of_ne first second]

/-- Exchanging two of the first `n` cells permutes them. -/
theorem contents_swap {n : ℕ} (a : ℤ → α) {x y : ℤ} (inX : 0 ≤ x ∧ x < n) (inY : 0 ≤ y ∧ y < n) :
    (contents n (swap a x y)).Perm (contents n a) := by
  obtain ⟨i, rfl⟩ := Int.eq_ofNat_of_zero_le inX.1
  obtain ⟨j, rfl⟩ := Int.eq_ofNat_of_zero_le inY.1
  have first : i < n := by omega
  have second : j < n := by omega
  have moved : (fun k : Fin n => swap a i j (k : ℕ)) =
      (fun k : Fin n => a (k : ℕ)) ∘ Equiv.swap (⟨i, first⟩ : Fin n) ⟨j, second⟩ := by
    funext k
    simp only [swap_eq, Function.comp_apply, Equiv.swap_apply_def, Fin.ext_iff, Int.natCast_inj]
    split_ifs <;> rfl
  rw [contents, contents, moved]
  exact Equiv.Perm.ofFn_comp_perm _ _

/-- The first `n` cells in order, as a list. -/
theorem pairwise_contents [Preorder α] {n : ℕ} {a : ℤ → α} (sorted : MonotoneOn a (Set.Icc 0 (n - 1))) :
    (contents n a).Pairwise (· ≤ ·) := by
  rw [contents, List.pairwise_ofFn]
  intro i j before
  have last := j.isLt
  have le : (i : ℕ) ≤ j := before.le
  exact sorted ⟨by omega, by omega⟩ ⟨by omega, by omega⟩ (by omega)

section
variable [LinearOrder α] {a : ℤ → α} {lo hi hole : ℤ}

/-- A segment in order but for the value at `hole`, which may be too small. -/
def SortedExcept (a : ℤ → α) (lo hi hole : ℤ) : Prop :=
  ∀ x y, lo ≤ x → x ≤ y → y ≤ hi → y ≠ hole → a x ≤ a y

theorem sortedExcept_last (sorted : MonotoneOn a (Set.Icc lo (hi - 1))) : SortedExcept a lo hi hi := by
  intro x y lower le upper differ
  exact sorted ⟨lower, by omega⟩ ⟨by omega, by omega⟩ le

/-- One turn of the insertion: the value at the hole moves one cell down. -/
theorem SortedExcept.swap (sorted : SortedExcept a lo hi hole) (smaller : a hole < a (hole - 1))
    (above : lo + 1 ≤ hole) (inside : hole ≤ hi) : SortedExcept (swap a (hole - 1) hole) lo hi (hole - 1) := by
  intro x y lower le upper differ
  by_cases atHole : y = hole
  · subst atHole
    rw [swap_second]
    rcases (by omega : x = y ∨ x = y - 1 ∨ x < y - 1) with rfl | rfl | before
    · rw [swap_second]
    · rw [swap_first]
      exact smaller.le
    · rw [swap_other a (by omega) (by omega)]
      exact sorted x (y - 1) lower (by omega) (by omega) (by omega)
  · rw [swap_other a differ atHole]
    rcases (by omega : x = hole ∨ x = hole - 1 ∨ x < hole - 1 ∨ hole < x) with rfl | rfl | before | after
    · rw [swap_second]
      exact sorted (x - 1) y (by omega) (by omega) upper atHole
    · rw [swap_first]
      exact sorted hole y (by omega) (by omega) upper atHole
    · rw [swap_other a (by omega) (by omega)]
      exact sorted x y lower le upper atHole
    · rw [swap_other a (by omega) (by omega)]
      exact sorted x y lower le upper atHole

/-- The insertion ends at the lower end, or where the value is not smaller. -/
theorem SortedExcept.monotoneOn (sorted : SortedExcept a lo hi hole)
    (settled : lo + 1 ≤ hole → a (hole - 1) ≤ a hole) : MonotoneOn a (Set.Icc lo hi) := by
  intro x inX y inY le
  by_cases atHole : y = hole
  · subst atHole
    rcases eq_or_lt_of_le le with rfl | before
    · exact le_refl _
    · have lower := inX.1
      have upper := inY.2
      have below := sorted x (y - 1) lower (by omega) (by omega) (by omega)
      exact below.trans (settled (by omega))
  · exact sorted x y inX.1 le inY.2 atHole

/-- Exchanging cells outside a segment does not change it. -/
theorem monotoneOn_swap {x y : ℤ} (sorted : MonotoneOn a (Set.Icc lo hi)) (first : x < lo ∨ hi < x)
    (second : y < lo ∨ hi < y) : MonotoneOn (DeviceProgramming.swap a x y) (Set.Icc lo hi) := by
  refine sorted.congr fun z ⟨lower, upper⟩ => ?_
  exact (swap_other a (by omega) (by omega)).symm

theorem sortedExcept_swap {x y : ℤ} (sorted : SortedExcept a lo hi hole) (first : x < lo ∨ hi < x)
    (second : y < lo ∨ hi < y) : SortedExcept (DeviceProgramming.swap a x y) lo hi hole := by
  intro u v lower le upper differ
  rw [swap_other a (by omega) (by omega), swap_other a (by omega) (by omega)]
  exact sorted u v lower le upper differ

/-- A segment whose neighbouring cells are in order is in order. -/
theorem monotoneOn_of_neighbours (ordered : ∀ x, lo ≤ x → x < hi → a x ≤ a (x + 1)) :
    MonotoneOn a (Set.Icc lo hi) := by
  refine monotoneOn_of_le_add_one Set.ordConnected_Icc fun x _ here next => ?_
  exact ordered x here.1 (by have upper := next.2; omega)

end

end DeviceProgramming
