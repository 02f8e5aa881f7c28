import Mathlib.Algebra.BigOperators.Group.Finset.Piecewise
import Mathlib.Algebra.Order.BigOperators.Group.Finset

namespace DeviceProgramming

variable {ι α : Type*} [Fintype ι]

/-- The sum of the weights that each thread contributes. -/
def total (weight : ι → α → ℕ) (f : ι → α) : ℕ := ∑ i, weight i (f i)

theorem total_congr {weight : ι → α → ℕ} {β : Type*} {weight' : ι → β → ℕ} {f : ι → α} {g : ι → β}
    (same : ∀ i, weight i (f i) = weight' i (g i)) : total weight f = total weight' g :=
  Finset.sum_congr rfl fun i _ => same i

theorem total_mono {weight : ι → α → ℕ} {β : Type*} {weight' : ι → β → ℕ} {f : ι → α} {g : ι → β}
    (le : ∀ i, weight i (f i) ≤ weight' i (g i)) : total weight f ≤ total weight' g :=
  Finset.sum_le_sum fun i _ => le i

/-- When one thread moves, the total changes by the difference of its weights. -/
theorem total_update [DecidableEq ι] (weight : ι → α → ℕ) (f : ι → α) (i : ι) (x : α) :
    total weight (Function.update f i x) + weight i (f i) = total weight f + weight i x := by
  have moved : ∀ j, weight j (Function.update f i x j) =
      Function.update (fun k => weight k (f k)) i (weight i x) j := by
    intro j
    by_cases here : j = i
    · subst here; simp
    · simp [here]
  have whole := Finset.sum_erase_add Finset.univ (fun j => weight j (f j)) (Finset.mem_univ i)
  simp only [total, moved]
  rw [Finset.sum_update_of_mem (Finset.mem_univ i), Finset.sdiff_singleton_eq_erase, ← whole]
  omega

theorem total_eq_zero {weight : ι → α → ℕ} {f : ι → α} :
    total weight f = 0 ↔ ∀ i, weight i (f i) = 0 := by
  simp [total]

theorem weight_le_total (weight : ι → α → ℕ) (f : ι → α) (i : ι) : weight i (f i) ≤ total weight f :=
  Finset.single_le_sum (f := fun j => weight j (f j)) (fun _ _ => Nat.zero_le _) (Finset.mem_univ i)

theorem exists_of_total_pos {weight : ι → α → ℕ} {f : ι → α} (positive : 0 < total weight f) :
    ∃ i, 0 < weight i (f i) := by
  by_contra none
  have zero : total weight f = 0 := total_eq_zero.mpr fun i =>
    Nat.eq_zero_of_not_pos fun pos => none ⟨i, pos⟩
  omega

theorem total_const (f : ι → α) (c : ℕ) : total (fun _ _ => c) f = Fintype.card ι * c := by
  simp [total]

/-- The number of threads at places with a property. -/
def countAt (p : α → Bool) (f : ι → α) : ℕ := (Finset.univ.filter fun i => p (f i) = true).card

theorem countAt_eq_total (p : α → Bool) (f : ι → α) : countAt p f = total (fun _ x => (p x).toNat) f := by
  rw [countAt, total, Finset.card_filter]
  refine Finset.sum_congr rfl fun i _ => ?_
  cases p (f i) <;> rfl

theorem countAt_update [DecidableEq ι] (p : α → Bool) (f : ι → α) (i : ι) (x : α) :
    countAt p (Function.update f i x) + (p (f i)).toNat = countAt p f + (p x).toNat := by
  rw [countAt_eq_total, countAt_eq_total]
  exact total_update (fun _ x => (p x).toNat) f i x

theorem countAt_pos {p : α → Bool} {f : ι → α} {i : ι} (here : p (f i) = true) : 0 < countAt p f :=
  Finset.card_pos.mpr ⟨i, Finset.mem_filter.mpr ⟨Finset.mem_univ i, here⟩⟩

/-- Besides one thread there is another one at such a place as soon as two are counted. -/
theorem exists_other_of_countAt {p : α → Bool} {f : ι → α} (two : 1 < countAt p f) (i : ι) :
    ∃ j, j ≠ i ∧ p (f j) = true := by
  obtain ⟨j, inside, other⟩ := Finset.exists_mem_ne two i
  exact ⟨j, other, (Finset.mem_filter.mp inside).2⟩

/-- The only counted thread is the one that is known to be. -/
theorem eq_of_countAt_le_one {p : α → Bool} {f : ι → α} {i j : ι} (one : countAt p f ≤ 1) (first : p (f i) = true)
    (second : p (f j) = true) : i = j :=
  Finset.card_le_one.mp one i (Finset.mem_filter.mpr ⟨Finset.mem_univ i, first⟩) j
    (Finset.mem_filter.mpr ⟨Finset.mem_univ j, second⟩)

theorem countAt_eq_zero {p : α → Bool} {f : ι → α} : countAt p f = 0 ↔ ∀ i, p (f i) = false := by
  rw [countAt, Finset.card_eq_zero, Finset.filter_eq_empty_iff]
  simp

end DeviceProgramming
