import DeviceProgramming.MergeSort.Merge

namespace DeviceProgramming.MergeSort

/-- `middle = left + (right - left)/2`. -/
def middle (left right : ℤ) : ℤ := left + (right - left) / 2

theorem le_middle {left right : ℤ} (more : left < right) : left ≤ middle left right := by
  rw [middle]
  omega

theorem middle_lt {left right : ℤ} (more : left < right) : middle left right < right := by
  rw [middle]
  omega

/-- `mergeSort(vet, left, right)`. -/
def mergeSort (vet : ℤ → ℤ) (left right : ℤ) : ℤ → ℤ :=
  if left < right then
    merge (mergeSort (mergeSort vet left (middle left right)) (middle left right + 1) right) left
      (middle left right) right
  else vet
termination_by (right - left).toNat
decreasing_by
  all_goals
    rename_i more
    have lower := le_middle more
    have upper := middle_lt more
    omega

theorem mergeSort_lt (vet : ℤ → ℤ) {left right : ℤ} (more : left < right) :
    mergeSort vet left right =
      merge (mergeSort (mergeSort vet left (middle left right)) (middle left right + 1) right) left
        (middle left right) right := by
  rw [mergeSort, if_pos more]

theorem mergeSort_le (vet : ℤ → ℤ) {left right : ℤ} (done : ¬ left < right) : mergeSort vet left right = vet := by
  rw [mergeSort, if_neg done]

theorem Icc_first {left right : ℤ} (more : left < right) :
    Set.Icc left (middle left right) ⊆ Set.Icc left right :=
  Set.Icc_subset_Icc_right (middle_lt more).le

theorem Icc_second {left right : ℤ} (more : left < right) :
    Set.Icc (middle left right + 1) right ⊆ Set.Icc left right :=
  Set.Icc_subset_Icc_left (by have lower := le_middle more; omega)

theorem disjoint_halves (left right : ℤ) :
    Disjoint (Set.Icc left (middle left right)) (Set.Icc (middle left right + 1) right) := by
  rw [Set.disjoint_left]
  intro z first second
  have upper := first.2
  have lower := second.1
  omega

/-- The two halves sorted, or transformed in any way, and then merged. -/
theorem halves_actsOn {left right : ℤ} (more : left < right) {f g : (ℤ → ℤ) → ℤ → ℤ}
    (first : ActsOn (Set.Icc left (middle left right)) f)
    (second : ActsOn (Set.Icc (middle left right + 1) right) g) :
    ActsOn (Set.Icc left right) fun vet => merge (g (f vet)) left (middle left right) right :=
  (merge_actsOn (le_middle more) (middle_lt more)).comp
    ((second.mono (Icc_second more)).comp (first.mono (Icc_first more)))

theorem mergeSort_actsOn (left right : ℤ) : ActsOn (Set.Icc left right) fun vet => mergeSort vet left right := by
  induction size : (right - left).toNat using Nat.strong_induction_on generalizing left right with
  | _ n ih =>
    by_cases more : left < right
    · have lower := le_middle more
      have upper := middle_lt more
      have first := ih _ (by omega) left (middle left right) rfl
      have second := ih _ (by omega) (middle left right + 1) right rfl
      simp only [mergeSort_lt _ more]
      exact halves_actsOn more first second
    · simp only [mergeSort_le _ more]
      exact ActsOn.id _

/-- `mergeSort` sorts the range. -/
theorem mergeSort_sorts (vet : ℤ → ℤ) (left right : ℤ) :
    (cells (mergeSort vet left right) left (right + 1)).Pairwise (· ≤ ·) := by
  induction vet, left, right using mergeSort.induct with
  | case1 vet left right more ih1 ih2 =>
    rw [mergeSort_lt vet more]
    refine merge_sorts (le_middle more) (middle_lt more) ?_ ih2
    have kept := (mergeSort_actsOn (middle left right + 1) right).frame
      (mergeSort vet left (middle left right))
    rw [cells_congr fun z _ before => kept z fun inside => by have after := inside.1; omega]
    exact ih1
  | case2 vet left right done =>
    rw [mergeSort_le vet done]
    rcases eq_or_lt_of_le (not_lt.mp done) with rfl | empty
    · rw [cells_cons (by omega), cells_nil (by omega)]
      exact List.pairwise_singleton _ _
    · rw [cells_nil (by omega)]
      exact List.Pairwise.nil

/-- `mergeSort` permutes the range. -/
theorem mergeSort_perm (vet : ℤ → ℤ) (left right : ℤ) :
    (cells (mergeSort vet left right) left (right + 1)).Perm (cells vet left (right + 1)) := by
  induction vet, left, right using mergeSort.induct with
  | case1 vet left right more ih1 ih2 =>
    have lower := le_middle more
    have upper := middle_lt more
    rw [mergeSort_lt vet more]
    refine (merge_perm lower upper).trans ?_
    have first := (mergeSort_actsOn (middle left right + 1) right).frame
      (mergeSort vet left (middle left right))
    have second := (mergeSort_actsOn left (middle left right)).frame vet
    rw [cells_append (m := middle left right + 1) (by omega) (by omega),
      cells_append (a := vet) (m := middle left right + 1) (by omega) (by omega),
      cells_congr fun z _ before => first z fun inside => by have after := inside.1; omega]
    refine ih1.append (ih2.trans ?_)
    rw [cells_congr fun z after _ => second z fun inside => by have before := inside.2; omega]
  | case2 vet left right done => rw [mergeSort_le vet done]

end DeviceProgramming.MergeSort
