import DeviceProgramming.Machine.Segment
import Mathlib.Order.Interval.Set.Basic

namespace DeviceProgramming.MergeSort

/-- `for (; i <= n; i++) A[i] = vet[first + i];`, whose last turn copies one
element too many. -/
def copyLoop (vet : ℤ → ℤ) (first n i : ℤ) (A : ℤ → ℤ) : ℤ → ℤ :=
  if i ≤ n then copyLoop vet first n (i + 1) (Function.update A i (vet (first + i))) else A
termination_by (n + 1 - i).toNat

/-- `while (i < n1 && j < n2)`, with the last values of `vet`, `i`, `j` and `k`. -/
def mergeLoop (L R : ℤ → ℤ) (n1 n2 i j k : ℤ) (vet : ℤ → ℤ) : (ℤ → ℤ) × ℤ × ℤ × ℤ :=
  if i < n1 ∧ j < n2 then
    if L i ≤ R j then mergeLoop L R n1 n2 (i + 1) j (k + 1) (Function.update vet k (L i))
    else mergeLoop L R n1 n2 i (j + 1) (k + 1) (Function.update vet k (R j))
  else (vet, i, j, k)
termination_by (n1 - i).toNat + (n2 - j).toNat

/-- `while (i < n) vet[k++] = A[i++];`, with the last values of `vet` and `k`. -/
def drainLoop (A : ℤ → ℤ) (n i k : ℤ) (vet : ℤ → ℤ) : (ℤ → ℤ) × ℤ :=
  if i < n then drainLoop A n (i + 1) (k + 1) (Function.update vet k (A i)) else (vet, k)
termination_by (n - i).toNat

/-- The copy of the remaining elements of `L` and of `R`. -/
def drainBoth (L R : ℤ → ℤ) (n1 n2 : ℤ) : (ℤ → ℤ) × ℤ × ℤ × ℤ → ℤ → ℤ
  | (vet, i, j, k) =>
    let (vet, k) := drainLoop L n1 i k vet
    (drainLoop R n2 j k vet).1

/-- `merge(vet, left, middle, right)`. The temporary arrays have a spare cell. -/
def merge (vet : ℤ → ℤ) (left middle right : ℤ) : ℤ → ℤ :=
  let n1 := middle - left + 1
  let n2 := right - middle
  let L := copyLoop vet left n1 0 fun _ => 0
  let R := copyLoop vet (middle + 1) n2 0 fun _ => 0
  drainBoth L R n1 n2 (mergeLoop L R n1 n2 0 0 left vet)

/-- The elements of two lists in order, those of `xs` first where they are equal. -/
def merged (xs ys : List ℤ) : List ℤ := xs.merge ys fun x y => decide (x ≤ y)

theorem merged_le {x y : ℤ} (xs ys : List ℤ) (le : x ≤ y) :
    merged (x :: xs) (y :: ys) = x :: merged xs (y :: ys) :=
  List.cons_merge_cons_pos _ _ _ (decide_eq_true le)

theorem merged_gt {x y : ℤ} (xs ys : List ℤ) (gt : ¬ x ≤ y) :
    merged (x :: xs) (y :: ys) = y :: merged (x :: xs) ys :=
  List.cons_merge_cons_neg _ _ _ (by simpa using gt)

theorem copyLoop_before (vet : ℤ → ℤ) (first n i : ℤ) (A : ℤ → ℤ) {z : ℤ} (before : z < i) :
    copyLoop vet first n i A z = A z := by
  induction i, A using copyLoop.induct vet first n with
  | case1 i A more ih =>
    rw [copyLoop, if_pos more, ih (by omega), Function.update_of_ne (by omega)]
  | case2 i A done => rw [copyLoop, if_neg done]

/-- The copy holds the elements from `first` on. -/
theorem copyLoop_eq (vet : ℤ → ℤ) (first n i : ℤ) (A : ℤ → ℤ) {z : ℤ} (lower : i ≤ z) (upper : z ≤ n) :
    copyLoop vet first n i A z = vet (first + z) := by
  induction i, A using copyLoop.induct vet first n with
  | case1 i A more ih =>
    rw [copyLoop, if_pos more]
    rcases eq_or_lt_of_le lower with rfl | after
    · rw [copyLoop_before _ _ _ _ _ (by omega), Function.update_self]
    · exact ih (by omega)
  | case2 i A done => omega

theorem cells_copyLoop (vet : ℤ → ℤ) (first n : ℤ) (A : ℤ → ℤ) :
    cells (copyLoop vet first n 0 A) 0 n = cells vet first (first + n) := by
  have count : (first + n - first).toNat = (n - 0).toNat := by omega
  rw [cells, cells, count]
  refine List.map_congr_left fun i inside => ?_
  rw [List.mem_range] at inside
  rw [copyLoop_eq vet first n 0 A (by omega) (by omega)]
  congr 1
  omega

theorem drainLoop_eq (A : ℤ → ℤ) (n i k : ℤ) (vet : ℤ → ℤ) (le : i ≤ n) :
    drainLoop A n i k vet = (store vet k (cells A i n), k + (n - i)) := by
  induction i, k, vet using drainLoop.induct A n with
  | case1 i k vet more ih =>
    rw [drainLoop, if_pos more, ih (by omega), cells_cons more, store]
    congr 1
    omega
  | case2 i k vet done =>
    obtain rfl : i = n := by omega
    rw [drainLoop, if_neg done, cells_nil le_rfl, store]
    simp

/-- The three loops together write the merged list. -/
theorem drainBoth_mergeLoop (L R : ℤ → ℤ) (n1 n2 i j k : ℤ) (vet : ℤ → ℤ) (le1 : i ≤ n1) (le2 : j ≤ n2) :
    drainBoth L R n1 n2 (mergeLoop L R n1 n2 i j k vet) =
      store vet k (merged (cells L i n1) (cells R j n2)) := by
  induction i, j, k, vet using mergeLoop.induct L R n1 n2 with
  | case1 i j k vet more le ih =>
    rw [mergeLoop, if_pos more, if_pos le, ih (by omega) le2, cells_cons (a := L) more.1,
      cells_cons (a := R) more.2, merged_le _ _ le, store]
  | case2 i j k vet more gt ih =>
    rw [mergeLoop, if_pos more, if_neg gt, ih le1 (by omega), cells_cons (a := L) more.1,
      cells_cons (a := R) more.2, merged_gt _ _ gt, store]
  | case3 i j k vet done =>
    rw [mergeLoop, if_neg done]
    simp only [drainBoth, drainLoop_eq L n1 i k vet le1, drainLoop_eq R n2 j _ _ le2]
    rcases (by omega : i = n1 ∨ j = n2) with rfl | rfl
    · simp [cells_nil, store, merged]
    · simp [cells_nil, store, merged]

/-- `merge` writes the merged halves over the range. -/
theorem merge_eq (vet : ℤ → ℤ) {left middle right : ℤ} (lower : left ≤ middle) (upper : middle < right) :
    merge vet left middle right =
      store vet left (merged (cells vet left (middle + 1)) (cells vet (middle + 1) (right + 1))) := by
  have first : left + (middle - left + 1) = middle + 1 := by omega
  have second : middle + 1 + (right - middle) = right + 1 := by omega
  rw [merge, drainBoth_mergeLoop _ _ _ _ _ _ _ _ (by omega) (by omega), cells_copyLoop, cells_copyLoop, first,
    second]

section
variable {vet : ℤ → ℤ} {left middle right : ℤ}

theorem length_merged (lower : left ≤ middle) (upper : middle < right) :
    ((merged (cells vet left (middle + 1)) (cells vet (middle + 1) (right + 1))).length : ℤ) =
      right + 1 - left := by
  rw [merged, List.length_merge, length_cells, length_cells]
  omega

/-- After `merge` the range holds the merged halves. -/
theorem cells_merge (lower : left ≤ middle) (upper : middle < right) :
    cells (merge vet left middle right) left (right + 1) =
      merged (cells vet left (middle + 1)) (cells vet (middle + 1) (right + 1)) := by
  have length := @length_merged vet _ _ _ lower upper
  have stored := cells_store (a := vet) (k := left)
    (merged (cells vet left (middle + 1)) (cells vet (middle + 1) (right + 1)))
  have last : left + (right + 1 - left) = right + 1 := by omega
  rw [length, last] at stored
  rw [merge_eq vet lower upper, stored]

theorem merge_other (lower : left ≤ middle) (upper : middle < right) {z : ℤ} (outside : z < left ∨ right < z) :
    merge vet left middle right z = vet z := by
  have length := @length_merged vet _ _ _ lower upper
  rw [merge_eq vet lower upper]
  exact store_other (by omega)

end

/-- `merge` works on its range only. -/
theorem merge_actsOn {left middle right : ℤ} (lower : left ≤ middle) (upper : middle < right) :
    ActsOn (Set.Icc left right) fun vet => merge vet left middle right where
  frame vet z outside := by
    rw [Set.mem_Icc] at outside
    exact merge_other lower upper (by omega)
  reads vet vet' same z inside := by
    have first : cells vet left (middle + 1) = cells vet' left (middle + 1) :=
      cells_congr fun w above below => same ⟨above, by omega⟩
    have second : cells vet (middle + 1) (right + 1) = cells vet' (middle + 1) (right + 1) :=
      cells_congr fun w above below => same ⟨by omega, by omega⟩
    have after := @cells_merge vet _ _ _ lower upper
    rw [first, second, ← cells_merge lower upper] at after
    exact eq_of_cells after inside.1 (by have le := inside.2; omega)

/-- Merging sorted halves sorts the range. -/
theorem merge_sorts {vet : ℤ → ℤ} {left middle right : ℤ} (lower : left ≤ middle) (upper : middle < right)
    (first : (cells vet left (middle + 1)).Pairwise (· ≤ ·))
    (second : (cells vet (middle + 1) (right + 1)).Pairwise (· ≤ ·)) :
    (cells (merge vet left middle right) left (right + 1)).Pairwise (· ≤ ·) := by
  have sorted := @List.pairwise_merge ℤ (fun x y => decide (x ≤ y))
    (fun x y z one two => by simp only [decide_eq_true_eq] at one two ⊢; omega)
    (fun x y => by simp only [Bool.or_eq_true, decide_eq_true_eq]; omega) _ _
    (first.imp fun le => decide_eq_true le) (second.imp fun le => decide_eq_true le)
  rw [cells_merge lower upper]
  exact sorted.imp fun le => of_decide_eq_true le

theorem merge_perm {vet : ℤ → ℤ} {left middle right : ℤ} (lower : left ≤ middle) (upper : middle < right) :
    (cells (merge vet left middle right) left (right + 1)).Perm (cells vet left (right + 1)) := by
  have split : cells vet left (right + 1) = cells vet left (middle + 1) ++ cells vet (middle + 1) (right + 1) :=
    cells_append (by omega) (by omega)
  rw [cells_merge lower upper, split]
  exact List.merge_perm_append _

end DeviceProgramming.MergeSort
