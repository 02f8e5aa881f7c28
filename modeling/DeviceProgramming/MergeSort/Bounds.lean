import DeviceProgramming.MergeSort.Trace

namespace DeviceProgramming.MergeSort

/-- The events of `merge` that use only what its arrays have: `L` has
`n1 = middle - left + 1` elements, `R` has `n2 = right - middle`, and the range
of `vet` is `left..right`. -/
def Inside (left middle right : ℤ) : Event → Prop
  | .int _ => True
  | .vet index => left ≤ index ∧ index ≤ right
  | .l index => index < middle - left + 1
  | .r index => index < right - middle

/-- The value of an `int` expression can be represented. -/
def InRange : Event → Prop
  | .int value => -2 ^ 31 ≤ value ∧ value ≤ 2 ^ 31 - 1
  | _ => True

section
variable {cell : ℤ → Event} {vet A L R : ℤ → ℤ} {first n n1 n2 i j k : ℤ} {P : Event → Prop}

theorem mem_copyTraced (e : Event) :
    e ∈ (copyTraced cell vet first n i A).1 ↔
      ∃ z, i ≤ z ∧ z ≤ n ∧ (e = .int (first + z) ∨ e = .vet (first + z) ∨ e = cell z ∨ e = .int (z + 1)) := by
  induction i, A using copyLoop.induct vet first n with
  | case1 i A more ih =>
    rw [copyTraced, if_pos more]
    simp only [List.mem_append, List.mem_cons, List.not_mem_nil, or_false, ih]
    constructor
    · rintro (now | ⟨z, after, upto, later⟩)
      · exact ⟨i, le_rfl, more, now⟩
      · exact ⟨z, by omega, upto, later⟩
    · rintro ⟨z, from_i, upto, event⟩
      rcases eq_or_lt_of_le from_i with rfl | after
      · exact Or.inl event
      · exact Or.inr ⟨z, by omega, upto, event⟩
  | case2 i A done =>
    rw [copyTraced, if_neg done]
    refine iff_of_false List.not_mem_nil ?_
    rintro ⟨z, from_i, upto, -⟩
    omega

/-- The cursors never pass the ends of `L` and `R`, and `k` moves with them. -/
theorem mergeLoopTraced_all (ls : ∀ z, i ≤ z → z < n1 → P (.l z) ∧ P (.int (z + 1)))
    (rs : ∀ z, j ≤ z → z < n2 → P (.r z) ∧ P (.int (z + 1)))
    (vs : ∀ z, k ≤ z → z < k + (n1 - i) + (n2 - j) → P (.vet z) ∧ P (.int (z + 1))) :
    ∀ e ∈ (mergeLoopTraced L R n1 n2 i j k vet).1, P e := by
  induction i, j, k, vet using mergeLoop.induct L R n1 n2 with
  | case1 i j k vet more le ih =>
    have left := ls i le_rfl more.1
    have right := rs j le_rfl more.2
    have out := vs k le_rfl (by omega)
    have later := ih (fun z after => ls z (by omega)) rs fun z after upto => vs z (by omega) (by omega)
    rw [mergeLoopTraced, if_pos more, if_pos le]
    simp only [List.forall_mem_append, List.forall_mem_cons]
    exact ⟨⟨left.1, right.1, out.2, out.1, left.2, left.1, List.forall_mem_nil _⟩, later⟩
  | case2 i j k vet more gt ih =>
    have left := ls i le_rfl more.1
    have right := rs j le_rfl more.2
    have out := vs k le_rfl (by omega)
    have later := ih ls (fun z after => rs z (by omega)) fun z after upto => vs z (by omega) (by omega)
    rw [mergeLoopTraced, if_pos more, if_neg gt]
    simp only [List.forall_mem_append, List.forall_mem_cons]
    exact ⟨⟨left.1, right.1, out.2, out.1, right.2, right.1, List.forall_mem_nil _⟩, later⟩
  | case3 i j k vet done =>
    rw [mergeLoopTraced, if_neg done]
    exact List.forall_mem_nil _

/-- Where the cursors are when one of the arrays has been used up. -/
theorem mergeLoop_cursors (first : i ≤ n1) (second : j ≤ n2) :
    i ≤ (mergeLoop L R n1 n2 i j k vet).2.1 ∧ (mergeLoop L R n1 n2 i j k vet).2.1 ≤ n1 ∧
      j ≤ (mergeLoop L R n1 n2 i j k vet).2.2.1 ∧ (mergeLoop L R n1 n2 i j k vet).2.2.1 ≤ n2 ∧
      (mergeLoop L R n1 n2 i j k vet).2.2.2 - k =
        ((mergeLoop L R n1 n2 i j k vet).2.1 - i) + ((mergeLoop L R n1 n2 i j k vet).2.2.1 - j) := by
  induction i, j, k, vet using mergeLoop.induct L R n1 n2 with
  | case1 i j k vet more le ih =>
    rw [mergeLoop, if_pos more, if_pos le]
    have later := ih (by omega) second
    omega
  | case2 i j k vet more gt ih =>
    rw [mergeLoop, if_pos more, if_neg gt]
    have later := ih first (by omega)
    omega
  | case3 i j k vet done =>
    rw [mergeLoop, if_neg done]
    dsimp only
    omega

theorem drainTraced_all (cells : ∀ z, i ≤ z → z < n → P (cell z) ∧ P (.int (z + 1)))
    (vs : ∀ z, k ≤ z → z < k + (n - i) → P (.vet z) ∧ P (.int (z + 1))) :
    ∀ e ∈ (drainTraced cell A n i k vet).1, P e := by
  induction i, k, vet using drainLoop.induct A n with
  | case1 i k vet more ih =>
    have read := cells i le_rfl more
    have out := vs k le_rfl (by omega)
    have later := ih (fun z after => cells z (by omega)) fun z after upto => vs z (by omega) (by omega)
    rw [drainTraced, if_pos more]
    simp only [List.forall_mem_append, List.forall_mem_cons]
    exact ⟨⟨out.2, out.1, read.2, read.1, List.forall_mem_nil _⟩, later⟩
  | case2 i k vet done =>
    rw [drainTraced, if_neg done]
    exact List.forall_mem_nil _

theorem drainLoop_cursor (le : i ≤ n) : (drainLoop A n i k vet).2 = k + (n - i) := by
  rw [drainLoop_eq A n i k vet le]

end

section
variable {vet : ℤ → ℤ} {left middle right : ℤ} {P : Event → Prop}

/-- A property of the expressions and of the accesses of `merge`, loop by loop. -/
theorem mergeTraced_all (lower : left ≤ middle) (upper : middle < right)
    (start : P (.int (middle - left)) ∧ P (.int (middle - left + 1)) ∧ P (.int (right - middle)) ∧
      P (.int (middle + 1)))
    (ls : ∀ z, 0 ≤ z → z ≤ middle - left + 1 → P (.int (left + z)) ∧ P (.vet (left + z)) ∧ P (.l z) ∧ P (.int (z + 1)))
    (rs : ∀ z, 0 ≤ z → z ≤ right - middle →
      P (.int (middle + 1 + z)) ∧ P (.vet (middle + 1 + z)) ∧ P (.r z) ∧ P (.int (z + 1)))
    (vs : ∀ z, left ≤ z → z ≤ right → P (.vet z) ∧ P (.int (z + 1))) :
    ∀ e ∈ (mergeTraced vet left middle right).1, P e := by
  have first : ∀ e ∈ (copyTraced .l vet left (middle - left + 1) 0 fun _ => 0).1, P e := by
    intro e event
    obtain ⟨z, lo, hi, rfl | rfl | rfl | rfl⟩ := (mem_copyTraced e).mp event
    · exact (ls z lo hi).1
    · exact (ls z lo hi).2.1
    · exact (ls z lo hi).2.2.1
    · exact (ls z lo hi).2.2.2
  have second : ∀ e ∈ (copyTraced .r vet (middle + 1) (right - middle) 0 fun _ => 0).1, P e := by
    intro e event
    obtain ⟨z, lo, hi, rfl | rfl | rfl | rfl⟩ := (mem_copyTraced e).mp event
    · exact (rs z lo hi).1
    · exact (rs z lo hi).2.1
    · exact (rs z lo hi).2.2.1
    · exact (rs z lo hi).2.2.2
  rw [mergeTraced]
  simp only [copyTraced_array, mergeLoopTraced_out, drainTraced_out]
  generalize copyLoop vet left (middle - left + 1) 0 (fun _ => 0) = L
  generalize copyLoop vet (middle + 1) (right - middle) 0 (fun _ => 0) = R
  have cursors := @mergeLoop_cursors vet L R (middle - left + 1) (right - middle) 0 0 left (by omega) (by omega)
  generalize mergeLoop L R (middle - left + 1) (right - middle) 0 0 left vet = out at cursors ⊢
  obtain ⟨merged, i, j, k⟩ := out
  obtain ⟨i_lo, i_hi, j_lo, j_hi, moved⟩ := cursors
  dsimp only at i_lo i_hi j_lo j_hi moved ⊢
  simp only [List.forall_mem_append, List.forall_mem_cons]
  refine ⟨⟨⟨⟨⟨⟨start.1, start.2.1, start.2.2.1, List.forall_mem_nil _⟩, first⟩, start.2.2.2, second⟩, ?_⟩, ?_⟩, ?_⟩
  · exact mergeLoopTraced_all (fun z lo hi => (ls z lo (by omega)).2.2) (fun z lo hi => (rs z lo (by omega)).2.2)
      fun z lo hi => vs z lo (by omega)
  · exact drainTraced_all (fun z lo hi => (ls z (by omega) (by omega)).2.2) fun z lo hi => vs z (by omega) (by omega)
  · rw [drainLoop_cursor i_hi]
    exact drainTraced_all (fun z lo hi => (rs z (by omega) (by omega)).2.2) fun z lo hi => vs z (by omega) (by omega)

/-- The copy loops are part of `merge`. -/
theorem mem_mergeTraced {e : Event}
    (copied : e ∈ (copyTraced .l vet left (middle - left + 1) 0 fun _ => 0).1 ∨
      e ∈ (copyTraced .r vet (middle + 1) (right - middle) 0 fun _ => 0).1) :
    e ∈ (mergeTraced vet left middle right).1 := by
  rw [mergeTraced]
  simp only [List.mem_append, List.mem_cons]
  tauto

/-- All `int` expressions of `merge` lie between zero and `right + 1`. -/
theorem mergeTraced_inRange (nonneg : 0 ≤ left) (lower : left ≤ middle) (upper : middle < right)
    (fits : right + 1 ≤ 2 ^ 31 - 1) : ∀ e ∈ (mergeTraced vet left middle right).1, InRange e := by
  refine mergeTraced_all lower upper ?_ ?_ ?_ ?_
  · simp only [InRange]
    omega
  · intro z lo hi
    simp only [InRange, true_and]
    omega
  · intro z lo hi
    simp only [InRange, true_and]
    omega
  · intro z lo hi
    simp only [InRange, true_and]
    omega

theorem mergeSortTraced_inRange (nonneg : 0 ≤ left) (fits : right + 1 ≤ 2 ^ 31 - 1) :
    ∀ e ∈ (mergeSortTraced vet left right).1, InRange e := by
  induction vet, left, right using mergeSort.induct with
  | case1 vet left right more ih1 ih2 =>
    have lower := le_middle more
    have upper := middle_lt more
    have split : InRange (.int (right - left)) ∧ InRange (.int ((right - left) / 2)) ∧
        InRange (.int (MergeSort.middle left right)) ∧ InRange (.int (MergeSort.middle left right + 1)) := by
      simp only [InRange]
      omega
    rw [mergeSortTraced, if_pos more]
    simp only [List.forall_mem_append, List.forall_mem_cons]
    refine ⟨⟨⟨⟨split.1, split.2.1, split.2.2.1, List.forall_mem_nil _⟩, ih1 nonneg (by omega)⟩, split.2.2.2, ?_⟩, ?_⟩
    · rw [mergeSortTraced_array]
      exact ih2 (by omega) fits
    · exact mergeTraced_inRange nonneg lower upper fits
  | case2 vet left right done =>
    rw [mergeSortTraced, if_neg done]
    exact List.forall_mem_nil _

end

/-- `mergeSort` sorts any range of an array whose length is an `int`: none of
its expressions overflows, the range is left in nondecreasing order with the
elements it had, and the rest of the array is left alone. -/
theorem mergeSort_sorts_range (vet : ℤ → ℤ) (n left right : ℤ) (length : n ≤ 2 ^ 31 - 1) (first : 0 ≤ left)
    (last : right < n) :
    (∀ e ∈ (mergeSortTraced vet left right).1, InRange e) ∧
      (cells (mergeSortTraced vet left right).2 left (right + 1)).Pairwise (· ≤ ·) ∧
      (cells (mergeSortTraced vet left right).2 left (right + 1)).Perm (cells vet left (right + 1)) ∧
      ∀ z, z < left ∨ right < z → (mergeSortTraced vet left right).2 z = vet z := by
  have expressions := @mergeSortTraced_inRange vet left right first (by omega)
  have kept (z : ℤ) (outside : z < left ∨ right < z) : mergeSort vet left right z = vet z := by
    refine (mergeSort_actsOn left right).frame vet z fun inside => ?_
    rw [Set.mem_Icc] at inside
    omega
  rw [mergeSortTraced_array]
  exact ⟨expressions, mergeSort_sorts vet left right, mergeSort_perm vet left right, kept⟩

/-- Three elements of an array of five, in descending order. -/
theorem mergeSort_sorts_three :
    (∀ e ∈ (mergeSortTraced (fun z => -z) 1 3).1, InRange e) ∧
      (cells (mergeSortTraced (fun z => -z) 1 3).2 1 4).Pairwise (· ≤ ·) ∧
      (cells (mergeSortTraced (fun z => -z) 1 3).2 1 4).Perm (cells (fun z => -z) 1 4) ∧
      ∀ z, z < 1 ∨ 3 < z → (mergeSortTraced (fun z => -z) 1 3).2 z = -z :=
  mergeSort_sorts_range (fun z => -z) 5 1 3 (by decide) (by decide) (by decide)

/-- Every call of `merge` leaves its arrays in exactly three places, the extra
turns of its copy loops: it writes behind the end of `L` and of `R`, and reads
`vet[right + 1]`. -/
theorem merge_leaves_arrays (vet : ℤ → ℤ) (left middle right : ℤ) (lower : left ≤ middle) (upper : middle < right) :
    (¬ ∀ e ∈ (mergeTraced vet left middle right).1, Inside left middle right e) ∧
      ∀ e, e ∈ (mergeTraced vet left middle right).1 ∧ ¬ Inside left middle right e ↔
        e = .l (middle - left + 1) ∨ e = .r (right - middle) ∨ e = .vet (right + 1) := by
  have found (e : Event) (extra : e = .l (middle - left + 1) ∨ e = .r (right - middle) ∨ e = .vet (right + 1)) :
      e ∈ (mergeTraced vet left middle right).1 := by
    refine mem_mergeTraced ?_
    rcases extra with rfl | rfl | rfl
    · exact Or.inl ((mem_copyTraced _).mpr ⟨middle - left + 1, by omega, le_rfl, by simp⟩)
    · exact Or.inr ((mem_copyTraced _).mpr ⟨right - middle, by omega, le_rfl, by simp⟩)
    · refine Or.inr ((mem_copyTraced _).mpr ⟨right - middle, by omega, le_rfl, Or.inr (Or.inl ?_)⟩)
      congr 1
      omega
  have leaves (e : Event) (extra : e = .l (middle - left + 1) ∨ e = .r (right - middle) ∨ e = .vet (right + 1)) :
      ¬ Inside left middle right e := by
    rcases extra with rfl | rfl | rfl <;> simp only [Inside] <;> omega
  have others : ∀ e ∈ (mergeTraced vet left middle right).1, ¬ Inside left middle right e →
      e = .l (middle - left + 1) ∨ e = .r (right - middle) ∨ e = .vet (right + 1) := by
    refine mergeTraced_all lower upper ?_ ?_ ?_ ?_
    · simp [Inside]
    · intro z lo hi
      simp only [Inside, not_true, false_imp_iff, true_and, and_true, Event.l.injEq, Event.vet.injEq, reduceCtorEq,
        or_false, false_or]
      omega
    · intro z lo hi
      simp only [Inside, not_true, false_imp_iff, true_and, and_true, Event.r.injEq, Event.vet.injEq, reduceCtorEq,
        or_false, false_or]
      omega
    · intro z lo hi
      simp only [Inside, not_true, false_imp_iff, and_true, Event.vet.injEq, reduceCtorEq, false_or]
      omega
  refine ⟨fun all => ?_,
    fun e => ⟨fun outside => others e outside.1 outside.2, fun extra => ⟨found e extra, leaves e extra⟩⟩⟩
  exact leaves _ (Or.inl rfl) (all _ (found _ (Or.inl rfl)))

/-- The call for a range of two elements. -/
theorem merge_leaves_arrays_two :
    (¬ ∀ e ∈ (mergeTraced (fun _ => 7) 0 0 1).1, Inside 0 0 1 e) ∧
      ∀ e, e ∈ (mergeTraced (fun _ => 7) 0 0 1).1 ∧ ¬ Inside 0 0 1 e ↔
        e = .l (0 - 0 + 1) ∨ e = .r (1 - 0) ∨ e = .vet (1 + 1) :=
  merge_leaves_arrays (fun _ => 7) 0 0 1 (by decide) (by decide)

/-- Merging two elements writes `L[1]`, although `L` has one element. -/
theorem merge_writes_behind_L :
    ¬ ∀ (vet : ℤ → ℤ) (n left middle right : ℤ), 0 ≤ left → left ≤ middle → middle < right → right ≤ n - 1 →
      ∀ e ∈ (mergeTraced vet left middle right).1, Inside left middle right e := by
  intro always
  have inside := always (fun _ => 7) 2 0 0 1 (by decide) (by decide) (by decide) (by decide) (.l 1)
    (mem_mergeTraced (Or.inl ((mem_copyTraced _).mpr ⟨1, by decide, by decide, by simp⟩)))
  exact absurd inside (by simp [Inside])

end DeviceProgramming.MergeSort
