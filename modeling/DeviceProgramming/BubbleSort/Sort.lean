import DeviceProgramming.Machine.Cells

namespace DeviceProgramming.BubbleSort

/-- `exchange` of the cells `a` and `b` of `src`. -/
abbrev exchange (src : ℤ → ℤ) (a b : ℤ) : ℤ → ℤ := swap src a b

/-- The `while` loop of `sort` from `tmp` on, which compares before it looks at
the index. -/
def sink (tmp : ℤ) (src : ℤ → ℤ) : ℤ → ℤ :=
  if src tmp > src (tmp + 1) ∧ tmp ≥ 0 then sink (tmp - 1) (exchange src tmp (tmp + 1)) else src
termination_by (tmp + 1).toNat

/-- The `for` loop of `sort` from `i` on. -/
def sortFrom (size i : ℤ) (src : ℤ → ℤ) : ℤ → ℤ :=
  if i < size then sortFrom size (i + 1) (sink (i - 1) src) else src
termination_by (size - i).toNat

/-- `sort(src, size)`. -/
def sort (src : ℤ → ℤ) (size : ℤ) : ℤ → ℤ := sortFrom size 0 src

variable {src : ℤ → ℤ} {tmp hi size i z : ℤ}

theorem sink_more (more : src tmp > src (tmp + 1) ∧ tmp ≥ 0) :
    sink tmp src = sink (tmp - 1) (exchange src tmp (tmp + 1)) := by
  rw [sink, if_pos more]

theorem sink_done (done : ¬ (src tmp > src (tmp + 1) ∧ tmp ≥ 0)) : sink tmp src = src := by
  rw [sink, if_neg done]

theorem sortFrom_more (more : i < size) : sortFrom size i src = sortFrom size (i + 1) (sink (i - 1) src) := by
  rw [sortFrom, if_pos more]

theorem sortFrom_done (done : ¬ i < size) : sortFrom size i src = src := by
  rw [sortFrom, if_neg done]

/-- Insertion of the cell behind `tmp`, which may be too small for its place. -/
theorem sink_sorted (except : SortedExcept src 0 hi (tmp + 1)) (within : -1 ≤ tmp ∧ tmp < hi) :
    MonotoneOn (sink tmp src) (Set.Icc 0 hi) := by
  induction tmp, src using sink.induct with
  | case1 tmp src more ih =>
    obtain ⟨greater, inside⟩ := more
    rw [sink_more ⟨greater, inside⟩]
    have smaller : src (tmp + 1) < src (tmp + 1 - 1) := by rwa [add_sub_cancel_right]
    have moved := except.swap smaller (by omega) (by omega)
    rw [add_sub_cancel_right] at moved
    exact ih (by rwa [sub_add_cancel]) (by omega)
  | case2 tmp src done =>
    rw [sink_done done]
    refine except.monotoneOn fun above => ?_
    rw [add_sub_cancel_right]
    by_contra greater
    exact done ⟨not_le.mp greater, by omega⟩

theorem sink_other (outside : z < 0 ∨ tmp + 1 < z) : sink tmp src z = src z := by
  induction tmp, src using sink.induct with
  | case1 tmp src more ih =>
    have inside := more.2
    rw [sink_more more, ih (by omega)]
    exact swap_other src (by omega) (by omega)
  | case2 tmp src done => rw [sink_done done]

theorem sink_perm {n : ℕ} (within : tmp + 1 < n) : (contents n (sink tmp src)).Perm (contents n src) := by
  induction tmp, src using sink.induct with
  | case1 tmp src more ih =>
    have inside := more.2
    rw [sink_more more]
    exact (ih (by omega)).trans (contents_swap src (by omega) (by omega))
  | case2 tmp src done => rw [sink_done done]

/-- What lies in front of the vector is compared, but it does not matter. -/
theorem sink_stray (from_front : -1 ≤ tmp) (stray : ℤ) :
    sink tmp (Function.update src (-1) stray) = Function.update (sink tmp src) (-1) stray := by
  induction tmp, src using sink.induct with
  | case1 tmp src more ih =>
    have inside := more.2
    have first : Function.update src (-1) stray tmp = src tmp := Function.update_of_ne (by omega) ..
    have second : Function.update src (-1) stray (tmp + 1) = src (tmp + 1) := Function.update_of_ne (by omega) ..
    have moved : exchange (Function.update src (-1) stray) tmp (tmp + 1) =
        Function.update (exchange src tmp (tmp + 1)) (-1) stray := by
      have front : (-1 : ℤ) ≠ tmp := by omega
      have behind : (-1 : ℤ) ≠ tmp + 1 := by omega
      rw [exchange, swap, first, second, Function.update_comm front, Function.update_comm behind]
      rfl
    rw [sink_more more, sink_more (by rwa [first, second]), moved, ih (by omega)]
  | case2 tmp src done =>
    have stays : ¬ (Function.update src (-1) stray tmp > Function.update src (-1) stray (tmp + 1) ∧ tmp ≥ 0) := by
      rintro ⟨greater, inside⟩
      rw [Function.update_of_ne (by omega), Function.update_of_ne (by omega)] at greater
      exact done ⟨greater, inside⟩
    rw [sink_done stays, sink_done done]

theorem sortFrom_sorted (sorted : MonotoneOn src (Set.Icc 0 (i - 1))) (within : 0 ≤ i ∧ i ≤ size) :
    MonotoneOn (sortFrom size i src) (Set.Icc 0 (size - 1)) := by
  induction i, src using sortFrom.induct size with
  | case1 i src more ih =>
    rw [sortFrom_more more]
    have except : SortedExcept src 0 i (i - 1 + 1) := by
      rw [sub_add_cancel]
      exact sortedExcept_last sorted
    refine ih ?_ (by omega)
    rw [add_sub_cancel_right]
    exact sink_sorted except (by omega)
  | case2 i src done =>
    obtain rfl : i = size := by omega
    rwa [sortFrom_done done]

theorem sortFrom_other (outside : z < 0 ∨ size ≤ z) : sortFrom size i src z = src z := by
  induction i, src using sortFrom.induct size with
  | case1 i src more ih =>
    rw [sortFrom_more more, ih]
    exact sink_other (by omega)
  | case2 i src done => rw [sortFrom_done done]

theorem sortFrom_perm {n : ℕ} : (contents n (sortFrom n i src)).Perm (contents n src) := by
  induction i, src using sortFrom.induct n with
  | case1 i src more ih =>
    rw [sortFrom_more more]
    exact ih.trans (sink_perm (by omega))
  | case2 i src done => rw [sortFrom_done done]

theorem sortFrom_stray (from_start : 0 ≤ i) (stray : ℤ) :
    sortFrom size i (Function.update src (-1) stray) = Function.update (sortFrom size i src) (-1) stray := by
  induction i, src using sortFrom.induct size with
  | case1 i src more ih =>
    rw [sortFrom_more more, sortFrom_more more, sink_stray (by omega), ih (by omega)]
  | case2 i src done => rw [sortFrom_done done, sortFrom_done done]

/-- `sort` sorts the vector, leaves all other cells alone, and does with any
value in front of the vector what it does without it. -/
theorem sort_sorts (size : ℕ) (src : ℤ → ℤ) :
    (contents size (sort src size)).Pairwise (· ≤ ·) ∧ (contents size (sort src size)).Perm (contents size src) ∧
      (∀ z : ℤ, z < 0 ∨ size ≤ z → sort src size z = src z) ∧
      ∀ stray, contents size (sort (Function.update src (-1) stray) size) = contents size (sort src size) := by
  refine ⟨pairwise_contents (sortFrom_sorted ?_ (by omega)), sortFrom_perm, fun z => sortFrom_other, fun stray => ?_⟩
  · rintro x ⟨lower, upper⟩
    omega
  · rw [sort, sort, sortFrom_stray le_rfl, contents, contents]
    refine congrArg List.ofFn (funext fun k => ?_)
    exact Function.update_of_ne (by omega) ..

end DeviceProgramming.BubbleSort
