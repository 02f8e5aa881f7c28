import DeviceProgramming.BubbleSort.Sort

namespace DeviceProgramming.BubbleSort

/-- The indices that `exchange` dereferences. -/
def exchangeIndices (a b : ℤ) : List ℤ := [a, b, a, b]

/-- `sink` with the indices it dereferences. -/
def sinkTraced (tmp : ℤ) (src : ℤ → ℤ) : List ℤ × (ℤ → ℤ) :=
  if src tmp > src (tmp + 1) ∧ tmp ≥ 0 then
    let (indices, out) := sinkTraced (tmp - 1) (exchange src tmp (tmp + 1))
    ([tmp, tmp + 1] ++ exchangeIndices tmp (tmp + 1) ++ indices, out)
  else ([tmp, tmp + 1], src)
termination_by (tmp + 1).toNat

/-- `sortFrom` with the indices it dereferences. -/
def sortFromTraced (size i : ℤ) (src : ℤ → ℤ) : List ℤ × (ℤ → ℤ) :=
  if i < size then
    let (sunk, src) := sinkTraced (i - 1) src
    let (indices, out) := sortFromTraced size (i + 1) src
    (sunk ++ indices, out)
  else ([], src)
termination_by (size - i).toNat

/-- `sort` with the indices it dereferences. -/
def sortTraced (src : ℤ → ℤ) (size : ℤ) : List ℤ × (ℤ → ℤ) := sortFromTraced size 0 src

variable {src : ℤ → ℤ} {tmp size i index : ℤ}

theorem sinkTraced_array : (sinkTraced tmp src).2 = sink tmp src := by
  induction tmp, src using sink.induct with
  | case1 tmp src more ih => rw [sinkTraced, if_pos more, sink_more more, ← ih]
  | case2 tmp src done => rw [sinkTraced, if_neg done, sink_done done]

theorem sortFromTraced_array : (sortFromTraced size i src).2 = sortFrom size i src := by
  induction i, src using sortFrom.induct size with
  | case1 i src more ih =>
    rw [sortFromTraced, if_pos more, sortFrom_more more, ← ih]
    simp only [sinkTraced_array]
  | case2 i src done => rw [sortFromTraced, if_neg done, sortFrom_done done]

/-- The trace does not change what `sort` computes. -/
theorem sortTraced_array : (sortTraced src size).2 = sort src size := sortFromTraced_array

/-- A value that sinks is compared down to the cell in front of the vector at most. -/
theorem mem_sinkTraced (from_front : -1 ≤ tmp) (member : index ∈ (sinkTraced tmp src).1) :
    -1 ≤ index ∧ index ≤ tmp + 1 := by
  induction tmp, src using sink.induct with
  | case1 tmp src more ih =>
    have inside := more.2
    rw [sinkTraced, if_pos more] at member
    simp only [exchangeIndices, List.mem_append, List.mem_cons, List.not_mem_nil, or_false] at member
    rcases member with (here | here) | later
    · omega
    · omega
    · have bounds := ih (by omega) later
      omega
  | case2 tmp src done =>
    rw [sinkTraced, if_neg done] at member
    simp only [List.mem_cons, List.not_mem_nil, or_false] at member
    omega

theorem mem_sortFromTraced (from_start : 0 ≤ i) (member : index ∈ (sortFromTraced size i src).1) :
    -1 ≤ index ∧ index < size := by
  induction i, src using sortFrom.induct size with
  | case1 i src more ih =>
    rw [sortFromTraced, if_pos more] at member
    simp only [sinkTraced_array, List.mem_append] at member
    rcases member with sunk | later
    · have bounds := mem_sinkTraced (by omega) sunk
      omega
    · exact ih (by omega) later
  | case2 i src done =>
    rw [sortFromTraced, if_neg done] at member
    cases member

/-- The first element is compared with what lies in front of it. -/
theorem front_mem (some : 0 < size) : -1 ∈ (sortTraced src size).1 := by
  have first : ¬ (src (0 - 1) > src (0 - 1 + 1) ∧ (0 - 1 : ℤ) ≥ 0) := by
    rintro ⟨_, inside⟩
    omega
  rw [sortTraced, sortFromTraced, if_pos some, sinkTraced, if_neg first]
  exact List.mem_append_left _ (List.mem_cons_self ..)

/-- `sort` reads and writes only elements of its vector exactly when the vector
is empty; otherwise the one index outside that it uses is -1. -/
theorem sort_stays_inside_iff (size : ℕ) (src : ℤ → ℤ) :
    ((∀ index ∈ (sortTraced src size).1, 0 ≤ index ∧ index < size) ↔ size = 0) ∧
      ∀ index ∈ (sortTraced src size).1, -1 ≤ index ∧ index < size := by
  have all (index : ℤ) (member : index ∈ (sortTraced src size).1) : -1 ≤ index ∧ index < size :=
    mem_sortFromTraced le_rfl member
  refine ⟨⟨fun inside => ?_, fun empty index member => ?_⟩, all⟩
  · by_contra some
    have front := inside (-1) (front_mem (by omega))
    omega
  · have bounds := all index member
    rw [sortTraced, sortFromTraced, if_neg (by omega)] at member
    cases member

/-- A vector of one element is compared with the cell in front of it. -/
theorem sort_reads_in_front :
    ¬ ∀ (size : ℕ) (src : ℤ → ℤ), ∀ index ∈ (sortTraced src size).1, 0 ≤ index ∧ index < size := by
  intro inside
  have front := inside 1 (fun _ => 0) (-1) (front_mem (by decide))
  omega

end DeviceProgramming.BubbleSort
