import DeviceProgramming.MergeSort.Sequential

namespace DeviceProgramming.MergeSort

/-- What a statement of `merge` does: it computes an `int` expression, or uses
an element of `vet`, of `L` or of `R`. -/
inductive Event
  | int (value : ℤ)
  | vet (index : ℤ)
  | l (index : ℤ)
  | r (index : ℤ)
  deriving DecidableEq

/-- `copyLoop` with its events; `cell` is the array that is filled. -/
def copyTraced (cell : ℤ → Event) (vet : ℤ → ℤ) (first n i : ℤ) (A : ℤ → ℤ) : List Event × (ℤ → ℤ) :=
  if i ≤ n then
    let (events, A) := copyTraced cell vet first n (i + 1) (Function.update A i (vet (first + i)))
    ([.int (first + i), .vet (first + i), cell i, .int (i + 1)] ++ events, A)
  else ([], A)
termination_by (n + 1 - i).toNat

/-- `mergeLoop` with its events. -/
def mergeLoopTraced (L R : ℤ → ℤ) (n1 n2 i j k : ℤ) (vet : ℤ → ℤ) : List Event × (ℤ → ℤ) × ℤ × ℤ × ℤ :=
  if i < n1 ∧ j < n2 then
    if L i ≤ R j then
      let (events, out) := mergeLoopTraced L R n1 n2 (i + 1) j (k + 1) (Function.update vet k (L i))
      ([.l i, .r j, .int (k + 1), .vet k, .int (i + 1), .l i] ++ events, out)
    else
      let (events, out) := mergeLoopTraced L R n1 n2 i (j + 1) (k + 1) (Function.update vet k (R j))
      ([.l i, .r j, .int (k + 1), .vet k, .int (j + 1), .r j] ++ events, out)
  else ([], vet, i, j, k)
termination_by (n1 - i).toNat + (n2 - j).toNat

/-- `drainLoop` with its events; `cell` is the array that is copied. -/
def drainTraced (cell : ℤ → Event) (A : ℤ → ℤ) (n i k : ℤ) (vet : ℤ → ℤ) : List Event × (ℤ → ℤ) × ℤ :=
  if i < n then
    let (events, out) := drainTraced cell A n (i + 1) (k + 1) (Function.update vet k (A i))
    ([.int (k + 1), .vet k, .int (i + 1), cell i] ++ events, out)
  else ([], vet, k)
termination_by (n - i).toNat

/-- `merge` with its events. -/
def mergeTraced (vet : ℤ → ℤ) (left middle right : ℤ) : List Event × (ℤ → ℤ) :=
  let n1 := middle - left + 1
  let n2 := right - middle
  let (events1, L) := copyTraced .l vet left n1 0 fun _ => 0
  let (events2, R) := copyTraced .r vet (middle + 1) n2 0 fun _ => 0
  let (events3, vet, i, j, k) := mergeLoopTraced L R n1 n2 0 0 left vet
  let (events4, vet, k) := drainTraced .l L n1 i k vet
  let (events5, vet, _) := drainTraced .r R n2 j k vet
  ([.int (middle - left), .int n1, .int n2] ++ events1 ++ .int (middle + 1) :: events2 ++ events3 ++ events4 ++
    events5, vet)

/-- `mergeSort` with its events and those of its calls. -/
def mergeSortTraced (vet : ℤ → ℤ) (left right : ℤ) : List Event × (ℤ → ℤ) :=
  if left < right then
    let (events1, vet) := mergeSortTraced vet left (middle left right)
    let (events2, vet) := mergeSortTraced vet (middle left right + 1) right
    let (events3, vet) := mergeTraced vet left (middle left right) right
    ([.int (right - left), .int ((right - left) / 2), .int (middle left right)] ++ events1 ++
      .int (middle left right + 1) :: events2 ++ events3, vet)
  else ([], vet)
termination_by (right - left).toNat
decreasing_by
  all_goals
    rename_i more
    have lower := le_middle more
    have upper := middle_lt more
    omega

variable {cell : ℤ → Event} {vet A L R : ℤ → ℤ} {first n n1 n2 i j k left middle right : ℤ} {e : Event}

theorem copyTraced_array : (copyTraced cell vet first n i A).2 = copyLoop vet first n i A := by
  induction i, A using copyLoop.induct vet first n with
  | case1 i A more ih => rw [copyTraced, copyLoop, if_pos more, if_pos more, ← ih]
  | case2 i A done => rw [copyTraced, copyLoop, if_neg done, if_neg done]

theorem mergeLoopTraced_out :
    (mergeLoopTraced L R n1 n2 i j k vet).2 = mergeLoop L R n1 n2 i j k vet := by
  induction i, j, k, vet using mergeLoop.induct L R n1 n2 with
  | case1 i j k vet more le ih =>
    rw [mergeLoopTraced, mergeLoop, if_pos more, if_pos more, if_pos le, if_pos le, ← ih]
  | case2 i j k vet more gt ih =>
    rw [mergeLoopTraced, mergeLoop, if_pos more, if_pos more, if_neg gt, if_neg gt, ← ih]
  | case3 i j k vet done => rw [mergeLoopTraced, mergeLoop, if_neg done, if_neg done]

theorem drainTraced_out : (drainTraced cell A n i k vet).2 = drainLoop A n i k vet := by
  induction i, k, vet using drainLoop.induct A n with
  | case1 i k vet more ih => rw [drainTraced, drainLoop, if_pos more, if_pos more, ← ih]
  | case2 i k vet done => rw [drainTraced, drainLoop, if_neg done, if_neg done]

/-- The events do not change what `merge` computes. -/
theorem mergeTraced_array : (mergeTraced vet left middle right).2 = merge vet left middle right := by
  rw [mergeTraced, merge, drainBoth]
  simp only [copyTraced_array, mergeLoopTraced_out, drainTraced_out]

theorem mergeSortTraced_array : (mergeSortTraced vet left right).2 = mergeSort vet left right := by
  induction vet, left, right using mergeSort.induct with
  | case1 vet left right more ih1 ih2 =>
    rw [mergeSortTraced, if_pos more, mergeSort_lt vet more, ← ih2, ← ih1, ← mergeTraced_array]
  | case2 vet left right done => rw [mergeSortTraced, if_neg done, mergeSort_le vet done]

end DeviceProgramming.MergeSort
