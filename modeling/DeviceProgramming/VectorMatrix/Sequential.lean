import DeviceProgramming.Machine.Segment
import Mathlib.Algebra.BigOperators.Group.Finset.Basic

namespace DeviceProgramming.VectorMatrix

section
variable {F : Type*} [Zero F] [Add F]

/-- The terms up to, but not including, the `n`-th added one after the other. -/
def running (term : ℕ → F) : ℕ → F
  | 0 => 0
  | n + 1 => running term n + term n

theorem running_congr {term term' : ℕ → F} {n : ℕ} (same : ∀ i < n, term i = term' i) :
    running term n = running term' n := by
  induction n with
  | zero => rfl
  | succ n ih => rw [running, running, ih fun i before => same i (by omega), same n (by omega)]

end

/-- Over an ordered sum the order of the additions does not matter. -/
theorem running_eq_sum {F : Type*} [AddCommMonoid F] (term : ℕ → F) (n : ℕ) :
    running term n = ∑ i ∈ Finset.range n, term i := by
  induction n with
  | zero => rfl
  | succ n ih => rw [running, ih, Finset.sum_range_succ]

variable {F : Type*} [Zero F] [Add F] [Mul F]

/-- `for (; j < k; j++) v[i] += mat[i][j] * v2[i];`. -/
def rowLoop (mat : ℕ → ℕ → F) (v2 : ℕ → F) (k i j : ℕ) (v : ℕ → F) : ℕ → F :=
  if j < k then rowLoop mat v2 k i (j + 1) (Function.update v i (v i + mat i j * v2 i)) else v
termination_by k - j

/-- The loop under the comment `v = mat * v2`. -/
def productLoop (mat : ℕ → ℕ → F) (v2 : ℕ → F) (k i : ℕ) (v : ℕ → F) : ℕ → F :=
  if i < k then productLoop mat v2 k (i + 1) (rowLoop mat v2 k i 0 (Function.update v i 0)) else v
termination_by k - i

/-- The loop under the comment `result = T(v1) * v`. -/
def reduceLoop (v1 v : ℕ → F) (k i : ℕ) (result : F) : F :=
  if i < k then reduceLoop v1 v k (i + 1) (result + v1 i * v i) else result
termination_by k - i

/-- What `main` of `Lab2.3_1` prints; `v` is the new array as `malloc` returns it. -/
def main (v1 v2 : ℕ → F) (mat : ℕ → ℕ → F) (k : ℕ) (v : ℕ → F) : F :=
  reduceLoop v1 (productLoop mat v2 k 0 v) k 0 0

/-- The terms that are added to `v[i]`. -/
def rowTerm (mat : ℕ → ℕ → F) (v2 : ℕ → F) (i j : ℕ) : F := mat i j * v2 i

/-- The value that `v[i]` is given. -/
def rowValue (mat : ℕ → ℕ → F) (v2 : ℕ → F) (k i : ℕ) : F := running (rowTerm mat v2 i) k

/-- The terms that are added to `result`. -/
def resultTerm (v1 v2 : ℕ → F) (mat : ℕ → ℕ → F) (k i : ℕ) : F := v1 i * rowValue mat v2 k i

section
variable {v1 v2 v : ℕ → F} {mat : ℕ → ℕ → F} {k i j : ℕ}

omit [Zero F] in
theorem rowLoop_other {z : ℕ} (other : z ≠ i) : rowLoop mat v2 k i j v z = v z := by
  induction j, v using rowLoop.induct mat v2 k i with
  | case1 j v more ih => rw [rowLoop, if_pos more, ih, Function.update_of_ne other]
  | case2 j v done => rw [rowLoop, if_neg done]

theorem rowLoop_self (le : j ≤ k) (sum : v i = running (rowTerm mat v2 i) j) :
    rowLoop mat v2 k i j v i = rowValue mat v2 k i := by
  induction j, v using rowLoop.induct mat v2 k i with
  | case1 j v more ih =>
    rw [rowLoop, if_pos more]
    refine ih more ?_
    rw [Function.update_self, running, ← sum]
    rfl
  | case2 j v done =>
    obtain rfl : j = k := by omega
    rw [rowLoop, if_neg done, sum, rowValue]

theorem productLoop_before {z : ℕ} (before : z < i) : productLoop mat v2 k i v z = v z := by
  induction i, v using productLoop.induct mat v2 k with
  | case1 i v more ih =>
    rw [productLoop, if_pos more, ih (by omega), rowLoop_other (by omega), Function.update_of_ne (by omega)]
  | case2 i v done => rw [productLoop, if_neg done]

theorem productLoop_eq {z : ℕ} (lower : i ≤ z) (upper : z < k) :
    productLoop mat v2 k i v z = rowValue mat v2 k z := by
  induction i, v using productLoop.induct mat v2 k with
  | case1 i v more ih =>
    rw [productLoop, if_pos more]
    rcases eq_or_lt_of_le lower with rfl | after
    · rw [productLoop_before (by omega), rowLoop_self (Nat.zero_le k) (by rw [Function.update_self]; rfl)]
    · exact ih after
  | case2 i v done => omega

theorem reduceLoop_eq {result : F} (le : i ≤ k) (sum : result = running (fun i => v1 i * v i) i) :
    reduceLoop v1 v k i result = running (fun i => v1 i * v i) k := by
  induction i, result using reduceLoop.induct v1 v k with
  | case1 i result more ih =>
    rw [reduceLoop, if_pos more]
    exact ih more (by rw [sum, running])
  | case2 i result done =>
    obtain rfl : i = k := by omega
    rw [reduceLoop, if_neg done, sum]

/-- The sequential program adds the products of `v1[i]` and the row values. -/
theorem main_eq : main v1 v2 mat k v = running (resultTerm v1 v2 mat k) k := by
  have rows : ∀ i < k, v1 i * productLoop mat v2 k 0 v i = resultTerm v1 v2 mat k i := fun i inside => by
    rw [productLoop_eq (Nat.zero_le i) inside, resultTerm]
  exact (reduceLoop_eq (Nat.zero_le k) rfl).trans (running_congr rows)

end

end DeviceProgramming.VectorMatrix
