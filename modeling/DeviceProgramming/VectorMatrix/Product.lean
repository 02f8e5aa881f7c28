import DeviceProgramming.VectorMatrix.Result
import Mathlib.Algebra.BigOperators.Ring.Finset
import Mathlib.Data.Rat.Defs
import Mathlib.Tactic.Ring
import Mathlib.Tactic.Linarith
import Mathlib.Tactic.NormNum

namespace DeviceProgramming.VectorMatrix

/-- `T(v1) * mat * v2`. -/
def product (v1 v2 : ℕ → ℚ) (mat : ℕ → ℕ → ℚ) (k : ℕ) : ℚ :=
  ∑ i ∈ Finset.range k, ∑ j ∈ Finset.range k, v1 i * mat i j * v2 j

/-- What is missing from the result because the inner loop multiplies by `v2[i]`
and not by `v2[j]`. -/
def missing (v1 v2 : ℕ → ℚ) (mat : ℕ → ℕ → ℚ) (k : ℕ) : ℚ :=
  ∑ i ∈ Finset.range k, ∑ j ∈ Finset.range k, v1 i * mat i j * (v2 j - v2 i)

section
variable {v1 v2 v : ℕ → ℚ} {mat : ℕ → ℕ → ℚ} {k : ℕ}

theorem running_add_missing : running (resultTerm v1 v2 mat k) k + missing v1 v2 mat k = product v1 v2 mat k := by
  rw [running_eq_sum, missing, product, ← Finset.sum_add_distrib]
  refine Finset.sum_congr rfl fun i _ => ?_
  rw [resultTerm, rowValue, running_eq_sum, Finset.mul_sum, ← Finset.sum_add_distrib]
  refine Finset.sum_congr rfl fun j _ => ?_
  rw [rowTerm]
  ring

theorem main_eq_product_iff : main v1 v2 mat k v = product v1 v2 mat k ↔ missing v1 v2 mat k = 0 := by
  rw [main_eq, ← running_add_missing]
  exact left_eq_add

theorem missing_of_const (same : ∀ i < k, ∀ j < k, v2 i = v2 j) : missing v1 v2 mat k = 0 := by
  refine Finset.sum_eq_zero fun i row => Finset.sum_eq_zero fun j column => ?_
  rw [Finset.mem_range] at row column
  rw [same i row j column, sub_self, mul_zero]

/-- One element of the matrix shows the difference of two elements of `v2`. -/
theorem missing_single {a b : ℕ} (row : a < k) (column : b < k) :
    missing (Pi.single a 1) v2 (Pi.single a (Pi.single b 1)) k = v2 b - v2 a := by
  rw [missing, Finset.sum_eq_single_of_mem a (Finset.mem_range.mpr row) fun i _ other => ?_]
  · rw [Finset.sum_eq_single_of_mem b (Finset.mem_range.mpr column) fun j _ other => ?_]
    · simp
    · simp [other]
  · exact Finset.sum_eq_zero fun j _ => by simp [other]

end

/-- When the two programs compute `T(v1) * mat * v2`: for given vectors and
matrix exactly when nothing is missing, and for all matrices and first vectors
exactly when the elements of `v2` are all the same. -/
theorem programs_compute_product (v1 v2 v : ℕ → ℚ) (rows : ℕ → ℕ → ℚ) (k : ℕ) :
    (main v1 v2 rows k v = product v1 v2 rows k ↔ missing v1 v2 rows k = 0) ∧
    (∀ mat : ℤ → ℚ, 1 ≤ k → (k : ℤ) * k ≤ 2 ^ 31 - 1 → RowMajor mat rows k → ∀ path s,
      (threads v1 v2 mat k).Run path s → ∀ r ∈ s.mem.printed,
        (r = product v1 v2 rows k ↔ missing v1 v2 rows k = 0)) ∧
    ((∀ v1 rows, main v1 v2 rows k v = product v1 v2 rows k) ↔ ∀ i < k, ∀ j < k, v2 i = v2 j) := by
  refine ⟨main_eq_product_iff, fun mat some fits rowMajor path s run r printed => ?_, fun all i row j column => ?_,
    fun same v1 rows => main_eq_product_iff.mpr (missing_of_const same)⟩
  · rw [(stage_of_run rowMajor fits some run).printed_eq r printed, ← running_add_missing]
    exact left_eq_add
  · have zero := main_eq_product_iff.mp (all (Pi.single i 1) (Pi.single i (Pi.single j 1)))
    rw [missing_single row column] at zero
    linarith

/-- Two threads one after the other print what is not the product. -/
theorem programs_compute_product_two : ∃ v1 v2 : ℕ → ℚ, ∃ rows : ℕ → ℕ → ℚ, ∃ mat, RowMajor mat rows 2 ∧
    ∃ path s, (threads v1 v2 mat 2).Run path s ∧ ∃ r ∈ s.mem.printed, r ≠ product v1 v2 rows 2 := by
  let v1 : ℕ → ℚ := fun i => if i = 0 then 1 / 4 else 0
  let v2 : ℕ → ℚ := fun j => if j = 1 then 1 / 4 else 0
  let mat : ℤ → ℚ := fun x => if x = 1 then 1 / 4 else 0
  let rows : ℕ → ℕ → ℚ := fun i j => mat ((2 : ℕ) * i + j)
  let start : State ℚ 2 := ⟨⟨fun _ => 7, 2, []⟩, fun _ => none, fun _ => .run .clear⟩
  have opening : Opening 2 start := ⟨rfl, rfl, rfl, rfl⟩
  have computed : ((threads v1 v2 mat 2).run (schedule [(0, (), 10), (1, (), 14)]) start).map
      (fun s => s.mem.printed.isEmpty) = some false := by decide
  obtain ⟨s, reached, some⟩ := Option.map_eq_some_iff.mp computed
  obtain ⟨path, run, _⟩ := System.Run.of_run (.start opening) (by simp) reached
  obtain ⟨r, rest, printed⟩ := List.exists_cons_of_ne_nil (List.isEmpty_eq_false_iff.mp some)
  have member : r ∈ s.mem.printed := by rw [printed]; exact List.mem_cons_self ..
  have rowMajor : RowMajor mat rows 2 := fun _ _ _ _ => rfl
  refine ⟨v1, v2, rows, mat, rowMajor, path, s, run, r, member, fun equal => ?_⟩
  have computes := (programs_compute_product v1 v2 0 rows 2).2.1 mat (by decide) (by decide) rowMajor path s run r member
  have wrong := computes.mp equal
  simp [missing, Finset.sum_range_succ, v1, v2, rows, mat] at wrong

/-- With `v1 = (1/4, 0)`, `v2 = (0, 1/4)` and one element `mat[0][1] = 1/4` the
program prints zero in place of `1/64`. -/
theorem main_ne_product :
    ¬ ∀ (k : ℕ) (v1 v2 v : ℕ → ℚ) (rows : ℕ → ℕ → ℚ), 1 ≤ k → main v1 v2 rows k v = product v1 v2 rows k := by
  intro always
  have wrong := main_eq_product_iff.mp (always 2 (fun i => if i = 0 then 1 / 4 else 0)
    (fun j => if j = 1 then 1 / 4 else 0) (fun _ => 0) (fun i j => if i = 0 ∧ j = 1 then 1 / 4 else 0) (by decide))
  simp [missing, Finset.sum_range_succ] at wrong

end DeviceProgramming.VectorMatrix
