import DeviceProgramming.ParallelSort.Regions
import DeviceProgramming.Machine.Int32
import Mathlib.Analysis.SpecialFunctions.Log.Base

namespace DeviceProgramming.ParallelSort

/-- How far `main` gets: it gives up when the file cannot be mapped, divides by
zero or takes the logarithm of a number that has none, or hands the regions of
`n` numbers to its threads. -/
inductive Outcome
  | unmapped
  | undefined
  | launched (n nthreads : ℕ) (regions : Fin nthreads → Region)

/-- `main` on a file of `st_size` bytes. The size is cut to an `int` and then
divided as a `size_t`; `mmap` says for which lengths the mapping succeeds.
`ceil(log10(n))` is `Nat.clog 10 n`. -/
def main (mmap : ℤ → Bool) (st_size : ℤ) : Outcome :=
  let len := int32 st_size
  let n := int32 (len % 2 ^ 64 / 4)
  if mmap (len % 2 ^ 64) then
    if 0 < n then
      let nthreads := Nat.clog 10 n.toNat
      if nthreads = 0 then .undefined else .launched n.toNat nthreads (region n.toNat nthreads)
    else .undefined
  else .unmapped

/-- The work is split as it should be: `n` counts the numbers in the file, there
is a thread for each power of ten below it, and the regions are nonempty,
disjoint and cover the file. -/
structure WorkSplit (st_size : ℤ) (n nthreads : ℕ) (regions : Fin nthreads → Region) : Prop where
  count : (n : ℤ) = st_size / 4
  digits : (nthreads : ℤ) = ⌈Real.logb 10 n⌉
  some : 1 ≤ nthreads
  length : 1 ≤ n / nthreads
  nonempty : ∀ i, (regions i).left ≤ (regions i).right
  disjoint : ∀ i j, i ≠ j → Disjoint (Set.Icc (regions i).left (regions i).right)
    (Set.Icc (regions j).left (regions j).right)
  cover : ⋃ i, Set.Icc (regions i).left (regions i).right = Set.Ico 0 (n : ℤ)

variable {n nthreads : ℕ}

theorem ceil_log10 (n : ℕ) : (Nat.clog 10 n : ℤ) = ⌈Real.logb 10 n⌉ := by
  have ceil := Real.ceil_logb_natCast (b := 10) (r := (n : ℝ)) (Nat.cast_nonneg n)
  rw [Int.clog_natCast] at ceil
  exact_mod_cast ceil.symm

/-- From two numbers on there is a thread, and never more threads than numbers. -/
theorem fits_clog (two : 2 ≤ n) : Fits n (Nat.clog 10 n) where
  positive := Nat.clog_pos (by decide) two
  enough := Nat.clog_le_of_le_pow (Nat.lt_pow_self (by decide)).le

/-- Every number is in a region. -/
theorem exists_region (fits : Fits n nthreads) {x : ℤ} (lower : 0 ≤ x) (upper : x < n) :
    ∃ t, (region n nthreads t).left ≤ x ∧ x ≤ (region n nthreads t).right := by
  have length := regionLength_pos fits
  obtain ⟨k, rfl⟩ := Int.eq_ofNat_of_zero_le lower
  obtain ⟨q, r, small, division⟩ : ∃ q r, r < regionLength n nthreads ∧ q * regionLength n nthreads + r = k :=
    ⟨k / regionLength n nthreads, k % regionLength n nthreads, Nat.mod_lt _ length, Nat.div_add_mod' ..⟩
  by_cases last : nthreads - 1 ≤ q
  · have final : nthreads - 1 < nthreads := Nat.sub_lt fits.positive one_pos
    have le : (nthreads - 1) * regionLength n nthreads ≤ q * regionLength n nthreads := Nat.mul_le_mul_right _ last
    refine ⟨⟨nthreads - 1, final⟩, ?_, ?_⟩
    · rw [region_left]
      exact_mod_cast (by omega : (nthreads - 1) * regionLength n nthreads ≤ k)
    · rw [region_right, if_pos rfl]
      omega
  · have next : (q + 1) * regionLength n nthreads = q * regionLength n nthreads + regionLength n nthreads :=
      Nat.succ_mul ..
    zify at next division small
    refine ⟨⟨q, by omega⟩, ?_, ?_⟩
    · rw [region_left]
      dsimp only
      omega
    · rw [region_right, if_neg (by dsimp only; omega)]
      dsimp only
      omega

theorem workSplit_of_fits {st_size : ℤ} (fits : Fits n (Nat.clog 10 n)) (count : (n : ℤ) = st_size / 4) :
    WorkSplit st_size n (Nat.clog 10 n) (region n (Nat.clog 10 n)) where
  count := count
  digits := ceil_log10 n
  some := fits.positive
  length := regionLength_pos fits
  nonempty t := (region_bounds fits t).2.1
  disjoint t u differ := by
    rw [Set.disjoint_left]
    intro x first second
    have apart := region_disjoint differ first.1 first.2
    rcases apart with before | after
    · exact absurd second.1 (not_le.mpr before)
    · exact absurd second.2 (not_le.mpr after)
  cover := by
    ext x
    rw [Set.mem_iUnion, Set.mem_Ico]
    constructor
    · rintro ⟨t, left, right⟩
      have bounds := region_bounds fits t
      omega
    · rintro ⟨lower, upper⟩
      exact exists_region fits lower upper

section
variable {mmap : ℤ → Bool} {st_size : ℤ}

/-- What `main` has computed when it hands out regions. -/
theorem main_launched {regions : Fin nthreads → Region} (launched : main mmap st_size = .launched n nthreads regions) :
    (n : ℤ) = int32 (int32 st_size % 2 ^ 64 / 4) ∧ nthreads = Nat.clog 10 n ∧ nthreads ≠ 0 := by
  rw [main] at launched
  dsimp only at launched
  split at launched
  · split at launched
    · rename_i positive
      split at launched
      · cases launched
      · rename_i more
        cases launched
        exact ⟨by omega, rfl, more⟩
    · cases launched
  · cases launched

/-- A size that is an `int` and holds two numbers. -/
theorem main_eq_launched (maps : main mmap st_size ≠ .unmapped) (two : 8 ≤ st_size) (int : st_size < 2 ^ 31) :
    main mmap st_size = .launched (st_size / 4).toNat (Nat.clog 10 (st_size / 4).toNat)
      (region (st_size / 4).toNat (Nat.clog 10 (st_size / 4).toNat)) := by
  have len : int32 st_size = st_size := int32_of_range (by omega) int
  have unsigned : st_size % 2 ^ 64 = st_size := by omega
  have count : int32 (int32 st_size % 2 ^ 64 / 4) = st_size / 4 := by
    rw [len, unsigned, int32_of_range (by omega) (by omega)]
  have positive : 0 < st_size / 4 := by omega
  have some := (fits_clog (n := (st_size / 4).toNat) (by omega)).positive
  have nonzero : Nat.clog 10 (st_size / 4).toNat ≠ 0 := by omega
  rw [main] at maps ⊢
  dsimp only at maps ⊢
  rw [count, if_pos positive, if_neg nonzero] at maps ⊢
  split
  · rfl
  · rename_i fails
    rw [if_neg fails] at maps
    exact absurd rfl maps

end

/-- For a file of at least one number that can be mapped, the work is split as
it should be exactly when the file holds two numbers and its size is an `int`. -/
theorem main_splits_iff (mmap : ℤ → Bool) (st_size : ℤ) (number : 4 ≤ st_size)
    (maps : main mmap st_size ≠ .unmapped) :
    (∃ n nthreads regions, main mmap st_size = .launched n nthreads regions ∧ WorkSplit st_size n nthreads regions) ↔
      8 ≤ st_size ∧ st_size < 2 ^ 31 := by
  constructor
  · rintro ⟨n, nthreads, regions, launched, split⟩
    obtain ⟨computed, digits, some⟩ := main_launched launched
    have count := split.count
    have two : 2 ≤ n := by
      by_contra one
      rw [Nat.clog_of_right_le_one (by omega)] at digits
      exact some digits
    unfold int32 at computed
    omega
  · rintro ⟨two, int⟩
    exact ⟨_, _, _, main_eq_launched maps two int, workSplit_of_fits (fits_clog (by omega)) (by omega)⟩

/-- A file of four hundred bytes. -/
theorem main_splits_iff_hundred :
    (∃ n nthreads regions, main (fun _ => true) 400 = .launched n nthreads regions ∧
      WorkSplit 400 n nthreads regions) ↔ 8 ≤ (400 : ℤ) ∧ (400 : ℤ) < 2 ^ 31 :=
  main_splits_iff (fun _ => true) 400 (by decide) (by
    have positive : 0 < int32 (int32 400 % 2 ^ 64 / 4) := by decide
    rw [main]
    dsimp only
    rw [if_pos rfl, if_pos positive]
    split <;> simp)

/-- With one number in the file `main` divides by zero. -/
theorem main_divides_by_zero :
    ¬ ∀ (mmap : ℤ → Bool) (st_size : ℤ), 4 ≤ st_size → main mmap st_size ≠ .unmapped →
      ∃ n nthreads regions, main mmap st_size = .launched n nthreads regions ∧
        WorkSplit st_size n nthreads regions := by
  intro always
  have one : int32 (int32 4 % 2 ^ 64 / 4) = 1 := by decide
  have outcome : main (fun _ => true) 4 = .undefined := by
    rw [main]
    simp only [one]
    simp
  obtain ⟨n, nthreads, regions, launched, _⟩ := always (fun _ => true) 4 le_rfl (by rw [outcome]; simp)
  cases outcome.symm.trans launched

end DeviceProgramming.ParallelSort
