import Mathlib.Algebra.Ring.Int.Defs
import Mathlib.Data.Int.Cast.Basic
import Mathlib.Data.Set.Function
import Mathlib.Data.Set.Lattice
import Mathlib.Order.BourbakiWitt
import Mathlib.Order.CompletePartialOrder
import Mathlib.Order.ConditionallyCompleteLattice.Basic
import Mathlib.Data.Int.ConditionallyCompleteOrder
import Mathlib.Tactic.Common

namespace DeviceProgramming

variable {α : Type*}

/-- The cells from `lo` up to, but not including, `hi`. -/
def cells (a : ℤ → α) (lo hi : ℤ) : List α := (List.range (hi - lo).toNat).map fun i : ℕ => a (lo + i)

/-- The values of a list written one after the other from cell `k` on. -/
def store (a : ℤ → α) (k : ℤ) : List α → ℤ → α
  | [] => a
  | x :: xs => store (Function.update a k x) (k + 1) xs

section
variable {a b : ℤ → α} {lo hi m k z : ℤ}

theorem cells_nil (empty : hi ≤ lo) : cells a lo hi = [] := by
  have none : (hi - lo).toNat = 0 := by omega
  rw [cells, none]
  rfl

theorem cells_cons (some : lo < hi) : cells a lo hi = a lo :: cells a (lo + 1) hi := by
  have count : (hi - lo).toNat = (hi - (lo + 1)).toNat + 1 := by omega
  rw [cells, cells, count, List.range_succ_eq_map, List.map_cons, List.map_map]
  refine congrArg₂ _ (by simp) (List.map_congr_left fun i _ => ?_)
  rw [Function.comp_apply, Nat.cast_succ]
  congr 1
  omega

@[simp] theorem length_cells : (cells a lo hi).length = (hi - lo).toNat := by simp [cells]

theorem cells_congr (same : ∀ z, lo ≤ z → z < hi → a z = b z) : cells a lo hi = cells b lo hi := by
  refine List.map_congr_left fun i inside => ?_
  rw [List.mem_range] at inside
  exact same _ (by omega) (by omega)

theorem cells_append (lower : lo ≤ m) (upper : m ≤ hi) :
    cells a lo hi = cells a lo m ++ cells a m hi := by
  have count : (hi - lo).toNat = (m - lo).toNat + (hi - m).toNat := by omega
  rw [cells, count, List.range_add, List.map_append, List.map_map]
  refine congrArg₂ _ rfl (List.map_congr_left fun i _ => ?_)
  rw [Function.comp_apply, Nat.cast_add]
  congr 1
  omega

/-- Two arrays with the same cells in a segment agree there. -/
theorem eq_of_cells (same : cells a lo hi = cells b lo hi) (lower : lo ≤ z) (upper : z < hi) : a z = b z := by
  have all := List.map_inj_left.mp same (z - lo).toNat (List.mem_range.mpr (by omega))
  have here : lo + ((z - lo).toNat : ℤ) = z := by omega
  rwa [here] at all

theorem store_other {xs : List α} (outside : z < k ∨ k + xs.length ≤ z) : store a k xs z = a z := by
  induction xs generalizing a k with
  | nil => rfl
  | cons x xs ih =>
    rw [List.length_cons] at outside
    rw [store, ih (by omega), Function.update_of_ne (by omega)]

theorem cells_store (xs : List α) : cells (store a k xs) k (k + xs.length) = xs := by
  induction xs generalizing a k with
  | nil => exact cells_nil (by simp)
  | cons x xs ih =>
    rw [List.length_cons, cells_cons (by omega), store, store_other (Or.inl (by omega)), Function.update_self]
    have shift : k + ((xs.length + 1 : ℕ) : ℤ) = k + 1 + xs.length := by omega
    rw [shift, ih]

end

/-- `f` changes no cell outside `region`, and what it leaves in the region
depends on the cells of the region only. -/
structure ActsOn (region : Set ℤ) (f : (ℤ → α) → ℤ → α) : Prop where
  frame : ∀ a z, z ∉ region → f a z = a z
  reads : ∀ a b, Set.EqOn a b region → Set.EqOn (f a) (f b) region

namespace ActsOn
variable {region other : Set ℤ} {f g : (ℤ → α) → ℤ → α}

theorem id (region : Set ℤ) : ActsOn region (id : (ℤ → α) → ℤ → α) where
  frame _ _ _ := rfl
  reads _ _ same := same

theorem comp (second : ActsOn region g) (first : ActsOn region f) : ActsOn region (g ∘ f) where
  frame a z outside := by rw [Function.comp_apply, second.frame _ z outside, first.frame a z outside]
  reads a b same := second.reads _ _ (first.reads a b same)

theorem mono (acts : ActsOn region f) (within : region ⊆ other) : ActsOn other f where
  frame a z outside := acts.frame a z fun inside => outside (within inside)
  reads a b same z inside := by
    by_cases here : z ∈ region
    · exact acts.reads a b (fun w near => same (within near)) here
    · rw [acts.frame a z here, acts.frame b z here]
      exact same inside

/-- Transformations of disjoint regions can be done in either order. -/
theorem comm (first : ActsOn region f) (second : ActsOn other g) (apart : Disjoint region other) (a : ℤ → α) :
    f (g a) = g (f a) := by
  have swapped {r o : Set ℤ} {h h' : (ℤ → α) → ℤ → α} (acts : ActsOn r h) (acts' : ActsOn o h')
      (apart : Disjoint r o) : Set.EqOn (h (h' a)) (h' (h a)) r := by
    intro z inside
    have away (w : ℤ) (here : w ∈ r) : w ∉ o := fun there => Set.disjoint_left.mp apart here there
    rw [acts'.frame (h a) z (away z inside)]
    exact acts.reads (h' a) a (fun w here => acts'.frame a w (away w here)) inside
  funext z
  by_cases inside : z ∈ region
  · exact swapped first second apart inside
  · by_cases inside' : z ∈ other
    · exact (swapped second first apart.symm inside').symm
    · rw [first.frame _ z inside, second.frame _ z inside', second.frame _ z inside', first.frame _ z inside]

end ActsOn

end DeviceProgramming
