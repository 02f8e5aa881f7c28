import Mathlib.Algebra.BigOperators.Ring.Finset
import Mathlib.Algebra.Order.BigOperators.Group.Finset
import Mathlib.Data.Int.Order.Basic
import Mathlib.Tactic.Linarith

namespace DeviceProgramming

variable {Agent Obj : Type*} [Fintype Agent]

/-- Every count is the sum of the shares that the agents have in its object, and
no share is negative. -/
structure Counted (ref : Obj → ℤ) (share : Agent → Obj → ℤ) : Prop where
  sum : ∀ o, ref o = ∑ a, share a o
  nonneg : ∀ a o, 0 ≤ share a o

namespace Counted
variable {ref ref' : Obj → ℤ} {share share' : Agent → Obj → ℤ} {o : Obj} {a b : Agent}

theorem start (zero : ∀ o, ref o = 0) (none : ∀ a o, share a o = 0) : Counted ref share where
  sum o := by simp [zero, none]
  nonneg a o := (none a o).ge

theorem share_le (counted : Counted ref share) (a : Agent) (o : Obj) : share a o ≤ ref o := by
  rw [counted.sum]
  exact Finset.single_le_sum (f := fun b => share b o) (fun b _ => counted.nonneg b o) (Finset.mem_univ a)

/-- The shares of two agents add up to at most the count. -/
theorem two_le [DecidableEq Agent] (counted : Counted ref share) (other : a ≠ b) (o : Obj) :
    share a o + share b o ≤ ref o := by
  have whole := Finset.add_sum_erase Finset.univ (fun c => share c o) (Finset.mem_univ a)
  have rest : share b o ≤ ∑ c ∈ Finset.univ.erase a, share c o :=
    Finset.single_le_sum (f := fun c => share c o) (fun c _ => counted.nonneg c o)
      (Finset.mem_erase.mpr ⟨other.symm, Finset.mem_univ b⟩)
  rw [counted.sum]
  linarith

/-- When an agent has the whole count, the others have nothing. -/
theorem alone [DecidableEq Agent] (counted : Counted ref share) (other : b ≠ a) (all : ref o ≤ share a o) :
    share b o = 0 := by
  have both := counted.two_le other.symm o
  have nonneg := counted.nonneg b o
  linarith

/-- A count changes by what one agent has more afterwards. -/
theorem move [DecidableEq Agent] (counted : Counted ref share) (others : ∀ b, b ≠ a → share' b = share b)
    (balance : ∀ o, ref' o + share a o = ref o + share' a o) (nonneg : ∀ o, 0 ≤ share' a o) :
    Counted ref' share' where
  sum o := by
    have before := Finset.add_sum_erase Finset.univ (fun c => share c o) (Finset.mem_univ a)
    have after := Finset.add_sum_erase Finset.univ (fun c => share' c o) (Finset.mem_univ a)
    have rest : ∑ c ∈ Finset.univ.erase a, share' c o = ∑ c ∈ Finset.univ.erase a, share c o :=
      Finset.sum_congr rfl fun c member => congrFun (others c (Finset.ne_of_mem_erase member)) o
    have total := counted.sum o
    have change := balance o
    linarith
  nonneg b o := by
    by_cases own : b = a
    · rw [own]
      exact nonneg o
    · rw [others b own]
      exact counted.nonneg b o

/-- One agent hands something over to another. -/
theorem pass [DecidableEq Agent] (counted : Counted ref share) (other : a ≠ b)
    (others : ∀ c, c ≠ a → c ≠ b → share' c = share c)
    (balance : ∀ o, share' a o + share' b o = share a o + share b o) (giver : ∀ o, 0 ≤ share' a o)
    (taker : ∀ o, 0 ≤ share' b o) : Counted ref share' := by
  have half : Counted (fun o => ref o + share' a o - share a o) (Function.update share a (share' a)) := by
    refine counted.move (a := a) (fun c differ => Function.update_of_ne differ ..) (fun o => ?_) fun o => ?_
    · rw [Function.update_self]
      linarith
    · rw [Function.update_self]
      exact giver o
  refine half.move (a := b) (fun c differ => ?_) (fun o => ?_) taker
  · by_cases own : c = a
    · rw [own, Function.update_self]
    · rw [Function.update_of_ne own, others c own differ]
  · rw [Function.update_of_ne other.symm]
    linarith [balance o]

end Counted
end DeviceProgramming
