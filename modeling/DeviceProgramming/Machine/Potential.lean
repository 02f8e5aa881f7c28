import DeviceProgramming.Machine.Count
import DeviceProgramming.Machine.Threads

namespace DeviceProgramming

variable {Tid Lock Chan Mem Pc Input : Type*}

/-- The weight of a thread, given that of each statement: a sleeping one has less, for it
will take its lock, test and fall asleep again at the expense of the wakeup. -/
def Activity.charge (weight : Pc → ℕ) : Activity Lock Chan Pc → ℕ
  | run pc => weight pc
  | relock _ pc => weight pc + 1
  | asleep _ _ pc => weight pc - 2

theorem Activity.charge_wake [DecidableEq Chan] (weight : Pc → ℕ) (chan : Chan) (a : Activity Lock Chan Pc) :
    (a.wake chan).charge weight ≤ a.charge weight + 3 := by
  cases a with
  | run | relock => exact Nat.le_add_right ..
  | asleep c lock pc =>
    rw [Activity.wake_asleep]
    split
    · change weight pc + 1 ≤ weight pc - 2 + 3
      omega
    · exact Nat.le_add_right ..

namespace Program
variable {P : Program Tid Lock Chan Mem Pc Input} {s s' : Threads Tid Lock Chan Mem Pc} {t : Tid} {input : Input}

/-- Every statement outside the shared memory brings the weight of its thread down, and a
wakeup pays for a crowd of threads that it may wake. -/
structure Pays (P : Program Tid Lock Chan Mem Pc Input) (weight : Pc → ℕ) (crowd : ℕ) : Prop where
  acquire : ∀ {t pc lock next}, P.instr t pc = .acquire lock next → weight next < weight pc
  release : ∀ {t pc lock next}, P.instr t pc = .release lock next → weight next < weight pc
  sleep : ∀ {t pc chan lock next}, P.instr t pc = .sleep chan lock next → 0 < weight pc ∧ weight next ≤ weight pc + 1
  wakeup : ∀ {t pc chan next}, P.instr t pc = .wakeup chan next → weight next + 3 * crowd < weight pc

variable [Fintype Tid] [DecidableEq Tid]

/-- The weights of all threads. -/
def charges (weight : Pc → ℕ) (thread : Tid → Activity Lock Chan Pc) : ℕ :=
  total (fun _ a => Activity.charge weight a) thread

theorem charges_update (weight : Pc → ℕ) (thread : Tid → Activity Lock Chan Pc) (t : Tid) (a : Activity Lock Chan Pc) :
    charges weight (Function.update thread t a) + (thread t).charge weight = charges weight thread + a.charge weight :=
  total_update (fun _ a => Activity.charge weight a) thread t a

theorem charges_update_lt {weight : Pc → ℕ} {thread : Tid → Activity Lock Chan Pc} {a : Activity Lock Chan Pc}
    (less : a.charge weight < (thread t).charge weight) :
    charges weight (Function.update thread t a) < charges weight thread := by
  have whole := charges_update weight thread t a
  omega

omit [DecidableEq Tid] in
theorem charges_wake [DecidableEq Chan] (weight : Pc → ℕ) (thread : Tid → Activity Lock Chan Pc) (chan : Chan) :
    charges weight (fun u => (thread u).wake chan) ≤ charges weight thread + 3 * Fintype.card Tid := by
  calc charges weight (fun u => (thread u).wake chan)
      ≤ total (fun _ a => Activity.charge weight a + 3) thread :=
        total_mono fun u => Activity.charge_wake weight chan (thread u)
    _ = charges weight thread + total (fun _ _ => 3) thread := Finset.sum_add_distrib
    _ = charges weight thread + 3 * Fintype.card Tid := by rw [total_const, Nat.mul_comm]

variable [DecidableEq Lock] [DecidableEq Chan]

/-- A step brings the weight of all threads down or works on the shared memory. -/
theorem Pays.step {weight : Pc → ℕ} (pays : P.Pays weight (Fintype.card Tid)) (step : P.Step t input s s') :
    charges weight s'.thread < charges weight s.thread ∨
      ∃ pc effect next, s.thread t = .run pc ∧ P.instr t pc = .exec effect ∧
        effect input s.mem = some (s'.mem, next) ∧ s'.thread = Function.update s.thread t (.run next) := by
  cases step with
  | relock here =>
    refine Or.inl (charges_update_lt ?_)
    rw [here]
    exact Nat.lt_succ_self _
  | acquire here at' =>
    refine Or.inl (charges_update_lt ?_)
    rw [here]
    exact pays.acquire at'
  | release here at' =>
    refine Or.inl (charges_update_lt ?_)
    rw [here]
    exact pays.release at'
  | @sleep pc chan lock next here at' =>
    refine Or.inl (charges_update_lt ?_)
    rw [here]
    change weight next - 2 < weight pc
    have paid := pays.sleep at'
    omega
  | @wakeup pc chan next here at' =>
    left
    have woken := charges_wake weight s.thread chan
    have whole := charges_update weight (fun u => (s.thread u).wake chan) t (.run next)
    have paid := pays.wakeup at'
    rw [here, Activity.wake_run] at whole
    simp only [Activity.charge] at whole
    dsimp only
    omega
  | exec here at' run => exact Or.inr ⟨_, _, _, here, at', run, rfl⟩

end Program
end DeviceProgramming
