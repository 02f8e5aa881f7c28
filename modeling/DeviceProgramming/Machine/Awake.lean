import DeviceProgramming.Machine.Deadlock

namespace DeviceProgramming.Program

variable {Tid Lock Chan Mem Pc Input : Type*} [DecidableEq Tid] [DecidableEq Lock] [DecidableEq Chan]
variable {P : Program Tid Lock Chan Mem Pc Input} {s s' : Threads Tid Lock Chan Mem Pc} {t : Tid}
  {input : Input}

/-- A program whose threads wait for locks only. -/
structure Awake (P : Program Tid Lock Chan Mem Pc Input) : Prop where
  sleep : ∀ {t pc chan lock next}, P.instr t pc ≠ .sleep chan lock next
  wakeup : ∀ {t pc chan next}, P.instr t pc ≠ .wakeup chan next

/-- What a step does to the memory, the locks and the place of its thread. -/
inductive Step.Awake (P : Program Tid Lock Chan Mem Pc Input) (t : Tid) (input : Input)
    (s s' : Threads Tid Lock Chan Mem Pc) (next : Pc) : Prop
  | acquire {lock} : P.instr t (s.pc t) = .acquire lock next → s.owner lock = none → s'.mem = s.mem →
      s'.owner = Function.update s.owner lock (some t) → Step.Awake P t input s s' next
  | release {lock} : P.instr t (s.pc t) = .release lock next → s'.mem = s.mem →
      s'.owner = Function.update s.owner lock none → Step.Awake P t input s s' next
  | exec {effect} : P.instr t (s.pc t) = .exec effect → effect input s.mem = some (s'.mem, next) →
      s'.owner = s.owner → Step.Awake P t input s s' next

/-- In a program that never sleeps all threads stay running. -/
theorem Awake.running (awake : P.Awake) (running : ∀ u, s.thread u = .run (s.pc u))
    (step : P.Step t input s s') (u : Tid) : s'.thread u = .run (s'.pc u) := by
  by_cases own : u = t
  · subst own
    cases step with
    | relock | acquire | release | exec => simp [Threads.pc]
    | sleep at' here => exact absurd here awake.sleep
    | wakeup at' here => exact absurd here awake.wakeup
  · have still := step.other_running own (running u)
    rw [Threads.pc_of_run still, still]

theorem Awake.running_of_reach (awake : P.Awake) {start : Threads Tid Lock Chan Mem Pc → Prop}
    {ok : Threads Tid Lock Chan Mem Pc → Tid × Input → Prop}
    (initial : ∀ s, start s → ∀ u, s.thread u = .run (s.pc u))
    (reach : (P.system start).ReachUnder ok s) (u : Tid) : s.thread u = .run (s.pc u) := by
  refine reach.invariant (motive := fun s => ∀ u, s.thread u = .run (s.pc u)) initial ?_ u
  intro s s' label _ running _ moved
  exact awake.running running (step_of_next moved).2

theorem Awake.step_cases (awake : P.Awake) (running : ∀ u, s.thread u = .run (s.pc u))
    (step : P.Step t input s s') :
    ∃ next, Step.Awake P t input s s' next ∧ s'.pc = Function.update s.pc t next := by
  have moved (a : Activity Lock Chan Pc) :
      (fun u => (Function.update s.thread t a u).pc) = Function.update s.pc t a.pc := by
    funext u
    by_cases here : u = t
    · subst here; simp
    · simp [Threads.pc, here]
  cases step with
  | relock at' => cases at'.symm.trans (running t)
  | acquire at' here free => exact ⟨_, .acquire (by rw [Threads.pc_of_run at', here]; rfl) free rfl rfl, moved _⟩
  | release at' here => exact ⟨_, .release (by rw [Threads.pc_of_run at', here]; rfl) rfl rfl, moved _⟩
  | sleep at' here => exact absurd here awake.sleep
  | wakeup at' here => exact absurd here awake.wakeup
  | exec at' here run => exact ⟨_, .exec (by rw [Threads.pc_of_run at', here]) run rfl, moved _⟩

/-- What a step does tells the step. -/
theorem Step.Awake.step {next : Pc} {mem : Mem} {owner : Lock → Option Tid} {thread : Tid → Activity Lock Chan Pc}
    (done : Step.Awake P t input s ⟨mem, owner, thread⟩ next) (running : s.thread t = .run (s.pc t))
    (live : P.halted s.mem = false) :
    P.step s t input = some ⟨mem, owner, Function.update s.thread t (.run next)⟩ := by
  cases done with
  | acquire here free same moved =>
    subst same moved
    exact step_iff.mpr ⟨live, .acquire running here free⟩
  | release here same moved =>
    subst same moved
    exact step_iff.mpr ⟨live, .release running here⟩
  | exec here run moved =>
    subst moved
    exact step_iff.mpr ⟨live, .exec running here run⟩

/-- A thread of a program that never sleeps is stuck at a taken lock, or at a
statement that is blocked in the present memory. -/
theorem stuck_cases (running : s.thread t = .run (s.pc t)) [Nonempty Input]
    (live : P.halted s.mem = false) (stuck : ∀ input, P.step s t input = none) :
    (∃ lock next, P.instr t (s.pc t) = .acquire lock next ∧ s.owner lock ≠ none) ∨
    ∃ effect, P.instr t (s.pc t) = .exec effect ∧ ∀ input, effect input s.mem = none := by
  cases blocked_of_stuck live stuck with
  | asleep at' | relock at' => cases at'.symm.trans running
  | @acquire pc lock next at' here taken =>
    cases running.symm.trans at'
    exact Or.inl ⟨_, _, here, taken⟩
  | @exec pc effect at' here never =>
    cases running.symm.trans at'
    exact Or.inr ⟨_, here, never⟩

end DeviceProgramming.Program
