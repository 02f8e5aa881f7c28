import DeviceProgramming.Machine.Ownership
import DeviceProgramming.Machine.Count

namespace DeviceProgramming

variable {Tid Lock Chan Mem Pc Input : Type*}

/-- 1 for a thread that is asleep on the channel. -/
def Activity.asleepOn [DecidableEq Chan] (chan : Chan) : Activity Lock Chan Pc → ℕ
  | asleep c _ _ => if c = chan then 1 else 0
  | _ => 0

def Activity.isAsleep : Activity Lock Chan Pc → Bool
  | asleep _ _ _ => true
  | _ => false

/-- The number of threads asleep on a channel. -/
def Threads.sleepers [Fintype Tid] [DecidableEq Chan] (s : Threads Tid Lock Chan Mem Pc) (chan : Chan) : ℕ :=
  total (fun _ => Activity.asleepOn chan) s.thread

namespace Program
variable [DecidableEq Tid] [DecidableEq Lock] [DecidableEq Chan]

section
variable [Fintype Tid] {P : Program Tid Lock Chan Mem Pc Input} {s s' : Threads Tid Lock Chan Mem Pc}
  {t : Tid} {input : Input}

/-- A step changes a total over the threads by the weights of the thread that
moves, unless it wakes threads whose weight depends on it. -/
theorem Step.total_thread (weight : Tid → Activity Lock Chan Pc → ℕ) (step : P.Step t input s s')
    (unwoken : ∀ pc chan next, s.thread t = .run pc → P.instr t pc = .wakeup chan next →
      ∀ u, weight u ((s.thread u).wake chan) = weight u (s.thread u)) :
    total weight s'.thread + weight t (s.thread t) = total weight s.thread + weight t (s'.thread t) := by
  cases step with
  | relock | acquire | release | sleep | exec =>
    simp only [Function.update_self]
    exact total_update weight s.thread t _
  | @wakeup pc chan next at' here =>
    have moved := total_update weight (fun u => (s.thread u).wake chan) t (.run next)
    have same := unwoken pc chan next at' here
    rw [total_congr same, same t] at moved
    simpa only [Function.update_self] using moved

theorem Step.total_pc (weight : Tid → Pc → ℕ) (step : P.Step t input s s') :
    total weight s'.pc + weight t (s.pc t) = total weight s.pc + weight t (s'.pc t) :=
  step.total_thread (fun u a => weight u a.pc) (by simp)

end

/-- Every sleeping thread fell asleep at a `sleep` statement of the program,
and every thread that takes its lock back has done so. -/
structure SleptAt (P : Program Tid Lock Chan Mem Pc Input) (s : Threads Tid Lock Chan Mem Pc) : Prop where
  asleep : ∀ {t chan lock pc}, s.thread t = .asleep chan lock pc →
    ∃ before, P.instr t before = .sleep chan lock pc
  relock : ∀ {t lock pc}, s.thread t = .relock lock pc →
    ∃ before chan, P.instr t before = .sleep chan lock pc

variable {P : Program Tid Lock Chan Mem Pc Input} {s s' : Threads Tid Lock Chan Mem Pc} {t : Tid}
  {input : Input}

omit [DecidableEq Tid] [DecidableEq Lock] [DecidableEq Chan] in
theorem sleptAt_start (running : ∀ t, ∃ pc, s.thread t = .run pc) : P.SleptAt s where
  asleep {t _ _ _} slept := by
    obtain ⟨pc, at'⟩ := running t
    simp [at'] at slept
  relock {t _ _} woken := by
    obtain ⟨pc, at'⟩ := running t
    simp [at'] at woken

omit [DecidableEq Lock] [DecidableEq Chan] in
/-- A thread that starts or keeps running brings no new sleeper. -/
theorem SleptAt.run (slept : P.SleptAt s) {mem : Mem} {owner : Lock → Option Tid} {next : Pc} :
    P.SleptAt ⟨mem, owner, Function.update s.thread t (.run next)⟩ where
  asleep {u _ _ _} sleeping := by
    by_cases here : u = t
    · subst here; simp at sleeping
    · exact slept.asleep (by simpa only [Function.update_of_ne here] using sleeping)
  relock {u _ _} woken := by
    by_cases here : u = t
    · subst here; simp at woken
    · exact slept.relock (by simpa only [Function.update_of_ne here] using woken)

omit [DecidableEq Tid] [DecidableEq Lock] in
theorem SleptAt.wake (slept : P.SleptAt s) (chan : Chan) :
    P.SleptAt ⟨s.mem, s.owner, fun u => (s.thread u).wake chan⟩ where
  asleep {u _ _ _} sleeping := slept.asleep (Activity.wake_eq_asleep.mp sleeping).1
  relock {u lock pc} woken := by
    cases before : s.thread u with
    | run at' => simp [before] at woken
    | relock l at' => exact slept.relock (by simpa [before] using woken)
    | asleep c l at' =>
      simp only [before, Activity.wake_asleep] at woken
      split at woken
      · cases woken
        obtain ⟨at', here⟩ := slept.asleep before
        exact ⟨at', c, here⟩
      · cases woken

theorem Step.sleptAt (step : P.Step t input s s') (before : P.SleptAt s) : P.SleptAt s' := by
  cases step with
  | relock | acquire | release | exec => exact before.run
  | wakeup => exact (before.wake _).run
  | @sleep pc chan lock next at' here =>
    constructor
    · intro u c l resume sleeping
      by_cases same : u = t
      · subst same
        simp only [Function.update_self, Activity.asleep.injEq] at sleeping
        obtain ⟨rfl, rfl, rfl⟩ := sleeping
        exact ⟨pc, here⟩
      · exact before.asleep (by simpa only [Function.update_of_ne same] using sleeping)
    · intro u l resume woken
      by_cases same : u = t
      · subst same; simp at woken
      · exact before.relock (by simpa only [Function.update_of_ne same] using woken)

theorem sleptAt_of_reach {start : Threads Tid Lock Chan Mem Pc → Prop}
    {ok : Threads Tid Lock Chan Mem Pc → Tid × Input → Prop} (initial : ∀ s, start s → P.SleptAt s)
    (reach : (P.system start).ReachUnder ok s) : P.SleptAt s :=
  reach.invariant initial fun _ _ _ _ before _ moved => (step_of_next moved).2.sleptAt before

end Program
end DeviceProgramming
