import DeviceProgramming.Xv6.Locks

namespace DeviceProgramming.Xv6

variable {Pid : Type*} [DecidableEq Pid]

/-- `sem_init(sn, n)` has returned and no process has used the semaphore yet. -/
structure Initialised (sn : SemIx) (n : ℤ) (s : State Pid) : Prop extends Quiet s where
  nonneg : 0 ≤ n
  range : n < 2 ^ 31
  count : (s.mem.semaphoreTable sn).count = n
  returned : s.mem.returned sn = 0
  posted : s.mem.posted sn = 0

/-- 1 between the decrement of the count by `sem_wait` and its return. -/
def Pc.inWait (sn : SemIx) : Pc → ℕ
  | .semWaitSleep k | .semWaitUnlock k | .semWaitReturn k => if k = sn then 1 else 0
  | _ => 0

/-- The store of `sem_init`. -/
def Pc.initialises (sn : SemIx) : Pc → Bool
  | .semInitStore k _ => k = sn
  | _ => false

/-- 1 for a process that `sem_wait` puts or has put to sleep. -/
def blockedOn (sn : SemIx) : Activity Lock Chan Pc → ℕ
  | .run (.semWaitSleep k) => if k = sn then 1 else 0
  | .asleep c _ _ => if c = .semQ sn then 1 else 0
  | _ => 0

section
variable [Fintype Pid]

/-- `n` plus the `sem_post` calls, less the `sem_wait` calls that have
decremented the count. -/
def balance (sn : SemIx) (n : ℤ) (s : State Pid) : ℤ :=
  n + s.mem.posted sn - s.mem.returned sn - total (fun _ => Pc.inWait sn) s.pc

def blocked (sn : SemIx) (s : State Pid) : ℕ := total (fun _ => blockedOn sn) s.thread

/-- `sem_init` is not called again on the semaphore. -/
def NotReinitialised (sn : SemIx) (s : State Pid) (label : Pid × Call) : Prop :=
  (s.pc label.1).initialises sn = false

/-- Each `sem_post` increments the count while at most one process is asleep on
the semaphore, and each `sem_wait` decrements it while fewer than 2^31 are. -/
structure OneSleeperPerPost (sn : SemIx) (s : State Pid) (label : Pid × Call) : Prop where
  post : s.thread label.1 = .run (.semPostCount sn) → s.sleepers (.semQ sn) ≤ 1
  wait : s.thread label.1 = .run (.semWaitCount sn) → s.sleepers (.semQ sn) < 2 ^ 31

/-- The invariant of one semaphore. -/
structure SemInv (sn : SemIx) (n : ℤ) (s : State Pid) : Prop where
  count : (s.mem.semaphoreTable sn).count = int32 (balance sn n s)
  covered : 0 ≤ balance sn n s + blocked sn s
  waking : ∀ p, s.thread p = .run (.semPostWakeup sn) → 0 ≤ balance sn n s

end

theorem inWait_target {sn : SemIx} {p : Pid} {pc next : Pc} (target : (instr p pc).target = some next) :
    next.inWait sn = pc.inWait sn := by
  cases pc
  case condLockUnlock c caller => cases caller <;> cases target <;> rfl
  case condUnlockUnlock c caller => cases caller <;> cases target <;> rfl
  all_goals cases target <;> rfl

theorem target_elsewhere {sn : SemIx} {p : Pid} {pc next : Pc} (target : (instr p pc).target = some next) :
    next ≠ .semWaitSleep sn ∧ next ≠ .semPostWakeup sn := by
  cases pc
  case condLockUnlock c caller => cases caller <;> cases target <;> simp [Caller.afterLock]
  case condUnlockUnlock c caller => cases caller <;> cases target <;> simp [Caller.afterUnlock]
  all_goals cases target <;> simp

omit [DecidableEq Pid] in
theorem blockedOn_wake {sn : SemIx} {chan : Chan} (other : chan ≠ .semQ sn) (a : Activity Lock Chan Pc) :
    blockedOn sn (a.wake chan) = blockedOn sn a := by
  cases a with
  | run | relock => rfl
  | asleep c lock pc =>
    rw [Activity.wake_asleep]
    split
    · rename_i same
      simp [blockedOn, same, other]
    · rfl

/-- The statements that touch the count of a semaphore or end a `sem_wait`. -/
theorem Effect.sem_cases {p : Pid} {call : Call} {m m' : Kernel Pid} {pc next : Pc} (sn : SemIx)
    (effect : Effect p call m pc m' next) (noInit : ∀ n, pc ≠ .semInitStore sn n) :
    ((m'.semaphoreTable sn).count = (m.semaphoreTable sn).count ∧ m'.posted sn = m.posted sn ∧
      m'.returned sn + next.inWait sn = m.returned sn + pc.inWait sn ∧
      next ≠ .semWaitSleep sn ∧ next ≠ .semPostWakeup sn) ∨
    (pc = .semWaitCount sn ∧ m'.posted sn = m.posted sn ∧ m'.returned sn = m.returned sn ∧
      (m'.semaphoreTable sn).count = int32 ((m.semaphoreTable sn).count - 1) ∧
      (next = .semWaitSleep sn ∨ next = .semWaitUnlock sn ∧ 0 ≤ int32 ((m.semaphoreTable sn).count - 1))) ∨
    (pc = .semPostCount sn ∧ m'.posted sn = m.posted sn + 1 ∧ m'.returned sn = m.returned sn ∧
      (m'.semaphoreTable sn).count = int32 ((m.semaphoreTable sn).count + 1) ∧
      (next = .semPostWakeup sn ∨ next = .semPostUnlock sn)) := by
  cases effect with
  | enter => cases call <;> exact Or.inl ⟨rfl, rfl, rfl, by simp [Call.entry], by simp [Call.entry]⟩
  | @semInitStore k n =>
    have other : sn ≠ k := by rintro rfl; exact noInit n rfl
    simp [Kernel.setSemaphore, other, Pc.inWait]
  | @semWaitBlock k negative =>
    by_cases same : k = sn
    · subst same
      refine Or.inr (Or.inl ⟨rfl, rfl, rfl, ?_, Or.inl rfl⟩)
      simp [Kernel.semWaitCount, Kernel.setSemaphore]
    · simp [Kernel.semWaitCount, Kernel.setSemaphore, Ne.symm same, Pc.inWait, same]
  | @semWaitPass k enough =>
    by_cases same : k = sn
    · subst same
      refine Or.inr (Or.inl ⟨rfl, rfl, rfl, ?_, Or.inr ⟨rfl, enough⟩⟩)
      simp [Kernel.semWaitCount, Kernel.setSemaphore]
    · simp [Kernel.semWaitCount, Kernel.setSemaphore, Ne.symm same, Pc.inWait, same]
  | @semPostWake k waiting =>
    by_cases same : k = sn
    · subst same
      refine Or.inr (Or.inr ⟨rfl, ?_, rfl, ?_, Or.inl rfl⟩)
      · simp [Kernel.semPostCount]
      · simp [Kernel.semPostCount, Kernel.setSemaphore]
    · simp [Kernel.semPostCount, Kernel.setSemaphore, Ne.symm same, Pc.inWait, same]
  | @semPostPass k positive =>
    by_cases same : k = sn
    · subst same
      refine Or.inr (Or.inr ⟨rfl, ?_, rfl, ?_, Or.inr rfl⟩)
      · simp [Kernel.semPostCount]
      · simp [Kernel.semPostCount, Kernel.setSemaphore]
    · simp [Kernel.semPostCount, Kernel.setSemaphore, Ne.symm same, Pc.inWait]
  | @semWaitReturn k =>
    by_cases same : k = sn
    · subst same; simp [Pc.inWait]
    · simp [Pc.inWait, same, Ne.symm same]
  | @semAllocTake k free | @semDestroy k =>
    by_cases same : k = sn
    · subst same; simp [Kernel.setSemaphore, Pc.inWait]
    · simp [Kernel.setSemaphore, Ne.symm same, Pc.inWait]
  | _ => exact Or.inl ⟨rfl, rfl, rfl, by simp, by simp⟩

section
variable [Fintype Pid] {sn : SemIx} {n : ℤ} {s t : State Pid} {p : Pid} {call : Call}

theorem balance_of_inWait (step : (program Pid).Step p call s t) (same : t.mem = s.mem)
    (stays : (t.pc p).inWait sn = (s.pc p).inWait sn) : balance sn n t = balance sn n s := by
  have moved := step.total_pc fun _ => Pc.inWait sn
  simp only [balance, same]
  omega

/-- A step that leaves the tables alone leaves the balance alone and does not
lead to a `sleep` or `wakeup` of the semaphore. -/
theorem balance_of_target {pc next : Pc} (step : (program Pid).Step p call s t) (same : t.mem = s.mem)
    (before : s.pc p = pc) (after : t.pc p = next) (stays : next.inWait sn = pc.inWait sn)
    (elsewhere : next ≠ .semWaitSleep sn ∧ next ≠ .semPostWakeup sn) :
    (t.mem.semaphoreTable sn).count = (s.mem.semaphoreTable sn).count ∧ balance sn n t = balance sn n s ∧
      t.thread p ≠ .run (.semWaitSleep sn) ∧ t.thread p ≠ .run (.semPostWakeup sn) := by
  refine ⟨by rw [same], balance_of_inWait step same (by rw [before, after, stays]), ?_, ?_⟩
  · intro at'
    rw [Threads.pc, at'] at after
    exact elsewhere.1 after.symm
  · intro at'
    rw [Threads.pc, at'] at after
    exact elsewhere.2 after.symm

/-- How a step moves the count of the semaphore and its balance. -/
theorem balance_cases (slept : (program Pid).SleptAt s) (step : (program Pid).Step p call s t)
    (once : NotReinitialised sn s (p, call)) :
    ((t.mem.semaphoreTable sn).count = (s.mem.semaphoreTable sn).count ∧ balance sn n t = balance sn n s ∧
      t.thread p ≠ .run (.semWaitSleep sn) ∧ t.thread p ≠ .run (.semPostWakeup sn)) ∨
    (s.thread p = .run (.semWaitCount sn) ∧ balance sn n t = balance sn n s - 1 ∧
      (t.mem.semaphoreTable sn).count = int32 ((s.mem.semaphoreTable sn).count - 1) ∧
      (t.thread p = .run (.semWaitSleep sn) ∨ t.thread p = .run (.semWaitUnlock sn) ∧
        0 ≤ int32 ((s.mem.semaphoreTable sn).count - 1))) ∨
    (s.thread p = .run (.semPostCount sn) ∧ balance sn n t = balance sn n s + 1 ∧
      (t.mem.semaphoreTable sn).count = int32 ((s.mem.semaphoreTable sn).count + 1) ∧
      (t.thread p = .run (.semPostWakeup sn) ∨ t.thread p = .run (.semPostUnlock sn))) := by
  have total := step.total_pc fun _ => Pc.inWait sn
  have whole := step
  cases step with
  | @relock lock pc at' free =>
    obtain ⟨before, chan, here⟩ := slept.relock at'
    refine Or.inl (@balance_of_target _ _ _ _ _ _ _ _ _ pc pc whole rfl ?_ ?_ rfl ?_)
    · exact Threads.pc_of_relock at'
    · simp [Threads.pc]
    · have target : (instr p before).target = some pc := congrArg Instr.target here
      exact target_elsewhere target
  | @acquire pc lock next at' here | @release pc lock next at' here | @sleep pc chan lock next at' here
  | @wakeup pc chan next at' here =>
    have target : (instr p pc).target = some next := congrArg Instr.target here
    refine Or.inl (balance_of_target whole rfl ?_ ?_ (inWait_target target) (target_elsewhere target))
    · exact Threads.pc_of_run at'
    · simp [Threads.pc]
  | @exec pc effect mem next at' here run =>
    have noStore : ∀ n, pc ≠ .semInitStore sn n := by
      rintro n rfl
      simp [NotReinitialised, Threads.pc, at', Pc.initialises] at once
    simp only [Threads.pc, at', Activity.pc_run, Function.update_self] at total
    rcases (effect_of_exec here run).sem_cases sn noStore with
      ⟨count, posted, returned, asleep, waking⟩ | ⟨rfl, posted, returned, count, leads⟩ |
      ⟨rfl, posted, returned, count, leads⟩
    · refine Or.inl ⟨count, ?_, by simpa using asleep, by simpa using waking⟩
      simp only [balance, posted] at total ⊢
      omega
    · refine Or.inr (Or.inl ⟨at', ?_, count, by simpa using leads⟩)
      have entered : next.inWait sn = 1 := by
        rcases leads with rfl | ⟨rfl, _⟩ <;> simp [Pc.inWait]
      have outside : Pc.inWait sn (.semWaitCount sn) = 0 := rfl
      simp only [balance, posted, returned] at total ⊢
      omega
    · refine Or.inr (Or.inr ⟨at', ?_, count, by simpa using leads⟩)
      have outside : next.inWait sn = 0 := by
        rcases leads with rfl | rfl <;> rfl
      have before : Pc.inWait sn (.semPostCount sn) = 0 := rfl
      simp only [balance, posted, returned] at total ⊢
      omega

/-- Only a `sem_post` of the semaphore makes a blocked process runnable. -/
theorem blocked_step (sn : SemIx) (step : (program Pid).Step p call s t)
    (asleep : s.thread p ≠ .run (.semPostWakeup sn)) :
    blocked sn t + blockedOn sn (s.thread p) = blocked sn s + blockedOn sn (t.thread p) := by
  refine step.total_thread (fun _ => blockedOn sn) fun pc chan next at' here q => ?_
  have other : chan ≠ .semQ sn := by
    rintro rfl
    change instr p pc = _ at here
    cases pc <;> cases here
    exact asleep at'
  exact blockedOn_wake other _

omit [Fintype Pid] in
theorem blockedOn_mover (sn : SemIx) (step : (program Pid).Step p call s t) :
    blockedOn sn (s.thread p) ≤ blockedOn sn (t.thread p) := by
  cases step with
  | relock at' free => simp [at', blockedOn]
  | @acquire pc lock next at' here | @release pc lock next at' here | @wakeup pc chan next at' here =>
    change instr p pc = _ at here
    rw [at']
    cases pc <;> cases here <;> simp [blockedOn]
  | @sleep pc chan lock next at' here =>
    change instr p pc = _ at here
    rw [at']
    cases pc <;> cases here <;> simp [blockedOn]
  | @exec pc effect mem next at' here run =>
    change instr p pc = _ at here
    rw [at']
    cases pc <;> cases here <;> simp [blockedOn]

theorem blocked_mono (sn : SemIx) (step : (program Pid).Step p call s t)
    (asleep : s.thread p ≠ .run (.semPostWakeup sn)) : blocked sn s ≤ blocked sn t := by
  have moved := blocked_step sn step asleep
  have mover := blockedOn_mover sn step
  omega

omit [DecidableEq Pid] in
/-- While another statement of the semaphore holds its lock, the blocked
processes are the sleeping ones. -/
theorem blocked_eq_sleepers (sn : SemIx) (owned : s.Owned fun _ => held) {pc : Pc} (at' : s.thread p = .run pc)
    (holding : .semaphore sn ∈ held pc) (awake : pc ≠ .semWaitSleep sn) :
    blocked sn s = s.sleepers (.semQ sn) := by
  refine total_congr fun q => ?_
  by_cases sleepy : s.thread q = .run (.semWaitSleep sn)
  · have same : q = p := owned.unique_run sleepy at' (by simp [held]) holding
    subst same
    exact absurd (Activity.run.inj (at'.symm.trans sleepy)) awake
  · cases now : s.thread q with
    | relock | asleep => rfl
    | run pc =>
      cases pc
      case semWaitSleep k =>
        have other : k ≠ sn := by
          rintro rfl
          exact sleepy now
        simp [blockedOn, Activity.asleepOn, other]
      all_goals rfl

/-- A blocked process has not returned from `sem_wait`. -/
theorem blocked_le_inWait (sn : SemIx) (slept : (program Pid).SleptAt s) :
    blocked sn s ≤ total (fun _ => Pc.inWait sn) s.pc := by
  refine total_mono fun q => ?_
  rw [Threads.pc]
  cases now : s.thread q with
  | relock => exact Nat.zero_le _
  | run pc =>
    cases pc
    case semWaitSleep k => exact le_refl _
    all_goals exact Nat.zero_le _
  | asleep chan lock pc =>
    obtain ⟨before, here⟩ := slept.asleep now
    change instr q before = _ at here
    cases before <;> cases here <;> simp [blockedOn, Pc.inWait]

omit [DecidableEq Pid] in
theorem SemInv.start (initial : Initialised sn n s) : SemInv sn n s where
  count := by
    have idle : total (fun _ => Pc.inWait sn) s.pc = 0 :=
      total_eq_zero.mpr fun p => by simp [Threads.pc, initial.thread p, Pc.inWait]
    have lower := initial.nonneg
    have upper := initial.range
    rw [initial.count, balance, initial.returned, initial.posted, idle, int32_of_range] <;> omega
  covered := by
    have idle : total (fun _ => Pc.inWait sn) s.pc = 0 :=
      total_eq_zero.mpr fun p => by simp [Threads.pc, initial.thread p, Pc.inWait]
    have lower := initial.nonneg
    rw [balance, initial.returned, initial.posted, idle]
    omega
  waking p at' := by cases (initial.thread p).symm.trans at'

omit [Fintype Pid] in
/-- While a process counts under the lock of the semaphore, no other process
comes to the `wakeup` of its `sem_post`. -/
theorem mover_of_waking (owned : s.Owned fun _ => held) (step : (program Pid).Step p call s t) {pc : Pc}
    (at' : s.thread p = .run pc) (holding : .semaphore sn ∈ held pc) {q : Pid}
    (waking : t.thread q = .run (.semPostWakeup sn)) : q = p := by
  rcases step.run_cases waking with ⟨_, old⟩ | ⟨same, _⟩
  · exact owned.unique_run old at' (by simp [held]) holding
  · exact same

/-- A step that leaves the count alone: `wakeup` may lower the number of blocked
processes, but only where the balance is not negative. -/
theorem SemInv.keep (inv : SemInv sn n s) (step : (program Pid).Step p call s t)
    (count : (t.mem.semaphoreTable sn).count = (s.mem.semaphoreTable sn).count)
    (same : balance sn n t = balance sn n s) (noWakeup : t.thread p ≠ .run (.semPostWakeup sn)) :
    SemInv sn n t where
  count := by rw [count, same, inv.count]
  covered := by
    have covered := inv.covered
    by_cases waking : s.thread p = .run (.semPostWakeup sn)
    · have enough := inv.waking p waking
      omega
    · have kept := blocked_mono sn step waking
      omega
  waking q waking := by
    rcases step.run_cases waking with ⟨_, old⟩ | ⟨rfl, _⟩
    · rw [same]
      exact inv.waking q old
    · exact absurd waking noWakeup

/-- `sem_wait` decrements the count, and goes to sleep if it is negative. -/
theorem SemInv.wait (inv : SemInv sn n s) (owned : s.Owned fun _ => held)
    (step : (program Pid).Step p call s t) (at' : s.thread p = .run (.semWaitCount sn))
    (few : s.sleepers (.semQ sn) < 2 ^ 31) (less : balance sn n t = balance sn n s - 1)
    (count : (t.mem.semaphoreTable sn).count = int32 ((s.mem.semaphoreTable sn).count - 1))
    (leads : t.thread p = .run (.semWaitSleep sn) ∨ t.thread p = .run (.semWaitUnlock sn) ∧
      0 ≤ int32 ((s.mem.semaphoreTable sn).count - 1)) : SemInv sn n t where
  count := by rw [count, inv.count, less, sub_eq_add_neg, int32_add, ← sub_eq_add_neg]
  covered := by
    have covered := inv.covered
    have sleeping := blocked_eq_sleepers sn owned at' (by simp [held]) (by simp)
    have moved := blocked_step sn step (by simp [at'])
    rw [at'] at moved
    rcases leads with asleep | ⟨_, enough⟩
    · rw [asleep] at moved
      simp only [blockedOn, if_true] at moved
      omega
    · -- the count can be read without overflow: fewer than 2^31 processes sleep
      rw [inv.count, sub_eq_add_neg, int32_add] at enough
      have passed := nonneg_of_int32 (by omega) enough
      omega
  waking q waking := by
    cases mover_of_waking owned step at' (by simp [held]) waking
    rcases leads with asleep | ⟨passed, _⟩
    · cases waking.symm.trans asleep
    · cases waking.symm.trans passed

/-- `sem_post` increments the count, which pays for the one sleeper it may wake. -/
theorem SemInv.post (inv : SemInv sn n s) (owned : s.Owned fun _ => held)
    (step : (program Pid).Step p call s t) (at' : s.thread p = .run (.semPostCount sn))
    (single : s.sleepers (.semQ sn) ≤ 1) (more : balance sn n t = balance sn n s + 1)
    (count : (t.mem.semaphoreTable sn).count = int32 ((s.mem.semaphoreTable sn).count + 1)) :
    SemInv sn n t where
  count := by rw [count, inv.count, more, int32_add]
  covered := by
    have covered := inv.covered
    have kept := blocked_mono sn step (by simp [at'])
    omega
  waking q waking := by
    have covered := inv.covered
    have sleeping := blocked_eq_sleepers sn owned at' (by simp [held]) (by simp)
    omega

theorem SemInv.step (inv : SemInv sn n s) (owned : s.Owned fun _ => held)
    (slept : (program Pid).SleptAt s) (once : NotReinitialised sn s (p, call))
    (single : OneSleeperPerPost sn s (p, call)) (step : (program Pid).Step p call s t) : SemInv sn n t := by
  rcases balance_cases (n := n) slept step once with
    ⟨count, same, _, noWakeup⟩ | ⟨at', less, count, leads⟩ | ⟨at', more, count, _⟩
  · exact inv.keep step count same noWakeup
  · exact inv.wait owned step at' (single.wait at') less count leads
  · exact inv.post owned step at' (single.post at') more count

theorem semInv_of_reach
    (reach : ((program Pid).system (Initialised sn n)).ReachUnder
      (fun s label => NotReinitialised sn s label ∧ OneSleeperPerPost sn s label) s) : SemInv sn n s :=
  reach.invariant (fun _ initial => SemInv.start initial) fun _ _ _ earlier inv ok moved =>
    inv.step (owned_of_quiet (fun _ initial => initial.toQuiet) earlier)
      (sleptAt_of_quiet (fun _ initial => initial.toQuiet) earlier) ok.1 ok.2 (Program.step_of_next moved).2

/-- In every run in which each `sem_post` finds at most one sleeper, the
`sem_wait` calls that have returned are covered by `n` and the `sem_post` calls. -/
theorem returned_le_posted
    (reach : ((program Pid).system (Initialised sn n)).ReachUnder
      (fun s label => NotReinitialised sn s label ∧ OneSleeperPerPost sn s label) s) :
    (s.mem.returned sn : ℤ) ≤ n + s.mem.posted sn := by
  have covered := (semInv_of_reach reach).covered
  have waiting := blocked_le_inWait sn
    (sleptAt_of_quiet (fun _ (initial : Initialised sn n _) => initial.toQuiet) reach)
  rw [balance] at covered
  omega

end

omit [DecidableEq Pid] in
theorem initialised_boot (sn : SemIx) : Initialised sn 0 (boot Pid) where
  toQuiet := quiet_boot Pid
  nonneg := le_refl 0
  range := by omega
  count := rfl
  returned := rfl
  posted := rfl

instance (sn : SemIx) (s : State Pid) (label : Pid × Call) : Decidable (NotReinitialised sn s label) :=
  inferInstanceAs (Decidable (_ = false))

instance [Fintype Pid] (sn : SemIx) (s : State Pid) (label : Pid × Call) :
    Decidable (OneSleeperPerPost sn s label) :=
  decidable_of_iff _ ⟨fun h : _ ∧ _ => ⟨h.1, h.2⟩, fun h => ⟨h.post, h.wait⟩⟩

set_option maxRecDepth 10000 in
/-- One process waits and returns after a `sem_post` by another one. -/
theorem returned_le_posted_single : ∃ s : State (Fin 2), s.mem.returned 0 = 1 ∧
    (s.mem.returned 0 : ℤ) ≤ 0 + s.mem.posted 0 := by
  have computed : (((program (Fin 2)).system (Initialised 0 0)).runUnder
      (fun s label => NotReinitialised 0 s label ∧ OneSleeperPerPost 0 s label)
      (schedule [(0, .semWait 0, 4), (1, .semPost 0, 6), (0, .semWait 0, 3)]) (boot (Fin 2))).map
      (fun s => s.mem.returned 0) = some 1 := by decide
  obtain ⟨s, reached, returned⟩ := Option.map_eq_some_iff.mp computed
  exact ⟨s, returned, returned_le_posted (.of_run (.start (initialised_boot 0)) reached)⟩

set_option maxRecDepth 10000 in
/-- Two processes sleep in `sem_wait`, and one `sem_post` lets both return. -/
theorem one_post_two_returns :
    ∃ s, ((program (Fin 3)).system (Initialised 0 0)).ReachUnder
        (fun _ label => label.2 ∈ [.semWait 0, .semPost 0]) s ∧
      ¬ (s.mem.returned 0 : ℤ) ≤ 0 + s.mem.posted 0 := by
  have computed : (((program (Fin 3)).system (Initialised 0 0)).runUnder
      (fun _ label => label.2 ∈ [.semWait 0, .semPost 0])
      (schedule [(0, .semWait 0, 4), (1, .semWait 0, 4), (2, .semPost 0, 6), (0, .semWait 0, 3),
        (1, .semWait 0, 3)]) (boot (Fin 3))).map
      (fun s => (s.mem.returned 0, s.mem.posted 0)) = some (2, 1) := by decide
  obtain ⟨s, reached, counts⟩ := Option.map_eq_some_iff.mp computed
  simp only [Prod.mk.injEq] at counts
  obtain ⟨returned, posted⟩ := counts
  refine ⟨s, .of_run (.start (initialised_boot 0)) reached, ?_⟩
  rw [returned, posted]
  decide

end DeviceProgramming.Xv6
