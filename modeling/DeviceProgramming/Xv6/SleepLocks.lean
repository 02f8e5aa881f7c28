import DeviceProgramming.Xv6.Locks

namespace DeviceProgramming.Xv6

variable {Pid : Type*} [DecidableEq Pid]

/-- A process that is about to call `sleep(chan, lk)` holds `lk` and no other
spinlock, as `sched` demands. -/
def SleepsWithOneLock (s : State Pid) : Prop :=
  ∀ p pc chan lk next, s.thread p = .run pc → instr p pc = .sleep chan lk next →
    ∀ l, s.owner l = some p ↔ l = lk

/-- A process that runs `cond_lock` inside `cond_wait` finds the mutex free
when it tests it. -/
def FindsMutexFree (s : State Pid) (label : Pid × Call) : Prop :=
  ∀ cond, s.thread label.1 = .run (.condLockTest cond .condWait) → (s.mem.mutexTable cond).locked ≠ 0

/-- The one `sleep` statement that is reached with two spinlocks held is the
one of the `cond_lock` that `cond_wait` calls under `condition->lock`. -/
theorem sleepsWithOneLock_iff {s : State Pid} (owned : s.Owned fun _ => held) :
    SleepsWithOneLock s ↔ ∀ p cond, s.thread p ≠ .run (.condLockSleep cond .condWait) := by
  constructor
  · intro one p cond at'
    have only := one p _ _ _ _ at' rfl (.condition cond)
    rw [owned.owner_iff, at'] at only
    simp [Activity.Holds, held, Caller.held] at only
  · intro never p pc chan lk next at' here l
    rw [owned.owner_iff, at']
    cases pc <;> cases here
    case mpr.condLockSleep.refl cond caller =>
      cases caller with
      | process => simp [Activity.Holds, held, Caller.held]
      | condWait => exact absurd at' (never p cond)
    all_goals simp [Activity.Holds, held]

theorem sleepsWithOneLock_of_reach {s : State Pid}
    (reach : ((program Pid).system Quiet).ReachUnder (fun s a => True ∧ FindsMutexFree s a) s) :
    SleepsWithOneLock s := by
  rw [sleepsWithOneLock_iff (owned_of_quiet (fun _ => id) reach)]
  refine reach.invariant (motive := fun s => ∀ p cond, s.thread p ≠ .run (.condLockSleep cond .condWait)) ?_ ?_
  · intro s quiet p cond at'
    cases (quiet.thread p).symm.trans at'
  · intro s t label earlier never free moved p cond at'
    have slept := sleptAt_of_quiet (fun _ => id) earlier
    rcases condLockSleep_origin slept (Program.step_of_next moved).2 at' with
      ⟨_, old⟩ | ⟨rfl, test, taken, _⟩
    · exact never p cond old
    · exact free.2 cond test taken

/-- A `cond_lock` inside `cond_wait` that finds the mutex taken is next about
to sleep under `condition->lock`. -/
theorem two_locks_of_taken {s t : State Pid} {label : Pid × Call}
    (reach : ((program Pid).system Quiet).Reach s)
    (moved : ((program Pid).system Quiet).next s label = some t) (taken : ¬ FindsMutexFree s label) :
    ¬ SleepsWithOneLock t := by
  have owned := owned_of_quiet (fun _ => id) (reach.next trivial moved)
  simp only [FindsMutexFree, not_forall, not_not] at taken
  obtain ⟨cond, test, locked⟩ := taken
  rw [sleepsWithOneLock_iff owned]
  intro never
  refine never label.1 cond ?_
  have step : (program Pid).step s label.1 label.2 = some t := moved
  simp only [Program.step, program, test, instr, locked] at step
  cases step
  simp

/-- In a run of any number of processes every `sleep` is called with its own
spinlock alone if and only if every `cond_lock` inside `cond_wait` finds the
mutex free. -/
theorem sleeps_with_one_lock_iff {path : List (State Pid × Pid × Call)} {s : State Pid}
    (run : ((program Pid).system Quiet).Run path s) :
    System.Throughout SleepsWithOneLock path s ↔ ∀ step ∈ path, FindsMutexFree step.1 step.2 :=
  run.throughout_iff (fun _ => sleepsWithOneLock_of_reach)
    (fun _ _ _ reach _ => two_locks_of_taken reach) fun _ _ => trivial

/-- A waiter is signalled while the signalling process still has the mutex. -/
def contendedWakeup {Pid : Type*} (waiter signaller : Pid) (cond : CondIx) : List (Pid × Call) := schedule
  [(waiter, .condAlloc, 7), (waiter, .condLock cond, 6), (waiter, .condWait cond, 6),
   (signaller, .condLock cond, 6), (signaller, .condSignal cond, 3), (waiter, .condWait cond, 3)]

set_option maxRecDepth 10000 in
theorem contendedWakeup_sleeps :
    ∃ s, ((program (Fin 2)).system Quiet).run (contendedWakeup 0 1 0) (boot (Fin 2)) = some s ∧
      s.thread 0 = .run (.condLockSleep 0 .condWait) := by
  have computed : (((program (Fin 2)).system Quiet).run (contendedWakeup 0 1 0) (boot (Fin 2))).map
      (fun s => s.thread 0) = some (.run (.condLockSleep 0 .condWait)) := by decide
  exact Option.map_eq_some_iff.mp computed

theorem sleeps_with_one_lock_iff_contended :
    ∃ path s, path.map Prod.snd = (contendedWakeup 0 1 0 : List (Fin 2 × Call)).reverse ∧
      (System.Throughout (SleepsWithOneLock : State (Fin 2) → Prop) path s ↔
        ∀ step ∈ path, FindsMutexFree step.1 step.2) := by
  obtain ⟨s, computed, _⟩ := contendedWakeup_sleeps
  obtain ⟨path, run, _, labels⟩ := (System.Run.start (quiet_boot (Fin 2))).of_run (by simp) computed
  exact ⟨path, s, by simpa using labels, sleeps_with_one_lock_iff run⟩

/-- The woken waiter calls `sleep` on the mutex with `condition->lock` held. -/
theorem nested_sleep_holds_two_locks :
    ∃ s, ((program (Fin 2)).system Quiet).Reach s ∧ ¬ SleepsWithOneLock s := by
  obtain ⟨s, computed, at'⟩ := contendedWakeup_sleeps
  have reach : ((program (Fin 2)).system Quiet).Reach s :=
    System.ReachUnder.of_run (.start (quiet_boot (Fin 2))) computed
  refine ⟨s, reach, fun one => ?_⟩
  exact (sleepsWithOneLock_iff (owned_of_quiet (fun _ => id) reach)).mp one 0 0 at'

end DeviceProgramming.Xv6
