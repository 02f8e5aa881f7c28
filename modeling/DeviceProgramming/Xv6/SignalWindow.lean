import DeviceProgramming.Xv6.MutexSafety

namespace DeviceProgramming.Xv6

variable {Pid : Type*} [DecidableEq Pid]

/-- The statements of `cond_wait` between the store `locked = 1` and the `sleep`. -/
def Pc.Releasing (cond : CondIx) (pc : Pc) : Prop :=
  pc = .condUnlockUnlock cond .condWait ∨ pc = .condWaitSleep cond

/-- Every waiter whose given-up mutex `p` has acquired since is asleep on
`alarm_clock` or has been woken: it is not still on its way to `sleep`. -/
def WaitersAsleep (cond : CondIx) (s : State Pid) (p : Pid) : Prop :=
  ∀ w pc, s.mem.since cond w p = true → s.thread w = .run pc → ¬ pc.Releasing cond

/-- The `wakeup` of `cond_signal` or of `cond_broadcast`. -/
def Signals (cond : CondIx) (s : State Pid) (p : Pid) : Prop :=
  s.thread p = .run (.condSignal cond) ∨ s.thread p = .run (.condBroadcast cond)

/-- A step in which `p` gives `condition->lock` back in `cond_set`. -/
def Sets (cond : CondIx) (p : Pid) (step : State Pid × Pid × Call) : Prop :=
  step.2.1 = p ∧ step.1.thread p = .run (.condSetUnlock cond)

/-- A step in which `p` takes the mutex. -/
def TakesMutex (cond : CondIx) (p : Pid) (step : State Pid × Pid × Call) : Prop :=
  step.2.1 = p ∧ (step.1.thread p = .run (.condLockStore cond .process) ∨
    step.1.thread p = .run (.condLockStore cond .condWait))

/-- `p` has called `cond_set` since it last took the mutex, if it ever did. -/
def SetSinceLock (cond : CondIx) (p : Pid) : List (State Pid × Pid × Call) → Prop
  | [] => True
  | step :: earlier => Sets cond p step ∨ ¬ TakesMutex cond p step ∧ SetSinceLock cond p earlier

/-- Every signal is sent by a process that has called `cond_set` since it last took the mutex. -/
def SignalsAfterSet (cond : CondIx) : List (State Pid × Pid × Call) → Prop
  | [] => True
  | step :: earlier => (Signals cond step.1 step.2.1 → SetSinceLock cond step.2.1 earlier) ∧ SignalsAfterSet cond earlier

omit [DecidableEq Pid] in
/-- A process on its way to sleep in `cond_wait` owns `condition->lock`. -/
theorem owner_of_releasing {cond : CondIx} {s : State Pid} {w : Pid} {pc : Pc}
    (owned : s.Owned fun _ => held) (at' : s.thread w = .run pc) (window : pc.Releasing cond) :
    s.owner (.condition cond) = some w := by
  rw [owned.owner_iff, at']
  rcases window with rfl | rfl <;> simp [Activity.Holds, held, Caller.held]

/-- A statement of the window is reached from the store of `cond_unlock` or from
its release. -/
theorem releasing_origin {s t : State Pid} {p q : Pid} {call : Call} {cond : CondIx} {pc : Pc}
    (slept : (program Pid).SleptAt s) (step : (program Pid).Step p call s t)
    (at' : t.thread q = .run pc) (window : pc.Releasing cond) :
    (q ≠ p ∧ s.thread q = .run pc) ∨
      (q = p ∧ t.mem = s.mem ∧ ∃ before, s.thread p = .run before ∧ before.Releasing cond) ∨
      (q = p ∧ s.thread p = .run (.condUnlockStore cond .condWait) ∧
        t.mem = s.mem.condUnlockStore p cond .condWait) := by
  rcases window with rfl | rfl
  · rcases condUnlockUnlock_origin slept step at' with old | stored
    · exact Or.inl old
    · exact Or.inr (Or.inr stored)
  · rcases arrival slept step at' with
      old | ⟨rfl, ⟨_, before, chan, lock, here⟩ | ⟨kept, before, was, target⟩ |
        ⟨before, after, next, was, kept, point, effect⟩⟩
    · exact Or.inl old
    · cases before <;> cases here
    · refine Or.inr (Or.inl ⟨rfl, kept, before, was, ?_⟩)
      cases before
      case condLockUnlock c w => cases w <;> cases target
      case condUnlockUnlock c w => cases w <;> cases target; exact Or.inl rfl
      all_goals cases target
    · cases effect with
      | enter => cases call <;> cases point
      | _ => cases point

/-- What has been taken since a waiter gave up its mutex has been taken in this step or before. -/
theorem since_origin {s t : State Pid} {p q w : Pid} {call : Call} {cond : CondIx}
    (step : (program Pid).Step q call s t) (since : t.mem.since cond w p = true) :
    s.mem.since cond w p = true ∨ TakesMutex cond p (s, q, call) := by
  rcases effect_of_step step with same | ⟨before, after, next, was, same, effect⟩
  · exact Or.inl (same ▸ since)
  · rw [same] at since
    cases effect with
    | @condLockStore c caller =>
      by_cases here : c = cond
      · subst here
        by_cases taker : p = q
        · subst taker
          refine Or.inr ⟨rfl, ?_⟩
          cases caller with
          | process => exact Or.inl was
          | condWait => exact Or.inr was
        · exact Or.inl (by simpa [Kernel.condLockStore, taker] using since)
      · exact Or.inl (by simpa [Kernel.condLockStore, Ne.symm here] using since)
    | @condUnlockStore c caller =>
      left
      cases caller with
      | process => exact since
      | condWait =>
        by_cases here : c = cond
        · subst here
          by_cases own : w = q
          · subst own
            simp [Kernel.condUnlockStore] at since
          · simpa [Kernel.condUnlockStore, own] using since
        · simpa [Kernel.condUnlockStore, Ne.symm here] using since
    | _ => exact Or.inl since

/-- A process that has taken the mutex since a waiter gave it up, and while that is on its way to
sleep, has not called `cond_set` since. -/
def TakersUnset (cond : CondIx) (path : List (State Pid × Pid × Call)) (s : State Pid) : Prop :=
  ∀ w p pc, s.thread w = .run pc → pc.Releasing cond → s.mem.since cond w p = true → ¬ SetSinceLock cond p path

theorem TakersUnset.step {cond : CondIx} {path : List (State Pid × Pid × Call)} {s t : State Pid} {q : Pid} {call : Call}
    (unset : TakersUnset cond path s) (owned : s.Owned fun _ => held) (slept : (program Pid).SleptAt s)
    (step : (program Pid).Step q call s t) : TakersUnset cond ((s, q, call) :: path) t := by
  intro w p pc at' window since
  rcases releasing_origin slept step at' window with
    ⟨other, old⟩ | ⟨rfl, kept, before, was, earlier⟩ | ⟨rfl, was, stored⟩
  · have unsets : ¬ Sets cond p (s, q, call) := by
      rintro ⟨rfl, setting⟩
      have lock : (s.thread q).Holds held (.condition cond) := by
        rw [setting]
        simp [Activity.Holds, held]
      have owner := (owned.owner_iff _ q).mpr lock
      rw [owner_of_releasing owned old window] at owner
      exact other (Option.some.inj owner)
    rcases since_origin step since with before | taken
    · have still := unset w p pc old window before
      rintro (sets | ⟨_, later⟩)
      · exact unsets sets
      · exact still later
    · rintro (sets | ⟨free, _⟩)
      · exact unsets sets
      · exact free taken
  · rw [kept] at since
    have still := unset w p before was earlier since
    rintro (⟨rfl, setting⟩ | ⟨_, later⟩)
    · cases was.symm.trans setting
      rcases earlier with same | same <;> cases same
    · exact still later
  · rw [stored] at since
    simp [Kernel.condUnlockStore] at since

theorem takersUnset_of_run {cond : CondIx} {path : List (State Pid × Pid × Call)} {s : State Pid}
    (run : ((program Pid).system (Allocated cond)).Run path s) : TakersUnset cond path s := by
  induction run with
  | start allocated =>
    intro w p pc at' window
    cases (allocated.thread w).symm.trans at'
    rcases window with window | window <;> cases window
  | next earlier moved ih =>
    have reach : ((program Pid).system (Allocated cond)).Reach _ := earlier.reachUnder fun _ _ => trivial
    exact ih.step (owned_of_quiet (fun _ allocated => allocated.toQuiet) reach)
      (sleptAt_of_quiet (fun _ allocated => allocated.toQuiet) reach) (Program.step_of_next moved).2

/-- A signal that is executed in a step reaches the waiters. -/
def SignalReachesWaiters (cond : CondIx) (s : State Pid) (label : Pid × Call) : Prop :=
  Signals cond s label.1 → WaitersAsleep cond s label.1

/-- A process takes the mutex and signals while the waiter that gave it up is
still on its way to `sleep`. -/
def signalInWindow {Pid : Type*} (waiter signaller : Pid) (cond : CondIx) : List (Pid × Call) := schedule
  [(waiter, .condLock cond, 6), (waiter, .condWait cond, 5), (signaller, .condLock cond, 6),
   (signaller, .condSignal cond, 1)]

/-- Two processes outside of all calls, and the mutex and its locks free. -/
structure AtRest (cond : CondIx) (waiter signaller : Pid) (s : State Pid) : Prop where
  distinct : waiter ≠ signaller
  waiter : s.thread waiter = .run .user
  signaller : s.thread signaller = .run .user
  free : (s.mem.mutexTable cond).locked = 1
  mutex : s.owner (.mutex cond) = none
  condition : s.owner (.condition cond) = none

/-- A call of `cond_lock` that finds the mutex free. -/
theorem run_condLock {cond : CondIx} {p : Pid} {s : State Pid} (user : s.thread p = .run .user)
    (free : (s.mem.mutexTable cond).locked = 1) (mutex : s.owner (.mutex cond) = none) :
    ∃ t, ((program Pid).system (Allocated cond)).run (List.replicate 6 (p, .condLock cond)) s = some t ∧
      t.mem.since = (s.mem.condLockStore p cond).since ∧ t.owner = s.owner ∧ t.thread = s.thread := by
  refine ⟨⟨{ s.mem.condLockStore p cond with ret := Function.update s.mem.ret p 0 }, s.owner, s.thread⟩, ?_, rfl, rfl,
    rfl⟩
  simp [System.runUnder, Program.system, Program.step, program, instr, user, free, mutex, Call.entry, Caller.afterLock,
    List.replicate, Kernel.condLockStore, Kernel.setMutex]

/-- A call of `cond_wait` up to its `sleep`. -/
theorem run_condWait {cond : CondIx} {w : Pid} {s : State Pid} (user : s.thread w = .run .user)
    (mutex : s.owner (.mutex cond) = none) (condition : s.owner (.condition cond) = none) :
    ∃ t, ((program Pid).system (Allocated cond)).run (List.replicate 5 (w, .condWait cond)) s = some t ∧
      (t.mem.mutexTable cond).locked = 1 ∧ t.owner = Function.update s.owner (.condition cond) (some w) ∧
      t.thread = Function.update s.thread w (.run (.condWaitSleep cond)) := by
  refine ⟨⟨s.mem.condUnlockStore w cond .condWait, Function.update s.owner (.condition cond) (some w),
    Function.update s.thread w (.run (.condWaitSleep cond))⟩, ?_, by simp, rfl, rfl⟩
  simp [System.runUnder, Program.system, Program.step, program, instr, user, mutex, condition, Call.entry,
    Caller.afterUnlock, List.replicate]

/-- A signal without a `cond_set` can miss a waiter, whatever has been called before. -/
theorem missed_of_atRest {cond : CondIx} {w p : Pid} {s : State Pid} (rest : AtRest cond w p s) :
    ∃ t, ((program Pid).system (Allocated cond)).run (signalInWindow w p cond) s = some t ∧
      ¬ SignalReachesWaiters cond t (p, .condSignal cond) := by
  obtain ⟨distinct, waiter, signaller, free, mutex, condition⟩ := rest
  obtain ⟨s1, lock1, _, owner1, thread1⟩ := run_condLock waiter free mutex
  obtain ⟨s2, wait2, free2, owner2, thread2⟩ :=
    run_condWait (w := w) (s := s1) (by rwa [thread1]) (by rwa [owner1]) (by rwa [owner1])
  have user2 : s2.thread p = .run .user := by
    rw [thread2, Function.update_of_ne distinct.symm, thread1]
    exact signaller
  have mutex2 : s2.owner (.mutex cond) = none := by
    rw [owner2, Function.update_of_ne (by simp), owner1]
    exact mutex
  obtain ⟨s3, lock3, since3, _, thread3⟩ := run_condLock (p := p) user2 free2 mutex2
  have user3 : s3.thread p = .run .user := by rw [thread3, user2]
  have enters : ((program Pid).system (Allocated cond)).run [(p, .condSignal cond)] s3 =
      some ⟨s3.mem, s3.owner, Function.update s3.thread p (.run (.condSignal cond))⟩ := by
    simp [System.runUnder, Program.system, Program.step, program, instr, user3, Call.entry]
  refine ⟨⟨s3.mem, s3.owner, Function.update s3.thread p (.run (.condSignal cond))⟩, ?_, fun reaches => ?_⟩
  · have whole : signalInWindow w p cond = List.replicate 6 (w, .condLock cond) ++
        (List.replicate 5 (w, .condWait cond) ++ (List.replicate 6 (p, .condLock cond) ++ [(p, .condSignal cond)])) := rfl
    rw [whole]
    exact (System.runUnder_append lock1 _).trans
      ((System.runUnder_append wait2 _).trans ((System.runUnder_append lock3 _).trans enters))
  · refine reaches (Or.inl (Function.update_self ..)) w (.condWaitSleep cond) ?_ ?_ (Or.inr rfl)
    · change s3.mem.since cond w p = true
      simp [since3, Kernel.condLockStore]
    · change Function.update s3.thread p (.run (.condSignal cond)) w = .run (.condWaitSleep cond)
      rw [Function.update_of_ne distinct, thread3, thread2, Function.update_self]

/-- In every run in which each process that signals has called `cond_set` since it last took the
mutex, which waits for `condition->lock`, the signals reach the waiters. A process that does
not can miss a waiter, from every state in which the two are outside of all calls. -/
theorem signals_reach_waiters (cond : CondIx) {path : List (State Pid × Pid × Call)} {s : State Pid}
    (run : ((program Pid).system (Allocated cond)).Run path s) :
    (SignalsAfterSet cond path → ∀ step ∈ path, SignalReachesWaiters cond step.1 step.2) ∧
    ∀ w p, AtRest cond w p s → ∃ t, ((program Pid).system (Allocated cond)).run (signalInWindow w p cond) s = some t ∧
      ¬ SignalReachesWaiters cond t (p, .condSignal cond) := by
  refine ⟨fun after => ?_, fun w p => missed_of_atRest⟩
  induction run with
  | start => simp
  | next earlier moved ih =>
    rw [List.forall_mem_cons]
    refine ⟨fun signals w pc since waiting window => ?_, ih after.2⟩
    exact takersUnset_of_run earlier w _ pc waiting window since (after.1 signals)

instance (cond : CondIx) (s : State Pid) (p : Pid) : Decidable (Signals cond s p) :=
  inferInstanceAs (Decidable (_ ∨ _))

instance (cond : CondIx) (p : Pid) (step : State Pid × Pid × Call) : Decidable (Sets cond p step) :=
  inferInstanceAs (Decidable (_ ∧ _))

instance (cond : CondIx) (p : Pid) (step : State Pid × Pid × Call) : Decidable (TakesMutex cond p step) :=
  inferInstanceAs (Decidable (_ ∧ _))

instance decidableSetSinceLock (cond : CondIx) (p : Pid) : (path : List (State Pid × Pid × Call)) →
    Decidable (SetSinceLock cond p path)
  | [] => isTrue trivial
  | _ :: earlier => @instDecidableOr _ _ _ (@instDecidableAnd _ _ _ (decidableSetSinceLock cond p earlier))

instance decidableSignalsAfterSet (cond : CondIx) : (path : List (State Pid × Pid × Call)) →
    Decidable (SignalsAfterSet cond path)
  | [] => isTrue trivial
  | _ :: earlier => @instDecidableAnd _ _ _ (decidableSignalsAfterSet cond earlier)

/-- A process waits; another one takes the mutex, sets the value and signals. -/
def setAndSignal {Pid : Type*} (waiter signaller : Pid) (cond : CondIx) : List (Pid × Call) := schedule
  [(waiter, .condLock cond, 6), (waiter, .condWait cond, 5), (signaller, .condLock cond, 6), (waiter, .condWait cond, 1),
   (signaller, .condSet cond 1, 5), (signaller, .condSignal cond, 2)]

set_option maxRecDepth 10000 in
theorem signals_reach_waiters_setAndSignal : ∃ path, ∃ s : State (Fin 2), ∃ step ∈ path,
    ((program (Fin 2)).system (Allocated 0)).Run path s ∧ step.1.thread 1 = .run (.condSignal 0) ∧
      step.1.mem.since 0 0 1 = true ∧ step.2.1 = 1 ∧ WaitersAsleep 0 step.1 1 := by
  have computed : (((program (Fin 2)).system (Allocated 0)).trace (setAndSignal 0 1 0) [] (allAllocated (Fin 2))).map
      (fun run => (decide (SignalsAfterSet 0 run.1), run.1.head?.any fun step =>
        decide (step.1.thread 1 = .run (.condSignal 0) ∧ step.1.mem.since 0 0 1 = true ∧ step.2.1 = 1))) =
      some (true, true) := by decide
  obtain ⟨⟨path, s⟩, reached, state⟩ := Option.map_eq_some_iff.mp computed
  simp only [Prod.mk.injEq, decide_eq_true_eq, Option.any_eq_true] at state
  obtain ⟨after, step, first, signals, since, who⟩ := state
  have run := System.Run.of_trace (.start (allocated_allAllocated (Fin 2) 0)) reached
  have member := List.mem_of_mem_head? first
  have reaches := (signals_reach_waiters 0 run).1 after step member
  refine ⟨path, s, step, member, run, signals, since, who, who ▸ reaches ?_⟩
  rw [who]
  exact Or.inl signals

set_option maxRecDepth 10000 in
/-- The signal of the new holder misses the waiter, which then falls asleep. -/
theorem signal_misses_waiter :
    ∃ s, ((program (Fin 2)).system (Allocated 0)).ReachUnder (UsedProperly 0) s ∧
      s.mem.holds 0 1 = true ∧ ¬ SignalReachesWaiters 0 s (1, .condSignal 0) ∧
      ∃ t, ((program (Fin 2)).system (Allocated 0)).run [(1, .condSignal 0), (0, .condWait 0)] s = some t ∧
        t.thread 0 = .asleep (.alarmClock 0) (.condition 0) (.condLockLock 0 .condWait) := by
  have computed : (((program (Fin 2)).system (Allocated 0)).runUnder (UsedProperly 0) (signalInWindow 0 1 0)
      (allAllocated (Fin 2))).map (fun s => ((s.thread 0, s.thread 1), s.mem.holds 0 1, s.mem.since 0 0 1,
        (((program (Fin 2)).system (Allocated 0)).run [(1, .condSignal 0), (0, .condWait 0)] s).map
          (fun t => t.thread 0))) =
      some ((.run (.condWaitSleep 0), .run (.condSignal 0)), true, true,
        some (.asleep (.alarmClock 0) (.condition 0) (.condLockLock 0 .condWait))) := by decide
  obtain ⟨s, reached, state⟩ := Option.map_eq_some_iff.mp computed
  simp only [Prod.mk.injEq] at state
  obtain ⟨⟨waiter, signaller⟩, holder, since, lost⟩ := state
  have reach := System.ReachUnder.of_run (.start (allocated_allAllocated (Fin 2) 0)) reached
  refine ⟨s, reach, holder, fun reaches => ?_, Option.map_eq_some_iff.mp lost⟩
  exact reaches (Or.inl signaller) 0 _ since waiter (Or.inr rfl)

end DeviceProgramming.Xv6
