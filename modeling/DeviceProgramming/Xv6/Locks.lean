import DeviceProgramming.Xv6.Effects

namespace DeviceProgramming.Xv6

/-- The locks that the function which called `cond_lock` or `cond_unlock` holds. -/
def Caller.held (cond : CondIx) : Caller → List Lock
  | process => []
  | condWait => [.condition cond]

/-- The spinlocks a process holds at each statement. -/
def held : Pc → List Lock
  | .semAllocScan _ | .semAllocUnlock _ => [.semaphoreTable]
  | .semInitStore sn _ | .semInitUnlock sn | .semWaitCount sn | .semWaitSleep sn | .semWaitUnlock sn
  | .semPostCount sn | .semPostWakeup sn | .semPostUnlock sn => [.semaphore sn]
  | .condLockLock cond caller | .condUnlockLock cond caller => caller.held cond
  | .condLockTest cond caller | .condLockSleep cond caller | .condLockStore cond caller
  | .condLockUnlock cond caller | .condUnlockStore cond caller | .condUnlockUnlock cond caller =>
      .mutex cond :: caller.held cond
  | .condAllocLockMutex | .condAllocUnlock _ | .condDestroyStore _ | .condDestroyUnlock =>
      [.conditionTable]
  | .condAllocScan _ | .condAllocUnlockMutex _ => [.mutexTable, .conditionTable]
  | .condSetStore cond _ | .condSetUnlock cond | .condWaitSleep cond | .condWaitUnlock cond =>
      [.condition cond]
  | .user | .ret _ | .semAllocLock | .semInitLock _ _ | .semDestroy _ | .semWaitLock _
  | .semWaitReturn _ | .semPostLock _ | .condAllocLock | .condSetLock _ _ | .condGet _
  | .condDestroyLock _ | .condWaitLock _ | .condSignal _ | .condBroadcast _ => []

variable {Pid : Type*} [DecidableEq Pid]

/-- No effect on the tables takes or gives a spinlock. -/
theorem held_exec {p : Pid} {pc next : Pc} {call : Call} {m m' : Kernel Pid}
    {effect : Call → Kernel Pid → Option (Kernel Pid × Pc)} (here : instr p pc = .exec effect)
    (run : effect call m = some (m', next)) : held next = held pc := by
  cases effect_of_exec here run with
  | enter => cases call <;> rfl
  | _ => rfl

/-- `held` lists the spinlocks of each statement correctly. -/
theorem disciplined : (program Pid).Disciplined fun _ => held := by
  apply Program.Disciplined.of_stack
  case acquire =>
    intro p pc lock next here
    cases pc <;> cases here <;> rfl
  case release =>
    intro p pc lock next here
    cases pc <;> cases here
    case condLockUnlock cond caller => cases caller <;> simp [held, Caller.held, Caller.afterLock]
    case condUnlockUnlock cond caller => cases caller <;> simp [held, Caller.held, Caller.afterUnlock]
    all_goals simp [held]
  case sleep =>
    intro p pc chan lock next here
    cases pc <;> cases here <;> simp [held, Caller.held]
  case wakeup =>
    intro p pc chan next here
    cases pc <;> cases here <;> rfl
  case exec => exact held_exec

/-- In every run from a quiet state the owner of a spinlock is the process whose
statement holds it. -/
theorem owned_of_quiet {start : State Pid → Prop} {ok : State Pid → Pid × Call → Prop} {s : State Pid}
    (quiet : ∀ s, start s → Quiet s) (reach : ((program Pid).system start).ReachUnder ok s) :
    s.Owned fun _ => held :=
  Program.owned_of_reach disciplined
    (fun s begun => Threads.owned_start (quiet s begun).owner fun p => ⟨.user, (quiet s begun).thread p, rfl⟩)
    reach

theorem sleptAt_of_quiet {start : State Pid → Prop} {ok : State Pid → Pid × Call → Prop} {s : State Pid}
    (quiet : ∀ s, start s → Quiet s) (reach : ((program Pid).system start).ReachUnder ok s) :
    (program Pid).SleptAt s :=
  Program.sleptAt_of_reach
    (fun s begun => Program.sleptAt_start fun p => ⟨.user, (quiet s begun).thread p⟩) reach

end DeviceProgramming.Xv6
