import DeviceProgramming.Xv6.File
import DeviceProgramming.Machine.Sleep

namespace DeviceProgramming.Xv6

variable {Pid : Type*} [DecidableEq Pid]

/-- What the statement of `p` at a program point does to the tables and where
it leads, branch by branch. -/
inductive Effect (p : Pid) (call : Call) (m : Kernel Pid) : Pc → Kernel Pid → Pc → Prop
  | enter : Effect p call m .user m call.entry
  | ret {val} : Effect p call m (.ret val) { m with ret := Function.update m.ret p val } .user
  | semAllocTake (sn : SemIx) : (m.semaphoreTable sn).ref = 0 →
      Effect p call m (.semAllocScan sn) (m.setSemaphore sn { m.semaphoreTable sn with ref := 1 })
        (.semAllocUnlock (sn : ℕ))
  | semAllocSkip (sn : SemIx) : (m.semaphoreTable sn).ref ≠ 0 →
      Effect p call m (.semAllocScan sn) m (.semAllocScan (sn + 1))
  | semAllocFull {k} : nsemMax ≤ k → Effect p call m (.semAllocScan k) m (.semAllocUnlock (-1))
  | semInitStore {sn n} :
      Effect p call m (.semInitStore sn n) (m.setSemaphore sn { m.semaphoreTable sn with count := n })
        (.semInitUnlock sn)
  | semDestroy {sn} :
      Effect p call m (.semDestroy sn) (m.setSemaphore sn { m.semaphoreTable sn with ref := 0 }) (.ret 0)
  | semWaitBlock {sn} : int32 ((m.semaphoreTable sn).count - 1) < 0 →
      Effect p call m (.semWaitCount sn) (m.semWaitCount sn).1 (.semWaitSleep sn)
  | semWaitPass {sn} : 0 ≤ int32 ((m.semaphoreTable sn).count - 1) →
      Effect p call m (.semWaitCount sn) (m.semWaitCount sn).1 (.semWaitUnlock sn)
  | semWaitReturn {sn} :
      Effect p call m (.semWaitReturn sn)
        { m with ret := Function.update m.ret p 0,
                 returned := Function.update m.returned sn (m.returned sn + 1) } .user
  | semPostWake {sn} : int32 ((m.semaphoreTable sn).count + 1) ≤ 0 →
      Effect p call m (.semPostCount sn) (m.semPostCount sn).1 (.semPostWakeup sn)
  | semPostPass {sn} : 0 < int32 ((m.semaphoreTable sn).count + 1) →
      Effect p call m (.semPostCount sn) (m.semPostCount sn).1 (.semPostUnlock sn)
  | condLockBlock {cond caller} : (m.mutexTable cond).locked = 0 →
      Effect p call m (.condLockTest cond caller) m (.condLockSleep cond caller)
  | condLockPass {cond caller} : (m.mutexTable cond).locked ≠ 0 →
      Effect p call m (.condLockTest cond caller) m (.condLockStore cond caller)
  | condLockStore {cond caller} :
      Effect p call m (.condLockStore cond caller) (m.condLockStore p cond) (.condLockUnlock cond caller)
  | condUnlockStore {cond caller} :
      Effect p call m (.condUnlockStore cond caller) (m.condUnlockStore p cond caller)
        (.condUnlockUnlock cond caller)
  | condAllocTake (cond : CondIx) : (m.conditionTable cond).ref = 0 →
      Effect p call m (.condAllocScan cond)
        ((m.setCondition cond { m.conditionTable cond with ref := 1 }).setMutex cond ⟨1⟩)
        (.condAllocUnlockMutex (cond : ℕ))
  | condAllocSkip (cond : CondIx) : (m.conditionTable cond).ref ≠ 0 →
      Effect p call m (.condAllocScan cond) m (.condAllocScan (cond + 1 + 1))
  | condAllocFull {counter} : ncondMax ≤ counter →
      Effect p call m (.condAllocScan counter) m (.condAllocUnlockMutex (-1))
  | condSetStore {cond val} :
      Effect p call m (.condSetStore cond val)
        (m.setCondition cond { m.conditionTable cond with value := val }) (.condSetUnlock cond)
  | condGet {cond} : Effect p call m (.condGet cond) m (.ret (m.conditionTable cond).value)
  | condDestroyStore {cond} :
      Effect p call m (.condDestroyStore cond)
        (m.setCondition cond { m.conditionTable cond with ref := 0 }) .condDestroyUnlock

theorem effect_semAllocScan (p : Pid) (call : Call) (k : ℕ) (m : Kernel Pid) :
    Effect p call m (.semAllocScan k) (m.semAllocScan k).1 (m.semAllocScan k).2 := by
  unfold Kernel.semAllocScan
  split
  · rename_i within
    split
    · rename_i free
      exact .semAllocTake ⟨k, within⟩ free
    · rename_i taken
      exact .semAllocSkip ⟨k, within⟩ taken
  · exact .semAllocFull (by omega)

theorem effect_condAllocScan (p : Pid) (call : Call) (counter : ℕ) (m : Kernel Pid) :
    Effect p call m (.condAllocScan counter) (m.condAllocScan counter).1 (m.condAllocScan counter).2 := by
  unfold Kernel.condAllocScan
  split
  · rename_i within
    split
    · rename_i free
      exact .condAllocTake ⟨counter, within⟩ free
    · rename_i taken
      exact .condAllocSkip ⟨counter, within⟩ taken
  · exact .condAllocFull (by omega)

theorem effect_semWaitCount (p : Pid) (call : Call) (sn : SemIx) (m : Kernel Pid) :
    Effect p call m (.semWaitCount sn) (m.semWaitCount sn).1 (m.semWaitCount sn).2 := by
  by_cases negative : int32 ((m.semaphoreTable sn).count - 1) < 0
  · simpa only [Kernel.semWaitCount, if_pos negative] using Effect.semWaitBlock negative
  · simpa only [Kernel.semWaitCount, if_neg negative] using Effect.semWaitPass (not_lt.mp negative)

theorem effect_semPostCount (p : Pid) (call : Call) (sn : SemIx) (m : Kernel Pid) :
    Effect p call m (.semPostCount sn) (m.semPostCount sn).1 (m.semPostCount sn).2 := by
  by_cases waiting : int32 ((m.semaphoreTable sn).count + 1) ≤ 0
  · simpa only [Kernel.semPostCount, if_pos waiting] using Effect.semPostWake waiting
  · simpa only [Kernel.semPostCount, if_neg waiting] using Effect.semPostPass (not_le.mp waiting)

/-- Every executed statement is one of these branches. -/
theorem effect_of_exec {p : Pid} {pc next : Pc} {call : Call} {m m' : Kernel Pid}
    {effect : Call → Kernel Pid → Option (Kernel Pid × Pc)} (here : instr p pc = .exec effect)
    (run : effect call m = some (m', next)) : Effect p call m pc m' next := by
  cases pc <;> cases here
  all_goals
    have memory : _ = m' := congrArg Prod.fst (Option.some.inj run)
    have point : _ = next := congrArg Prod.snd (Option.some.inj run)
    subst memory point
  case semAllocScan k => exact effect_semAllocScan p call k m
  case condAllocScan counter => exact effect_condAllocScan p call counter m
  case semWaitCount sn => exact effect_semWaitCount p call sn m
  case semPostCount sn => exact effect_semPostCount p call sn m
  case condLockTest cond caller =>
    by_cases taken : (m.mutexTable cond).locked = 0
    · simpa only [if_pos taken] using Effect.condLockBlock taken
    · simpa only [if_neg taken] using Effect.condLockPass taken
  all_goals constructor

/-- How a process comes to a statement: it was there, it goes on after a
`sleep`, or its last statement led there. -/
theorem arrival {s t : State Pid} {p q : Pid} {call : Call} {pc : Pc}
    (slept : (program Pid).SleptAt s) (step : (program Pid).Step p call s t)
    (at' : t.thread q = .run pc) :
    (q ≠ p ∧ s.thread q = .run pc) ∨ q = p ∧
      ((t.mem = s.mem ∧ ∃ before chan lock, instr p before = .sleep chan lock pc) ∨
       (t.mem = s.mem ∧ ∃ before, s.thread p = .run before ∧ (instr p before).target = some pc) ∨
       ∃ before after next, s.thread p = .run before ∧ t.mem = after ∧ pc = next ∧
         Effect p call s.mem before after next) := by
  rcases step.run_cases at' with
    same | ⟨rfl, ⟨kept, lock, woken⟩ | target | ⟨before, effect, was, here, run⟩⟩
  · exact Or.inl same
  · obtain ⟨before, chan, here⟩ := slept.relock woken
    exact Or.inr ⟨rfl, Or.inl ⟨kept, before, chan, lock, here⟩⟩
  · exact Or.inr ⟨rfl, Or.inr (Or.inl target)⟩
  · exact Or.inr ⟨rfl, Or.inr (Or.inr ⟨before, _, _, was, rfl, rfl, effect_of_exec here run⟩)⟩

/-- The statements that only a test or a store leads to. -/
def Pc.Computed : Pc → Prop
  | .condLockSleep _ _ | .condLockStore _ _ | .condUnlockUnlock _ _ => True
  | _ => False

theorem Pc.Computed.not_target {p : Pid} {pc before : Pc} (computed : pc.Computed) :
    (instr p before).target ≠ some pc := by
  intro target
  cases before
  case condLockUnlock cond caller => cases caller <;> cases target <;> cases computed
  case condUnlockUnlock cond caller => cases caller <;> cases target <;> cases computed
  all_goals cases target <;> cases computed

/-- No lock operation and no `sleep` leads to such a statement. -/
theorem arrival_of_computed {s t : State Pid} {p q : Pid} {call : Call} {pc : Pc}
    (slept : (program Pid).SleptAt s) (step : (program Pid).Step p call s t)
    (at' : t.thread q = .run pc) (computed : pc.Computed) :
    (q ≠ p ∧ s.thread q = .run pc) ∨ q = p ∧ ∃ before after next, s.thread p = .run before ∧
      t.mem = after ∧ pc = next ∧ Effect p call s.mem before after next := by
  rcases arrival slept step at' with same | ⟨own, ⟨_, before, chan, lock, here⟩ | ⟨_, before, _, target⟩ | made⟩
  · exact Or.inl same
  · exact absurd (congrArg Instr.target here) computed.not_target
  · exact absurd target computed.not_target
  · exact Or.inr ⟨own, made⟩

/-- Only a test that finds the mutex taken leads to a `sleep` of `cond_lock`. -/
theorem condLockSleep_origin {s t : State Pid} {p q : Pid} {call : Call} {cond : CondIx} {caller : Caller}
    (slept : (program Pid).SleptAt s) (step : (program Pid).Step p call s t)
    (at' : t.thread q = .run (.condLockSleep cond caller)) :
    (q ≠ p ∧ s.thread q = .run (.condLockSleep cond caller)) ∨
      q = p ∧ s.thread p = .run (.condLockTest cond caller) ∧ (s.mem.mutexTable cond).locked = 0 ∧
        t.mem = s.mem := by
  rcases arrival_of_computed slept step at' trivial with
    same | ⟨rfl, before, after, next, was, kept, point, effect⟩
  · exact Or.inl same
  · refine Or.inr ⟨rfl, ?_⟩
    cases effect with
    | enter => cases call <;> cases point
    | condLockBlock taken => cases point; exact ⟨was, taken, kept⟩
    | _ => cases point

/-- Only the store of `cond_unlock` leads to its release. -/
theorem condUnlockUnlock_origin {s t : State Pid} {p q : Pid} {call : Call} {cond : CondIx}
    {caller : Caller} (slept : (program Pid).SleptAt s) (step : (program Pid).Step p call s t)
    (at' : t.thread q = .run (.condUnlockUnlock cond caller)) :
    (q ≠ p ∧ s.thread q = .run (.condUnlockUnlock cond caller)) ∨
      q = p ∧ s.thread p = .run (.condUnlockStore cond caller) ∧
        t.mem = s.mem.condUnlockStore p cond caller := by
  rcases arrival_of_computed slept step at' trivial with
    same | ⟨rfl, before, after, next, was, kept, point, effect⟩
  · exact Or.inl same
  · refine Or.inr ⟨rfl, ?_⟩
    rw [kept]
    cases effect with
    | enter => cases call <;> cases point
    | condUnlockStore => cases point; exact ⟨was, rfl⟩
    | _ => cases point

theorem effect_of_step {s t : State Pid} {p : Pid} {call : Call} (step : (program Pid).Step p call s t) :
    t.mem = s.mem ∨ ∃ before after next, s.thread p = .run before ∧ t.mem = after ∧
      Effect p call s.mem before after next := by
  rcases step.mem_cases with same | ⟨before, effect, next, was, here, run, _⟩
  · exact Or.inl same
  · exact Or.inr ⟨before, _, next, was, rfl, effect_of_exec here run⟩

end DeviceProgramming.Xv6
