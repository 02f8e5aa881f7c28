import DeviceProgramming.Machine.Ownership
import DeviceProgramming.Machine.Int32
import Mathlib.Data.Int.Init

namespace DeviceProgramming.Xv6

abbrev nsemMax : ℕ := 20

abbrev ncondMax : ℕ := 20

/-- An index of `semaphore_table.semaphore`. -/
abbrev SemIx := Fin nsemMax

/-- An index of `condition_table.condition` and of `mutex_table.mutex`. -/
abbrev CondIx := Fin ncondMax

structure Semaphore where
  count : ℤ
  ref : ℤ
  deriving DecidableEq

/-- `locked` is 1 while the mutex is free and 0 while a process has it. -/
structure Mutex where
  locked : ℤ
  deriving DecidableEq

structure Condition where
  value : ℤ
  ref : ℤ
  deriving DecidableEq

/-- The spinlocks of the three tables and of their entries. -/
inductive Lock
  | semaphoreTable
  | semaphore (sn : SemIx)
  | mutexTable
  | mutex (cond : CondIx)
  | conditionTable
  | condition (cond : CondIx)
  deriving DecidableEq

/-- The addresses that processes sleep on: `&s->q`, `&mutex->q` and
`&condition->alarm_clock`. -/
inductive Chan
  | semQ (sn : SemIx)
  | mutexQ (cond : CondIx)
  | alarmClock (cond : CondIx)
  deriving DecidableEq

/-- The tables of the kernel and the value that the last call of each process
returned. The last four fields are history: no statement reads them. -/
structure Kernel (Pid : Type*) where
  semaphoreTable : SemIx → Semaphore
  mutexTable : CondIx → Mutex
  conditionTable : CondIx → Condition
  ret : Pid → ℤ
  /-- The `sem_wait` calls that have returned. -/
  returned : SemIx → ℕ
  /-- The `sem_post` calls that have incremented the count. -/
  posted : SemIx → ℕ
  /-- The processes that stored `locked = 0` and not yet `locked = 1`. -/
  holds : CondIx → Pid → Bool
  /-- `since cond w p`: `p` stored `locked = 0` after `w` last stored
  `locked = 1` in `cond_wait`. -/
  since : CondIx → Pid → Pid → Bool

/-- The calls of the `sem_*` and `cond_*` functions by a user process. -/
inductive Call
  | semAlloc
  | semInit (sn : SemIx) (n : ℤ)
  | semDestroy (sn : SemIx)
  | semWait (sn : SemIx)
  | semPost (sn : SemIx)
  | condAlloc
  | condSet (cond : CondIx) (val : ℤ)
  | condGet (cond : CondIx)
  | condDestroy (cond : CondIx)
  | condWait (cond : CondIx)
  | condSignal (cond : CondIx)
  | condBroadcast (cond : CondIx)
  | condLock (cond : CondIx)
  | condUnlock (cond : CondIx)
  deriving DecidableEq

/-- Who called `cond_lock` or `cond_unlock`: a process, or `cond_wait`. -/
inductive Caller
  | process
  | condWait
  deriving DecidableEq

/-- The statements of `file.c`, by function. -/
inductive Pc
  | user
  | ret (val : ℤ)
  | semAllocLock
  | semAllocScan (k : ℕ)
  | semAllocUnlock (result : ℤ)
  | semInitLock (sn : SemIx) (n : ℤ)
  | semInitStore (sn : SemIx) (n : ℤ)
  | semInitUnlock (sn : SemIx)
  | semDestroy (sn : SemIx)
  | semWaitLock (sn : SemIx)
  | semWaitCount (sn : SemIx)
  | semWaitSleep (sn : SemIx)
  | semWaitUnlock (sn : SemIx)
  | semWaitReturn (sn : SemIx)
  | semPostLock (sn : SemIx)
  | semPostCount (sn : SemIx)
  | semPostWakeup (sn : SemIx)
  | semPostUnlock (sn : SemIx)
  | condLockLock (cond : CondIx) (caller : Caller)
  | condLockTest (cond : CondIx) (caller : Caller)
  | condLockSleep (cond : CondIx) (caller : Caller)
  | condLockStore (cond : CondIx) (caller : Caller)
  | condLockUnlock (cond : CondIx) (caller : Caller)
  | condUnlockLock (cond : CondIx) (caller : Caller)
  | condUnlockStore (cond : CondIx) (caller : Caller)
  | condUnlockUnlock (cond : CondIx) (caller : Caller)
  | condAllocLock
  | condAllocLockMutex
  | condAllocScan (counter : ℕ)
  | condAllocUnlockMutex (result : ℤ)
  | condAllocUnlock (result : ℤ)
  | condSetLock (cond : CondIx) (val : ℤ)
  | condSetStore (cond : CondIx) (val : ℤ)
  | condSetUnlock (cond : CondIx)
  | condGet (cond : CondIx)
  | condDestroyLock (cond : CondIx)
  | condDestroyStore (cond : CondIx)
  | condDestroyUnlock
  | condWaitLock (cond : CondIx)
  | condWaitSleep (cond : CondIx)
  | condWaitUnlock (cond : CondIx)
  | condSignal (cond : CondIx)
  | condBroadcast (cond : CondIx)
  deriving DecidableEq

/-- The first statement of a call. -/
def Call.entry : Call → Pc
  | semAlloc => .semAllocLock
  | semInit sn n => .semInitLock sn n
  | semDestroy sn => .semDestroy sn
  | semWait sn => .semWaitLock sn
  | semPost sn => .semPostLock sn
  | condAlloc => .condAllocLock
  | condSet cond val => .condSetLock cond val
  | condGet cond => .condGet cond
  | condDestroy cond => .condDestroyLock cond
  | condWait cond => .condWaitLock cond
  | condSignal cond => .condSignal cond
  | condBroadcast cond => .condBroadcast cond
  | condLock cond => .condLockLock cond .process
  | condUnlock cond => .condUnlockLock cond .process

/-- Where `cond_lock` returns to. -/
def Caller.afterLock (cond : CondIx) : Caller → Pc
  | process => .ret 0
  | condWait => .condWaitUnlock cond

/-- Where `cond_unlock` returns to. -/
def Caller.afterUnlock (cond : CondIx) : Caller → Pc
  | process => .ret 0
  | condWait => .condWaitSleep cond

namespace Kernel
variable {Pid : Type*} [DecidableEq Pid]

def setSemaphore (m : Kernel Pid) (sn : SemIx) (s : Semaphore) : Kernel Pid :=
  { m with semaphoreTable := Function.update m.semaphoreTable sn s }

def setMutex (m : Kernel Pid) (cond : CondIx) (mutex : Mutex) : Kernel Pid :=
  { m with mutexTable := Function.update m.mutexTable cond mutex }

def setCondition (m : Kernel Pid) (cond : CondIx) (condition : Condition) : Kernel Pid :=
  { m with conditionTable := Function.update m.conditionTable cond condition }

/-- One turn of the loop of `sem_alloc`, and where it goes on. -/
def semAllocScan (k : ℕ) (m : Kernel Pid) : Kernel Pid × Pc :=
  if within : k < nsemMax then
    if (m.semaphoreTable ⟨k, within⟩).ref = 0 then
      (m.setSemaphore ⟨k, within⟩ { m.semaphoreTable ⟨k, within⟩ with ref := 1 }, .semAllocUnlock k)
    else (m, .semAllocScan (k + 1))
  else (m, .semAllocUnlock (-1))

/-- `s->count--` and the test of the new count, both under `s->lock`. -/
def semWaitCount (sn : SemIx) (m : Kernel Pid) : Kernel Pid × Pc :=
  let count := int32 ((m.semaphoreTable sn).count - 1)
  (m.setSemaphore sn { m.semaphoreTable sn with count := count },
    if count < 0 then .semWaitSleep sn else .semWaitUnlock sn)

/-- `s->count++` and the test of the new count, both under `s->lock`. -/
def semPostCount (sn : SemIx) (m : Kernel Pid) : Kernel Pid × Pc :=
  let count := int32 ((m.semaphoreTable sn).count + 1)
  ({ m.setSemaphore sn { m.semaphoreTable sn with count := count } with
      posted := Function.update m.posted sn (m.posted sn + 1) },
    if count ≤ 0 then .semPostWakeup sn else .semPostUnlock sn)

/-- `mutex->locked = 0` by `p`. -/
def condLockStore (p : Pid) (cond : CondIx) (m : Kernel Pid) : Kernel Pid :=
  { m.setMutex cond ⟨0⟩ with
    holds := Function.update m.holds cond (Function.update (m.holds cond) p true)
    since := Function.update m.since cond fun w => Function.update (m.since cond w) p true }

/-- `mutex->locked = 1` by `p`. -/
def condUnlockStore (p : Pid) (cond : CondIx) (caller : Caller) (m : Kernel Pid) : Kernel Pid :=
  { m.setMutex cond ⟨1⟩ with
    holds := Function.update m.holds cond (Function.update (m.holds cond) p false)
    since := if caller = .condWait then
        Function.update m.since cond (Function.update (m.since cond) p fun _ => false)
      else m.since }

@[simp] theorem locked_condLockStore (p : Pid) (cond : CondIx) (m : Kernel Pid) :
    ((m.condLockStore p cond).mutexTable cond).locked = 0 := by
  simp [condLockStore, setMutex]

@[simp] theorem locked_condUnlockStore (p : Pid) (cond : CondIx) (caller : Caller) (m : Kernel Pid) :
    ((m.condUnlockStore p cond caller).mutexTable cond).locked = 1 := by
  simp [condUnlockStore, setMutex]

theorem holds_condLockStore (p q : Pid) (cond : CondIx) (m : Kernel Pid) :
    (m.condLockStore p cond).holds cond q = true ↔ q = p ∨ m.holds cond q = true := by
  by_cases same : q = p <;> simp [condLockStore, same]

theorem holds_condUnlockStore (p q : Pid) (cond : CondIx) (caller : Caller) (m : Kernel Pid) :
    (m.condUnlockStore p cond caller).holds cond q = true ↔ q ≠ p ∧ m.holds cond q = true := by
  by_cases same : q = p <;> simp [condUnlockStore, same]

/-- One turn of the loop of `cond_alloc`, whose body and whose header both
increment the counter. -/
def condAllocScan (counter : ℕ) (m : Kernel Pid) : Kernel Pid × Pc :=
  if within : counter < ncondMax then
    if (m.conditionTable ⟨counter, within⟩).ref = 0 then
      ((m.setCondition ⟨counter, within⟩ { m.conditionTable ⟨counter, within⟩ with ref := 1 }).setMutex
        ⟨counter, within⟩ ⟨1⟩, .condAllocUnlockMutex counter)
    else (m, .condAllocScan (counter + 1 + 1))
  else (m, .condAllocUnlockMutex (-1))

end Kernel

section
variable {Pid : Type*} [DecidableEq Pid]

/-- The statements of `sem_*` and `cond_*`. A process in user mode makes any
call at any time; `cond_wait` runs `cond_unlock` and `cond_lock` inside. -/
def instr (p : Pid) : Pc → Instr Lock Chan (Kernel Pid) Pc Call
  | .user => .exec fun call m => some (m, call.entry)
  | .ret val => .exec fun _ m => some ({ m with ret := Function.update m.ret p val }, .user)
  | .semAllocLock => .acquire .semaphoreTable (.semAllocScan 0)
  | .semAllocScan k => .exec fun _ m => some (m.semAllocScan k)
  | .semAllocUnlock result => .release .semaphoreTable (.ret result)
  | .semInitLock sn n => .acquire (.semaphore sn) (.semInitStore sn n)
  | .semInitStore sn n => .exec fun _ m =>
      some (m.setSemaphore sn { m.semaphoreTable sn with count := n }, .semInitUnlock sn)
  | .semInitUnlock sn => .release (.semaphore sn) (.ret 0)
  | .semDestroy sn => .exec fun _ m =>
      some (m.setSemaphore sn { m.semaphoreTable sn with ref := 0 }, .ret 0)
  | .semWaitLock sn => .acquire (.semaphore sn) (.semWaitCount sn)
  | .semWaitCount sn => .exec fun _ m => some (m.semWaitCount sn)
  | .semWaitSleep sn => .sleep (.semQ sn) (.semaphore sn) (.semWaitUnlock sn)
  | .semWaitUnlock sn => .release (.semaphore sn) (.semWaitReturn sn)
  | .semWaitReturn sn => .exec fun _ m =>
      some ({ m with ret := Function.update m.ret p 0,
                     returned := Function.update m.returned sn (m.returned sn + 1) }, .user)
  | .semPostLock sn => .acquire (.semaphore sn) (.semPostCount sn)
  | .semPostCount sn => .exec fun _ m => some (m.semPostCount sn)
  | .semPostWakeup sn => .wakeup (.semQ sn) (.semPostUnlock sn)
  | .semPostUnlock sn => .release (.semaphore sn) (.ret 0)
  | .condLockLock cond caller => .acquire (.mutex cond) (.condLockTest cond caller)
  | .condLockTest cond caller => .exec fun _ m =>
      some (m, if (m.mutexTable cond).locked = 0 then .condLockSleep cond caller
        else .condLockStore cond caller)
  | .condLockSleep cond caller => .sleep (.mutexQ cond) (.mutex cond) (.condLockTest cond caller)
  | .condLockStore cond caller => .exec fun _ m =>
      some (m.condLockStore p cond, .condLockUnlock cond caller)
  | .condLockUnlock cond caller => .release (.mutex cond) (caller.afterLock cond)
  | .condUnlockLock cond caller => .acquire (.mutex cond) (.condUnlockStore cond caller)
  | .condUnlockStore cond caller => .exec fun _ m =>
      some (m.condUnlockStore p cond caller, .condUnlockUnlock cond caller)
  | .condUnlockUnlock cond caller => .release (.mutex cond) (caller.afterUnlock cond)
  | .condAllocLock => .acquire .conditionTable .condAllocLockMutex
  | .condAllocLockMutex => .acquire .mutexTable (.condAllocScan 0)
  | .condAllocScan counter => .exec fun _ m => some (m.condAllocScan counter)
  | .condAllocUnlockMutex result => .release .mutexTable (.condAllocUnlock result)
  | .condAllocUnlock result => .release .conditionTable (.ret result)
  | .condSetLock cond val => .acquire (.condition cond) (.condSetStore cond val)
  | .condSetStore cond val => .exec fun _ m =>
      some (m.setCondition cond { m.conditionTable cond with value := val }, .condSetUnlock cond)
  | .condSetUnlock cond => .release (.condition cond) (.ret 0)
  | .condGet cond => .exec fun _ m => some (m, .ret (m.conditionTable cond).value)
  | .condDestroyLock cond => .acquire .conditionTable (.condDestroyStore cond)
  | .condDestroyStore cond => .exec fun _ m =>
      some (m.setCondition cond { m.conditionTable cond with ref := 0 }, .condDestroyUnlock)
  | .condDestroyUnlock => .release .conditionTable (.ret 0)
  | .condWaitLock cond => .acquire (.condition cond) (.condUnlockLock cond .condWait)
  | .condWaitSleep cond => .sleep (.alarmClock cond) (.condition cond) (.condLockLock cond .condWait)
  | .condWaitUnlock cond => .release (.condition cond) (.ret 0)
  | .condSignal cond => .wakeup (.alarmClock cond) (.ret 0)
  | .condBroadcast cond => .wakeup (.alarmClock cond) (.ret 0)

/-- The kernel as a concurrent program; the kernel never ends. -/
def program (Pid : Type*) [DecidableEq Pid] : Program Pid Lock Chan (Kernel Pid) Pc Call where
  instr := instr
  halted _ := false

end

/-- A state of the kernel with all its processes. -/
abbrev State (Pid : Type*) := Threads Pid Lock Chan (Kernel Pid) Pc

/-- No process is inside a call and no spinlock is taken. -/
structure Quiet {Pid : Type*} (s : State Pid) : Prop where
  thread : ∀ p, s.thread p = .run .user
  owner : ∀ l, s.owner l = none

/-- The kernel after boot, with zeroed tables. -/
def boot (Pid : Type*) : State Pid where
  mem :=
    { semaphoreTable := fun _ => ⟨0, 0⟩
      mutexTable := fun _ => ⟨0⟩
      conditionTable := fun _ => ⟨0, 0⟩
      ret := fun _ => 0
      returned := fun _ => 0
      posted := fun _ => 0
      holds := fun _ _ => false
      since := fun _ _ _ => false }
  owner _ := none
  thread _ := .run .user

theorem quiet_boot (Pid : Type*) : Quiet (boot Pid) := ⟨fun _ => rfl, fun _ => rfl⟩

end DeviceProgramming.Xv6
