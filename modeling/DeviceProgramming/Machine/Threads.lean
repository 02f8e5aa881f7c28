import DeviceProgramming.Machine.System
import Mathlib.Logic.Function.Basic

namespace DeviceProgramming

/-- After one entry has changed, an entry is the new one or as it was. -/
theorem update_cases {ι α : Type*} [DecidableEq ι] {f g : ι → α} {i : ι} {x : α}
    (moved : g = Function.update f i x) (j : ι) : (j = i ∧ g j = x) ∨ (j ≠ i ∧ g j = f j) := by
  rw [moved]
  by_cases own : j = i
  · subst own
    exact Or.inl ⟨rfl, Function.update_self ..⟩
  · exact Or.inr ⟨own, Function.update_of_ne own ..⟩

/-- One statement of a thread. `sleep` gives a lock back and falls asleep on a
channel in one step, and takes the lock again before it goes on; `wakeup`
makes every thread asleep on the channel runnable, and nothing else does (there
are no spurious wakeups); `exec` reads and writes the
shared memory, with an outside choice as input, and is blocked at `none`. -/
inductive Instr (Lock Chan Mem Pc Input : Type*)
  | acquire (lock : Lock) (next : Pc)
  | release (lock : Lock) (next : Pc)
  | sleep (chan : Chan) (lock : Lock) (next : Pc)
  | wakeup (chan : Chan) (next : Pc)
  | exec (effect : Input → Mem → Option (Mem × Pc))

/-- What a thread is doing: running the statement at `pc`, asleep, or woken
and waiting to take back the lock it slept with. -/
inductive Activity (Lock Chan Pc : Type*)
  | run (pc : Pc)
  | asleep (chan : Chan) (lock : Lock) (pc : Pc)
  | relock (lock : Lock) (pc : Pc)
  deriving DecidableEq

namespace Activity
variable {Lock Chan Pc : Type*}

/-- The program point of a thread, or the one it goes on from when woken. -/
def pc : Activity Lock Chan Pc → Pc
  | run pc | asleep _ _ pc | relock _ pc => pc

/-- The effect of a `wakeup` on one thread. -/
def wake [DecidableEq Chan] (chan : Chan) : Activity Lock Chan Pc → Activity Lock Chan Pc
  | asleep c lock pc => if c = chan then relock lock pc else asleep c lock pc
  | other => other

@[simp] theorem pc_run (pc : Pc) : (run pc : Activity Lock Chan Pc).pc = pc := rfl
@[simp] theorem pc_asleep (chan : Chan) (lock : Lock) (pc : Pc) : (asleep chan lock pc).pc = pc := rfl
@[simp] theorem pc_relock (lock : Lock) (pc : Pc) : (relock lock pc : Activity Lock Chan Pc).pc = pc := rfl

@[simp] theorem wake_run [DecidableEq Chan] (chan : Chan) (pc : Pc) :
    (run pc : Activity Lock Chan Pc).wake chan = run pc := rfl

@[simp] theorem wake_relock [DecidableEq Chan] (chan : Chan) (lock : Lock) (pc : Pc) :
    (relock lock pc : Activity Lock Chan Pc).wake chan = relock lock pc := rfl

theorem wake_asleep [DecidableEq Chan] (chan c : Chan) (lock : Lock) (pc : Pc) :
    (asleep c lock pc).wake chan = if c = chan then relock lock pc else asleep c lock pc := rfl

@[simp] theorem pc_wake [DecidableEq Chan] (chan : Chan) (a : Activity Lock Chan Pc) :
    (a.wake chan).pc = a.pc := by
  cases a with
  | run | relock => rfl
  | asleep c lock pc => rw [wake_asleep]; split <;> rfl

@[simp] theorem wake_eq_run [DecidableEq Chan] {chan : Chan} {a : Activity Lock Chan Pc} {pc : Pc} :
    a.wake chan = run pc ↔ a = run pc := by
  cases a with
  | run | relock => exact Iff.rfl
  | asleep c lock pc => rw [wake_asleep]; split <;> simp

@[simp] theorem wake_eq_asleep [DecidableEq Chan] {chan c : Chan} {a : Activity Lock Chan Pc}
    {lock : Lock} {pc : Pc} : a.wake chan = asleep c lock pc ↔ a = asleep c lock pc ∧ c ≠ chan := by
  cases a with
  | run | relock => simp
  | asleep d held at' =>
    rw [wake_asleep]
    split
    · rename_i same
      simp only [reduceCtorEq, asleep.injEq, ne_eq, false_iff, not_and, not_not]
      rintro ⟨rfl, _⟩
      exact same
    · rename_i differ
      simp only [asleep.injEq, ne_eq, iff_self_and]
      rintro ⟨rfl, _⟩
      exact differ

end Activity

/-- The text of a concurrent program, a statement for each program point, and
the memory states in which the whole process has ended. -/
structure Program (Tid Lock Chan Mem Pc Input : Type*) where
  instr : Tid → Pc → Instr Lock Chan Mem Pc Input
  halted : Mem → Bool

/-- Shared memory, the owner of each lock and what each thread is doing. -/
structure Threads (Tid Lock Chan Mem Pc : Type*) where
  mem : Mem
  owner : Lock → Option Tid
  thread : Tid → Activity Lock Chan Pc

variable {Tid Lock Chan Mem Pc Input : Type*}

/-- Where every thread is in the program. -/
def Threads.pc (s : Threads Tid Lock Chan Mem Pc) (t : Tid) : Pc := (s.thread t).pc

theorem Threads.pc_of_run {s : Threads Tid Lock Chan Mem Pc} {t : Tid} {pc : Pc} (here : s.thread t = .run pc) :
    s.pc t = pc := by
  rw [Threads.pc, here]
  rfl

theorem Threads.pc_of_relock {s : Threads Tid Lock Chan Mem Pc} {t : Tid} {lock : Lock} {pc : Pc}
    (here : s.thread t = .relock lock pc) : s.pc t = pc := by
  rw [Threads.pc, here]
  rfl

theorem Threads.pc_of_asleep {s : Threads Tid Lock Chan Mem Pc} {t : Tid} {chan : Chan} {lock : Lock} {pc : Pc}
    (here : s.thread t = .asleep chan lock pc) : s.pc t = pc := by
  rw [Threads.pc, here]
  rfl

namespace Program
variable [DecidableEq Tid] [DecidableEq Lock] [DecidableEq Chan]

/-- The step of thread `t`; a thread waits while its lock is taken. -/
def step (P : Program Tid Lock Chan Mem Pc Input) (s : Threads Tid Lock Chan Mem Pc) (t : Tid)
    (input : Input) : Option (Threads Tid Lock Chan Mem Pc) :=
  if P.halted s.mem then none
  else match s.thread t with
    | .asleep _ _ _ => none
    | .relock lock pc =>
      if s.owner lock = none then
        some ⟨s.mem, Function.update s.owner lock (some t), Function.update s.thread t (.run pc)⟩
      else none
    | .run pc => match P.instr t pc with
      | .acquire lock next =>
        if s.owner lock = none then
          some ⟨s.mem, Function.update s.owner lock (some t), Function.update s.thread t (.run next)⟩
        else none
      | .release lock next =>
        some ⟨s.mem, Function.update s.owner lock none, Function.update s.thread t (.run next)⟩
      | .sleep chan lock next =>
        some ⟨s.mem, Function.update s.owner lock none,
          Function.update s.thread t (.asleep chan lock next)⟩
      | .wakeup chan next =>
        some ⟨s.mem, s.owner, Function.update (fun u => (s.thread u).wake chan) t (.run next)⟩
      | .exec effect =>
        (effect input s.mem).map fun (mem, next) =>
          ⟨mem, s.owner, Function.update s.thread t (.run next)⟩

/-- The labelled system of a program: a label names the thread and its input. -/
def system (P : Program Tid Lock Chan Mem Pc Input) (start : Threads Tid Lock Chan Mem Pc → Prop) :
    System (Threads Tid Lock Chan Mem Pc) (Tid × Input) where
  start := start
  next s label := P.step s label.1 label.2

/-- The six ways in which thread `t` can move, with everything that changes. -/
inductive Step (P : Program Tid Lock Chan Mem Pc Input) (t : Tid) (input : Input)
    (s : Threads Tid Lock Chan Mem Pc) : Threads Tid Lock Chan Mem Pc → Prop
  | relock {lock pc} : s.thread t = .relock lock pc → s.owner lock = none →
      Step P t input s
        ⟨s.mem, Function.update s.owner lock (some t), Function.update s.thread t (.run pc)⟩
  | acquire {pc lock next} : s.thread t = .run pc → P.instr t pc = .acquire lock next →
      s.owner lock = none →
      Step P t input s
        ⟨s.mem, Function.update s.owner lock (some t), Function.update s.thread t (.run next)⟩
  | release {pc lock next} : s.thread t = .run pc → P.instr t pc = .release lock next →
      Step P t input s
        ⟨s.mem, Function.update s.owner lock none, Function.update s.thread t (.run next)⟩
  | sleep {pc chan lock next} : s.thread t = .run pc → P.instr t pc = .sleep chan lock next →
      Step P t input s
        ⟨s.mem, Function.update s.owner lock none,
          Function.update s.thread t (.asleep chan lock next)⟩
  | wakeup {pc chan next} : s.thread t = .run pc → P.instr t pc = .wakeup chan next →
      Step P t input s
        ⟨s.mem, s.owner, Function.update (fun u => (s.thread u).wake chan) t (.run next)⟩
  | exec {pc effect mem next} : s.thread t = .run pc → P.instr t pc = .exec effect →
      effect input s.mem = some (mem, next) →
      Step P t input s ⟨mem, s.owner, Function.update s.thread t (.run next)⟩

variable {P : Program Tid Lock Chan Mem Pc Input} {s s' : Threads Tid Lock Chan Mem Pc} {t : Tid}
  {input : Input}

/-- A computed step is one of the six moves of a live process. -/
theorem step_iff : P.step s t input = some s' ↔ P.halted s.mem = false ∧ P.Step t input s s' := by
  constructor
  · intro computed
    unfold step at computed
    split at computed
    · simp at computed
    · rename_i live
      refine ⟨by simpa using live, ?_⟩
      split at computed
      · simp at computed
      · rename_i at'
        split at computed
        · rename_i free
          cases Option.some.inj computed
          exact .relock at' free
        · simp at computed
      · rename_i pc at'
        split at computed
        · rename_i here
          split at computed
          · rename_i free
            cases Option.some.inj computed
            exact .acquire at' here free
          · simp at computed
        · rename_i here
          cases Option.some.inj computed
          exact .release at' here
        · rename_i here
          cases Option.some.inj computed
          exact .sleep at' here
        · rename_i here
          cases Option.some.inj computed
          exact .wakeup at' here
        · rename_i here
          obtain ⟨⟨mem, next⟩, run, same⟩ := Option.map_eq_some_iff.mp computed
          cases same
          exact .exec at' here run
  · rintro ⟨live, step⟩
    cases step with
    | relock at' free => simp [Program.step, live, at', free]
    | acquire at' here free => simp [Program.step, live, at', here, free]
    | release at' here => simp [Program.step, live, at', here]
    | sleep at' here => simp [Program.step, live, at', here]
    | wakeup at' here => simp [Program.step, live, at', here]
    | exec at' here run => simp [Program.step, live, at', here, run]

theorem step_of_next {start : Threads Tid Lock Chan Mem Pc → Prop} {label : Tid × Input}
    (moved : (P.system start).next s label = some s') :
    P.halted s.mem = false ∧ P.Step label.1 label.2 s s' :=
  step_iff.mp (show P.step s label.1 label.2 = some s' from moved)

end Program
end DeviceProgramming
