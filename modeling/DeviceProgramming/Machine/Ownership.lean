import DeviceProgramming.Machine.Threads

namespace DeviceProgramming

variable {Tid Lock Chan Mem Pc Input : Type*}

/-- Where a statement that leaves the memory alone leads to. -/
def Instr.target : Instr Lock Chan Mem Pc Input → Option Pc
  | .acquire _ next | .release _ next | .sleep _ _ next | .wakeup _ next => some next
  | .exec _ => none

/-- The locks a thread owns, when `held` lists them for each program point: a
thread that sleeps with a lock, or waits to take it back, does not own it. -/
def Activity.Holds (held : Pc → List Lock) : Activity Lock Chan Pc → Lock → Prop
  | .run pc, l => l ∈ held pc
  | .asleep _ lock pc, l | .relock lock pc, l => l ∈ held pc ∧ l ≠ lock

@[simp] theorem Activity.holds_wake [DecidableEq Chan] {held : Pc → List Lock} {chan : Chan}
    {a : Activity Lock Chan Pc} {l : Lock} : (a.wake chan).Holds held l ↔ a.Holds held l := by
  cases a with
  | run | relock => exact Iff.rfl
  | asleep c lock pc => rw [Activity.wake_asleep]; split <;> exact Iff.rfl

/-- The lock a thread has to take back before it runs again. -/
def Activity.sleptWith : Activity Lock Chan Pc → Option Lock
  | .run _ => none
  | .asleep _ lock _ | .relock lock _ => some lock

@[simp] theorem Activity.sleptWith_run (pc : Pc) :
    (Activity.run pc : Activity Lock Chan Pc).sleptWith = none := rfl

@[simp] theorem Activity.sleptWith_asleep (chan : Chan) (lock : Lock) (pc : Pc) :
    (Activity.asleep chan lock pc).sleptWith = some lock := rfl

@[simp] theorem Activity.sleptWith_wake [DecidableEq Chan] (chan : Chan) (a : Activity Lock Chan Pc) :
    (a.wake chan).sleptWith = a.sleptWith := by
  cases a with
  | run | relock => rfl
  | asleep c lock pc => rw [Activity.wake_asleep]; split <;> rfl

/-- The owner of each lock is exactly the thread whose program point holds it,
and a sleeping thread goes on at a point that holds the lock it slept with. -/
structure Threads.Owned (held : Tid → Pc → List Lock) (s : Threads Tid Lock Chan Mem Pc) : Prop where
  owner_iff : ∀ l t, s.owner l = some t ↔ (s.thread t).Holds (held t) l
  resumes : ∀ t lock, (s.thread t).sleptWith = some lock → lock ∈ held t (s.pc t)

namespace Threads
variable {held : Tid → Pc → List Lock} {s : Threads Tid Lock Chan Mem Pc}

theorem Owned.unique (owned : s.Owned held) {l : Lock} {t u : Tid}
    (first : (s.thread t).Holds (held t) l) (second : (s.thread u).Holds (held u) l) : t = u :=
  Option.some.inj (((owned.owner_iff l t).mpr first).symm.trans ((owned.owner_iff l u).mpr second))

/-- Two running threads are never both at points that hold the same lock. -/
theorem Owned.unique_run (owned : s.Owned held) {l : Lock} {t u : Tid} {pc pc' : Pc}
    (atT : s.thread t = .run pc) (atU : s.thread u = .run pc')
    (heldT : l ∈ held t pc) (heldU : l ∈ held u pc') : t = u :=
  owned.unique (l := l) (by rw [atT]; exact heldT) (by rw [atU]; exact heldU)

theorem owned_start (free : ∀ l, s.owner l = none)
    (idle : ∀ t, ∃ pc, s.thread t = .run pc ∧ held t pc = []) : s.Owned held where
  owner_iff l t := by
    obtain ⟨pc, at', none⟩ := idle t
    simp [free l, at', Activity.Holds, none]
  resumes t lock slept := by
    obtain ⟨pc, at', _⟩ := idle t
    simp [at'] at slept

/-- Whoever takes a free lock is afterwards its only holder. -/
theorem Owned.take [DecidableEq Tid] [DecidableEq Lock] (owned : s.Owned held) {lock : Lock} {t : Tid}
    {next : Pc} (free : s.owner lock = none)
    (holds : ∀ l, l ∈ held t next ↔ l = lock ∨ (s.thread t).Holds (held t) l) :
    Threads.Owned held
      ⟨s.mem, Function.update s.owner lock (some t), Function.update s.thread t (.run next)⟩ where
  owner_iff l u := by
    have nobody : ∀ v, ¬ (s.thread v).Holds (held v) lock := by
      intro v holding
      rw [(owned.owner_iff lock v).mpr holding] at free
      cases free
    by_cases here : u = t
    · subst here
      by_cases same : l = lock
      · subst same
        simp [Activity.Holds, holds]
      · simp only [Function.update_of_ne same, Function.update_self, Activity.Holds, holds, same,
          false_or]
        exact owned.owner_iff l u
    · by_cases same : l = lock
      · subst same
        simp only [Function.update_self, Option.some.injEq, Function.update_of_ne here, nobody, iff_false]
        exact fun other => here other.symm
      · simp only [Function.update_of_ne same, Function.update_of_ne here]
        exact owned.owner_iff l u
  resumes u l slept := by
    by_cases here : u = t
    · subst here; simp at slept
    · have old := owned.resumes u l (by simpa [here] using slept)
      simpa [Threads.pc, here] using old

/-- Giving a lock back leaves it without a holder. -/
theorem Owned.give [DecidableEq Tid] [DecidableEq Lock] (owned : s.Owned held) {lock : Lock} {t : Tid}
    {now : Activity Lock Chan Pc} (holding : (s.thread t).Holds (held t) lock)
    (holds : ∀ l, now.Holds (held t) l ↔ (s.thread t).Holds (held t) l ∧ l ≠ lock)
    (resumes : ∀ l, now.sleptWith = some l → l ∈ held t now.pc) :
    Threads.Owned held
      ⟨s.mem, Function.update s.owner lock none, Function.update s.thread t now⟩ where
  owner_iff l u := by
    by_cases here : u = t
    · subst here
      by_cases same : l = lock
      · subst same
        simp [holds]
      · simp only [Function.update_of_ne same, Function.update_self, holds, ne_eq, same,
          not_false_eq_true, and_true]
        exact owned.owner_iff l u
    · by_cases same : l = lock
      · subst same
        simp only [Function.update_self, reduceCtorEq, Function.update_of_ne here, false_iff]
        exact fun other => here (owned.unique other holding)
      · simp only [Function.update_of_ne same, Function.update_of_ne here]
        exact owned.owner_iff l u
  resumes u l slept := by
    by_cases here : u = t
    · subst here
      simpa [Threads.pc] using resumes l (by simpa using slept)
    · have old := owned.resumes u l (by simpa [here] using slept)
      simpa [Threads.pc, here] using old

/-- A running move that keeps the mover's locks keeps the ownership, whatever
it does to the memory. -/
theorem Owned.keep [DecidableEq Tid] (owned : s.Owned held) {t : Tid} {mem : Mem} {next : Pc}
    (holds : ∀ l, l ∈ held t next ↔ (s.thread t).Holds (held t) l) :
    Threads.Owned held ⟨mem, s.owner, Function.update s.thread t (.run next)⟩ where
  owner_iff l u := by
    by_cases here : u = t
    · subst here
      simpa only [Function.update_self, Activity.Holds, holds] using owned.owner_iff l u
    · simpa only [Function.update_of_ne here] using owned.owner_iff l u
  resumes u l slept := by
    by_cases here : u = t
    · subst here; simp at slept
    · have old := owned.resumes u l (by simpa [here] using slept)
      simpa [Threads.pc, here] using old

theorem Owned.wake [DecidableEq Chan] (owned : s.Owned held) (chan : Chan) :
    Threads.Owned held ⟨s.mem, s.owner, fun u => (s.thread u).wake chan⟩ where
  owner_iff l u := by simpa using owned.owner_iff l u
  resumes u l slept := by
    have old := owned.resumes u l (by simpa using slept)
    simpa [Threads.pc] using old

end Threads

namespace Program
variable [DecidableEq Tid] [DecidableEq Lock] [DecidableEq Chan]

/-- `held` is a correct table of the locks held at each program point. -/
structure Disciplined (P : Program Tid Lock Chan Mem Pc Input) (held : Tid → Pc → List Lock) : Prop where
  acquire : ∀ {t pc lock next}, P.instr t pc = .acquire lock next →
    ∀ l, l ∈ held t next ↔ l = lock ∨ l ∈ held t pc
  release : ∀ {t pc lock next}, P.instr t pc = .release lock next →
    lock ∈ held t pc ∧ ∀ l, l ∈ held t next ↔ l ∈ held t pc ∧ l ≠ lock
  sleep : ∀ {t pc chan lock next}, P.instr t pc = .sleep chan lock next →
    lock ∈ held t pc ∧ ∀ l, l ∈ held t next ↔ l ∈ held t pc
  wakeup : ∀ {t pc chan next}, P.instr t pc = .wakeup chan next →
    ∀ l, l ∈ held t next ↔ l ∈ held t pc
  exec : ∀ {t pc effect input mem mem' next}, P.instr t pc = .exec effect →
    effect input mem = some (mem', next) → ∀ l, l ∈ held t next ↔ l ∈ held t pc

omit [DecidableEq Tid] [DecidableEq Lock] [DecidableEq Chan] in
/-- A table in which every release gives back the lock taken last. -/
theorem Disciplined.of_stack {P : Program Tid Lock Chan Mem Pc Input} {held : Tid → Pc → List Lock}
    (acquire : ∀ {t pc lock next}, P.instr t pc = .acquire lock next → held t next = lock :: held t pc)
    (release : ∀ {t pc lock next}, P.instr t pc = .release lock next →
      held t pc = lock :: held t next ∧ lock ∉ held t next)
    (sleep : ∀ {t pc chan lock next}, P.instr t pc = .sleep chan lock next →
      lock ∈ held t pc ∧ held t next = held t pc)
    (wakeup : ∀ {t pc chan next}, P.instr t pc = .wakeup chan next → held t next = held t pc)
    (exec : ∀ {t pc effect input mem mem' next}, P.instr t pc = .exec effect →
      effect input mem = some (mem', next) → held t next = held t pc) : P.Disciplined held where
  acquire here l := by rw [acquire here, List.mem_cons]
  release {t pc lock next} here := by
    obtain ⟨top, fresh⟩ := release here
    rw [top]
    refine ⟨List.mem_cons_self .., fun l => ?_⟩
    rw [List.mem_cons]
    constructor
    · intro below
      exact ⟨Or.inr below, fun same => fresh (same ▸ below)⟩
    · rintro ⟨same | below, differ⟩
      · exact absurd same differ
      · exact below
  sleep here := ⟨(sleep here).1, fun l => by rw [(sleep here).2]⟩
  wakeup here l := by rw [wakeup here]
  exec here run l := by rw [exec here run]

variable {P : Program Tid Lock Chan Mem Pc Input} {s s' : Threads Tid Lock Chan Mem Pc} {t : Tid}
  {input : Input}

/-- Every step keeps the ownership that a correct table of held locks describes. -/
theorem Step.owned {held : Tid → Pc → List Lock} (table : P.Disciplined held)
    (step : P.Step t input s s') (before : s.Owned held) : s'.Owned held := by
  cases step with
  | @relock lock pc at' free =>
    refine before.take free fun l => ?_
    have resumed : lock ∈ held t pc := by
      simpa [Threads.pc, at'] using before.resumes t lock (by rw [at']; rfl)
    by_cases same : l = lock
    · subst same; simp [resumed]
    · simp [at', Activity.Holds, same]
  | @acquire pc lock next at' here free =>
    refine before.take free fun l => ?_
    simpa only [at', Activity.Holds] using table.acquire here l
  | @release pc lock next at' here =>
    refine before.give ?_ (fun l => ?_) (by simp)
    · simpa only [at', Activity.Holds] using (table.release here).1
    · simpa only [at', Activity.Holds] using (table.release here).2 l
  | @sleep pc chan lock next at' here =>
    have kept := (table.sleep here).2
    refine before.give ?_ (fun l => ?_) (fun l slept => ?_)
    · simpa only [at', Activity.Holds] using (table.sleep here).1
    · simp only [at', Activity.Holds, kept l]
    · cases Option.some.inj slept
      exact (kept lock).mpr (table.sleep here).1
  | @wakeup pc chan next at' here =>
    refine (before.wake chan).keep fun l => ?_
    rw [Activity.holds_wake, at']
    exact table.wakeup here l
  | @exec pc effect mem next at' here run =>
    refine before.keep fun l => ?_
    simpa only [at', Activity.Holds] using table.exec here run l

theorem owned_of_reach {held : Tid → Pc → List Lock} (table : P.Disciplined held)
    {start : Threads Tid Lock Chan Mem Pc → Prop}
    {ok : Threads Tid Lock Chan Mem Pc → Tid × Input → Prop} (initial : ∀ s, start s → s.Owned held)
    (reach : (P.system start).ReachUnder ok s) : s.Owned held :=
  reach.invariant initial fun _ _ _ _ before _ moved => (step_of_next moved).2.owned table before

/-- Seen from the program points alone, a step goes on after a control
statement or executes one effect on the memory. -/
theorem Step.view (step : P.Step t input s s') :
    (s'.mem = s.mem ∧ s'.pc = s.pc ∧ ∃ lock, s.thread t = .relock lock (s.pc t)) ∨
    (s'.mem = s.mem ∧ ∃ next, (P.instr t (s.pc t)).target = some next ∧
      s'.pc = Function.update s.pc t next) ∨
    ∃ effect next, s.thread t = .run (s.pc t) ∧ P.instr t (s.pc t) = .exec effect ∧
      effect input s.mem = some (s'.mem, next) ∧ s'.pc = Function.update s.pc t next := by
  have moved (a : Activity Lock Chan Pc) :
      Threads.pc (⟨s.mem, s.owner, Function.update s.thread t a⟩ : Threads Tid Lock Chan Mem Pc) =
        Function.update s.pc t a.pc := by
    funext u
    by_cases here : u = t
    · subst here; simp [Threads.pc]
    · simp [Threads.pc, here]
  cases step with
  | @relock lock pc at' free =>
    have point := Threads.pc_of_relock at'
    refine Or.inl ⟨rfl, (moved _).trans ?_, lock, by rw [at', point]⟩
    rw [Activity.pc_run, Function.update_eq_self_iff, point]
  | acquire at' here | release at' here | sleep at' here =>
    refine Or.inr (Or.inl ⟨rfl, _, ?_, moved _⟩)
    simp only [Threads.pc, at', Activity.pc_run, here]
    rfl
  | @wakeup pc chan next at' here =>
    refine Or.inr (Or.inl ⟨rfl, next, ?_, ?_⟩)
    · simp only [Threads.pc, at', Activity.pc_run, here]
      rfl
    · funext u
      by_cases here : u = t
      · subst here; simp [Threads.pc]
      · simp [Threads.pc, here]
  | @exec pc effect mem next at' here run =>
    have point := Threads.pc_of_run at'
    exact Or.inr (Or.inr ⟨effect, next, by rw [at', point], by rw [point, here], run, moved _⟩)

/-- How a thread comes to a statement in a step: it was there before, or it has
just moved there. -/
theorem Step.run_cases (step : P.Step t input s s') {u : Tid} {pc : Pc} (at' : s'.thread u = .run pc) :
    (u ≠ t ∧ s.thread u = .run pc) ∨ u = t ∧
      ((s'.mem = s.mem ∧ ∃ lock, s.thread t = .relock lock pc) ∨
       (s'.mem = s.mem ∧ ∃ before, s.thread t = .run before ∧ (P.instr t before).target = some pc) ∨
       ∃ before effect, s.thread t = .run before ∧ P.instr t before = .exec effect ∧
         effect input s.mem = some (s'.mem, pc)) := by
  by_cases here : u = t
  · subst here
    refine Or.inr ⟨rfl, ?_⟩
    cases step with
    | relock woken free =>
      simp only [Function.update_self, Activity.run.injEq] at at'
      subst at'
      exact Or.inl ⟨rfl, _, woken⟩
    | @acquire before lock next was here | @release before lock next was here
    | @wakeup before chan next was here =>
      simp only [Function.update_self, Activity.run.injEq] at at'
      subst at'
      exact Or.inr (Or.inl ⟨rfl, before, was, by rw [here]; rfl⟩)
    | sleep => simp at at'
    | @exec before effect mem next was here run =>
      simp only [Function.update_self, Activity.run.injEq] at at'
      subst at'
      exact Or.inr (Or.inr ⟨before, effect, was, here, run⟩)
  · refine Or.inl ⟨here, ?_⟩
    cases step with
    | wakeup => simpa [here] using at'
    | relock | acquire | release | sleep | exec => simpa [here] using at'

/-- A step of one thread does not move another running thread. -/
theorem Step.other_running (step : P.Step t input s s') {u : Tid} {pc : Pc} (other : u ≠ t)
    (at' : s.thread u = .run pc) : s'.thread u = .run pc := by
  cases step with
  | relock | acquire | release | sleep | wakeup | exec => simp [other, at']

/-- A thread that is asleep after a step was asleep before, or has just executed
its `sleep` statement. -/
theorem Step.asleep_cases (step : P.Step t input s s') {u : Tid} {chan : Chan} {lock : Lock} {pc : Pc}
    (at' : s'.thread u = .asleep chan lock pc) :
    s.thread u = .asleep chan lock pc ∨
      u = t ∧ ∃ before, s.thread t = .run before ∧ P.instr t before = .sleep chan lock pc := by
  by_cases here : u = t
  · subst here
    cases step with
    | sleep was statement =>
      simp only [Function.update_self, Activity.asleep.injEq] at at'
      obtain ⟨rfl, rfl, rfl⟩ := at'
      exact Or.inr ⟨rfl, _, was, statement⟩
    | relock | acquire | release | wakeup | exec => simp at at'
  · refine Or.inl ?_
    cases step with
    | wakeup => simp only [Function.update_of_ne here, Activity.wake_eq_asleep] at at'; exact at'.1
    | relock | acquire | release | sleep | exec => simpa [here] using at'

/-- A step leaves the memory alone or executes one effect on it. -/
theorem Step.mem_cases (step : P.Step t input s s') : s'.mem = s.mem ∨
    ∃ before effect next, s.thread t = .run before ∧ P.instr t before = .exec effect ∧
      effect input s.mem = some (s'.mem, next) ∧ s'.thread t = .run next := by
  cases step with
  | exec was here run => exact Or.inr ⟨_, _, _, was, here, run, by simp⟩
  | relock | acquire | release | sleep | wakeup => exact Or.inl rfl

end Program
end DeviceProgramming
