import DeviceProgramming.Xv6.File

namespace DeviceProgramming.Xv6.Sysfile

/-- The process that makes a system call: its size, its stack pointer and the
word at each address of its memory. -/
structure Proc where
  sz : BitVec 32
  esp : BitVec 32
  word : BitVec 32 → BitVec 32

/-- `none` stands for a returned -1. -/
def fetchint (proc : Proc) (addr : BitVec 32) : Option ℤ :=
  if proc.sz ≤ addr ∨ proc.sz < addr + 4 then none else some (proc.word addr).toInt

def argint (proc : Proc) (n : ℕ) : Option ℤ := fetchint proc (proc.esp + 4 + BitVec.ofNat 32 (4 * n))

/-- The system calls that take a semaphore number. -/
inductive SysCall
  | semInit
  | semDestroy
  | semWait
  | semPost
  deriving DecidableEq

/-- The statements of the functions that these calls run in the kernel. The
semaphore number is any `int` here. -/
inductive Stmt
  | user
  | ret (val : ℤ)
  | semInitLock (sn n : ℤ)
  | semInitStore (sn n : ℤ)
  | semInitUnlock (sn : ℤ)
  | semDestroy (sn : ℤ)
  | semWaitLock (sn : ℤ)
  | semWaitCount (sn : ℤ)
  | semWaitSleep (sn : ℤ)
  | semWaitUnlock (sn : ℤ)
  | semPostLock (sn : ℤ)
  | semPostCount (sn : ℤ)
  | semPostWakeup (sn : ℤ)
  | semPostUnlock (sn : ℤ)
  deriving DecidableEq

/-- The index with which a statement uses `semaphore_table.semaphore`. -/
def Stmt.access : Stmt → Option ℤ
  | user | ret _ => none
  | semInitLock sn _ | semInitStore sn _ | semInitUnlock sn | semDestroy sn | semWaitLock sn | semWaitCount sn
  | semWaitSleep sn | semWaitUnlock sn | semPostLock sn | semPostCount sn | semPostWakeup sn | semPostUnlock sn =>
      some sn

def sysSemInit (proc : Proc) : Stmt := match argint proc 0, argint proc 1 with
  | some sn, some n => .semInitLock sn n
  | _, _ => .ret (-1)

/-- A system call whose only argument is the semaphore number. -/
def sysSem (entry : ℤ → Stmt) (proc : Proc) : Stmt := match argint proc 0 with
  | some sn => entry sn
  | none => .ret (-1)

def sysSemDestroy (proc : Proc) : Stmt := sysSem .semDestroy proc

def sysSemWait (proc : Proc) : Stmt := sysSem .semWaitLock proc

def sysSemPost (proc : Proc) : Stmt := sysSem .semPostLock proc

/-- The first statement after the arguments are fetched. -/
def SysCall.enter : SysCall → Proc → Stmt
  | semInit => sysSemInit
  | semDestroy => sysSemDestroy
  | semWait => sysSemWait
  | semPost => sysSemPost

/-- The semaphore number of a call whose arguments can be fetched. -/
def SysCall.number (call : SysCall) (proc : Proc) : Option ℤ :=
  if call = .semInit ∧ argint proc 1 = none then none else argint proc 0

/-- The kernel memory counted in entries from `semaphore_table.semaphore` on,
in both directions, and what the last call of each process returned. `passed` is
history: the semaphore number in the present call of each process, `none` when
an argument could not be fetched. -/
structure Memory (Pid : Type*) where
  semaphore : ℤ → Semaphore
  ret : Pid → ℤ
  passed : Pid → Option ℤ

inductive Lock
  | semaphore (sn : ℤ)
  deriving DecidableEq

inductive Chan
  | semQ (sn : ℤ)
  deriving DecidableEq

namespace Memory
variable {Pid : Type*}

def setSemaphore (m : Memory Pid) (sn : ℤ) (s : Semaphore) : Memory Pid :=
  { m with semaphore := Function.update m.semaphore sn s }

def semWaitCount (sn : ℤ) (m : Memory Pid) : Memory Pid × Stmt :=
  let count := int32 ((m.semaphore sn).count - 1)
  (m.setSemaphore sn { m.semaphore sn with count := count },
    if count < 0 then .semWaitSleep sn else .semWaitUnlock sn)

def semPostCount (sn : ℤ) (m : Memory Pid) : Memory Pid × Stmt :=
  let count := int32 ((m.semaphore sn).count + 1)
  (m.setSemaphore sn { m.semaphore sn with count := count },
    if count ≤ 0 then .semPostWakeup sn else .semPostUnlock sn)

end Memory

section
variable {Pid : Type*} [DecidableEq Pid]

/-- A process in user mode makes any call with any memory of its own. The
`sys_sem_*` functions do not look at the value that `sem_*` returns. -/
def instr (p : Pid) : Stmt → Instr Lock Chan (Memory Pid) Stmt (SysCall × Proc)
  | .user => .exec fun (call, proc) m =>
      some ({ m with passed := Function.update m.passed p (call.number proc) }, call.enter proc)
  | .ret val => .exec fun _ m => some ({ m with ret := Function.update m.ret p val }, .user)
  | .semInitLock sn n => .acquire (.semaphore sn) (.semInitStore sn n)
  | .semInitStore sn n => .exec fun _ m =>
      some (m.setSemaphore sn { m.semaphore sn with count := n }, .semInitUnlock sn)
  | .semInitUnlock sn => .release (.semaphore sn) (.ret 0)
  | .semDestroy sn => .exec fun _ m => some (m.setSemaphore sn { m.semaphore sn with ref := 0 }, .ret 0)
  | .semWaitLock sn => .acquire (.semaphore sn) (.semWaitCount sn)
  | .semWaitCount sn => .exec fun _ m => some (m.semWaitCount sn)
  | .semWaitSleep sn => .sleep (.semQ sn) (.semaphore sn) (.semWaitUnlock sn)
  | .semWaitUnlock sn => .release (.semaphore sn) (.ret 0)
  | .semPostLock sn => .acquire (.semaphore sn) (.semPostCount sn)
  | .semPostCount sn => .exec fun _ m => some (m.semPostCount sn)
  | .semPostWakeup sn => .wakeup (.semQ sn) (.semPostUnlock sn)
  | .semPostUnlock sn => .release (.semaphore sn) (.ret 0)

def program (Pid : Type*) [DecidableEq Pid] : Program Pid Lock Chan (Memory Pid) Stmt (SysCall × Proc) where
  instr := instr
  halted _ := false

end

abbrev State (Pid : Type*) := Threads Pid Lock Chan (Memory Pid) Stmt

/-- No process is inside a call; the table may hold anything. -/
structure Quiet {Pid : Type*} (s : State Pid) : Prop where
  thread : ∀ p, s.thread p = .run .user
  owner : ∀ l, s.owner l = none

def InRange (sn : ℤ) : Prop := 0 ≤ sn ∧ sn < nsemMax

instance (sn : ℤ) : Decidable (InRange sn) := inferInstanceAs (Decidable (_ ∧ _))

/-- Every call in which an argument could not be fetched returns -1 at once, and every other call
uses no entry but the one whose number was passed, which is one of the table. -/
def InTable {Pid : Type*} (s : State Pid) : Prop := ∀ p, match s.mem.passed p with
  | none => s.pc p = .user ∨ s.pc p = .ret (-1)
  | some number => ∀ sn, (s.pc p).access = some sn → sn = number ∧ InRange sn

/-- When a call is made with arguments that can be fetched, its semaphore
number is one of the table. -/
def PassesInRange {Pid : Type*} (s : State Pid) (label : Pid × SysCall × Proc) : Prop :=
  s.thread label.1 = .run .user → ∀ sn ∈ label.2.1.number label.2.2, InRange sn

instance {Pid : Type*} (s : State Pid) (label : Pid × SysCall × Proc) : Decidable (PassesInRange s label) :=
  inferInstanceAs (Decidable (_ → ∀ sn ∈ label.2.1.number label.2.2, InRange sn))

variable {Pid : Type*} [DecidableEq Pid] {s t : State Pid} {p : Pid} {m m' : Memory Pid} {pc next : Stmt}
  {call : SysCall} {proc : Proc} {sn : ℤ}

/-- A call that cannot fetch its arguments goes to its return, and another one to the entry that was passed. -/
theorem enter_cases (call : SysCall) (proc : Proc) :
    call.number proc = none ∧ call.enter proc = .ret (-1) ∨
      ∃ sn, call.number proc = some sn ∧ (call.enter proc).access = some sn := by
  cases call with
  | semInit =>
    simp only [SysCall.number, SysCall.enter, sysSemInit]
    cases argint proc 0 <;> cases argint proc 1 <;> simp [Stmt.access]
  | semDestroy | semWait | semPost =>
    simp only [SysCall.number, SysCall.enter, sysSemDestroy, sysSemWait, sysSemPost, sysSem]
    cases argint proc 0 <;> simp [Stmt.access]

theorem access_of_target (target : (instr p pc).target = some next) (access : next.access = some sn) :
    pc.access = some sn := by
  cases pc <;> cases target <;> first | exact access | cases access

/-- A statement that is executed makes a call or goes on with the same entry. -/
theorem access_of_exec {effect : SysCall × Proc → Memory Pid → Option (Memory Pid × Stmt)}
    (here : instr p pc = .exec effect) (run : effect (call, proc) m = some (m', next)) :
    (pc = .user ∧ m'.passed = Function.update m.passed p (call.number proc) ∧ next = call.enter proc) ∨
      m'.passed = m.passed ∧ pc ≠ .user ∧ (∀ val, pc = .ret val → next = .user) ∧
        ∀ sn, next.access = some sn → pc.access = some sn := by
  cases pc <;> cases here <;> cases Option.some.inj run
  case user => exact Or.inl ⟨rfl, rfl, rfl⟩
  case semWaitCount sn =>
    refine Or.inr ⟨rfl, nofun, nofun, fun i access => ?_⟩
    revert access
    split <;> exact id
  case semPostCount sn =>
    refine Or.inr ⟨rfl, nofun, nofun, fun i access => ?_⟩
    revert access
    split <;> exact id
  case ret val => exact Or.inr ⟨rfl, nofun, fun _ _ => rfl, nofun⟩
  all_goals exact Or.inr ⟨rfl, nofun, nofun, fun i access => by first | exact access | cases access⟩

/-- A statement changes no entry but the one it uses. -/
theorem semaphore_of_exec {effect : SysCall × Proc → Memory Pid → Option (Memory Pid × Stmt)}
    (here : instr p pc = .exec effect) (run : effect (call, proc) m = some (m', next)) (elsewhere : pc.access ≠ some sn) :
    m'.semaphore sn = m.semaphore sn := by
  cases pc <;> cases here <;> cases Option.some.inj run
  case user | ret => rfl
  all_goals exact Function.update_of_ne (fun same => elsewhere (by rw [same]; rfl)) ..

/-- A step changes no entry but the one that the statement of its process uses. -/
theorem semaphore_of_step (step : (program Pid).Step p (call, proc) s t)
    (changed : t.mem.semaphore sn ≠ s.mem.semaphore sn) : (s.pc p).access = some sn := by
  by_contra elsewhere
  rcases step.view with ⟨same, _⟩ | ⟨same, _⟩ | ⟨effect, next, _, here, run, _⟩
  · exact changed (by rw [same])
  · exact changed (by rw [same])
  · exact changed (semaphore_of_exec here run elsewhere)

omit [DecidableEq Pid] in
/-- A call stays in the table that goes on with the same entry or returns. -/
theorem InTable.keep (inTable : InTable s) (passed : t.mem.passed p = s.mem.passed p)
    (returns : s.pc p = .user ∨ s.pc p = .ret (-1) → t.pc p = .user ∨ t.pc p = .ret (-1))
    (access : ∀ sn, (t.pc p).access = some sn → (s.pc p).access = some sn) : match t.mem.passed p with
      | none => t.pc p = .user ∨ t.pc p = .ret (-1)
      | some number => ∀ sn, (t.pc p).access = some sn → sn = number ∧ InRange sn := by
  have before := inTable p
  rw [passed]
  cases number : s.mem.passed p with
  | none =>
    rw [number] at before
    exact returns before
  | some number' =>
    rw [number] at before
    exact fun sn uses => before sn (access sn uses)

theorem not_user_of_target (target : (instr p pc).target = some next) : ¬ (pc = .user ∨ pc = .ret (-1)) := by
  rintro (rfl | rfl) <;> cases target

theorem InTable.step (inTable : InTable s) (step : (program Pid).Step p (call, proc) s t)
    (passes : PassesInRange s (p, call, proc)) : InTable t := by
  intro q
  rcases step.view with ⟨same, points, _⟩ | ⟨same, next, target, points⟩ | ⟨effect, next, running, here, run, points⟩
  · exact inTable.keep (by rw [same]) (by rw [points]; exact id) (by rw [points]; exact fun _ => id)
  · refine inTable.keep (by rw [same]) (fun returns => ?_) fun sn access => ?_
    · rcases update_cases points q with ⟨rfl, _⟩ | ⟨_, now⟩
      · exact absurd returns (not_user_of_target target)
      · rwa [now]
    · rcases update_cases points q with ⟨rfl, now⟩ | ⟨_, now⟩ <;> rw [now] at access
      · exact access_of_target target access
      · exact access
  · rcases access_of_exec here run with ⟨user, passed, entered⟩ | ⟨passed, busy, returned, still⟩
    · rcases update_cases points q with ⟨rfl, now⟩ | ⟨other, now⟩
      · rw [passed, Function.update_self, now, entered]
        rcases enter_cases call proc with ⟨unfetched, returns⟩ | ⟨number, fetched, uses⟩
        · simp only [unfetched]
          exact Or.inr returns
        · simp only [fetched]
          intro sn access
          rw [uses] at access
          cases access
          exact ⟨rfl, passes (by rw [running, user]) number fetched⟩
      · exact inTable.keep (by rw [passed, Function.update_of_ne other]) (by rw [now]; exact id)
          (by rw [now]; exact fun _ => id)
    · refine inTable.keep (by rw [passed]) (fun returns => ?_) fun sn access => ?_
      · rcases update_cases points q with ⟨rfl, now⟩ | ⟨_, now⟩
        · rw [Threads.pc_of_run running] at returns
          rw [now]
          exact Or.inl (returned (-1) (returns.resolve_left busy))
        · rwa [now]
      · rcases update_cases points q with ⟨rfl, now⟩ | ⟨_, now⟩ <;> rw [now] at access
        · exact still sn access
        · exact access

omit [DecidableEq Pid] in
theorem inTable_of_quiet (quiet : Quiet s) : InTable s := by
  intro p
  have user : s.pc p = .user := Threads.pc_of_run (quiet.thread p)
  cases s.mem.passed p with
  | none => exact Or.inl user
  | some number =>
    intro sn access
    rw [user] at access
    cases access

theorem inTable_of_reach
    (reach : ((program Pid).system Quiet).ReachUnder (fun s a => True ∧ PassesInRange s a) s) : InTable s :=
  reach.invariant (fun _ => inTable_of_quiet) fun _ _ _ _ inTable passes moved =>
    inTable.step (Program.step_of_next moved).2 passes.2

/-- The first step of a call. -/
theorem next_user {label : Pid × SysCall × Proc} (user : s.thread label.1 = .run .user)
    (moved : ((program Pid).system Quiet).next s label = some t) :
    t.mem = { s.mem with passed := Function.update s.mem.passed label.1 (label.2.1.number label.2.2) } ∧
      t.thread label.1 = .run (label.2.1.enter label.2.2) := by
  have step : (program Pid).step s label.1 label.2 = some t := moved
  simp only [Program.step, program, user, instr] at step
  cases Option.some.inj step
  exact ⟨rfl, Function.update_self ..⟩

/-- The last step of a call. -/
theorem next_ret {label : Pid × SysCall × Proc} {val : ℤ} (returns : s.thread label.1 = .run (.ret val))
    (moved : ((program Pid).system Quiet).next s label = some t) :
    t.mem = { s.mem with ret := Function.update s.mem.ret label.1 val } ∧ t.thread label.1 = .run .user := by
  have step : (program Pid).step s label.1 label.2 = some t := moved
  simp only [Program.step, program, returns, instr] at step
  cases Option.some.inj step
  exact ⟨rfl, Function.update_self ..⟩

/-- A number that is not one of the table is used as it is. -/
theorem not_inTable_of_passes {label : Pid × SysCall × Proc} (moved : ((program Pid).system Quiet).next s label = some t)
    (passes : ¬ PassesInRange s label) : ¬ InTable t := by
  simp only [PassesInRange, Classical.not_imp, not_forall] at passes
  obtain ⟨user, sn, fetched, outside⟩ := passes
  obtain ⟨memory, entered⟩ := next_user user moved
  intro inTable
  have uses := inTable label.1
  rw [memory, Threads.pc_of_run entered] at uses
  rcases enter_cases label.2.1 label.2.2 with ⟨unfetched, _⟩ | ⟨number, passed, access⟩
  · rw [Option.mem_def, unfetched] at fetched
    cases fetched
  · simp only [Function.update_self, passed] at uses
    rw [Option.mem_def, passed] at fetched
    exact outside (Option.some.inj fetched ▸ (uses number access).2)

/-- In every run, with any number of processes and anything in the table, every call either cannot
fetch an argument and returns -1, or uses only the entry whose number its process has passed, and
that is one of the table, if and only if all numbers that can be fetched are in the range. No step
changes another entry than the one that its process uses, and a call that cannot fetch an
argument returns -1 and changes none. -/
theorem sem_calls_in_table_iff {path : List (State Pid × Pid × SysCall × Proc)} {s : State Pid}
    (run : ((program Pid).system Quiet).Run path s) :
    (System.Throughout InTable path s ↔ ∀ step ∈ path, PassesInRange step.1 step.2) ∧
      ∀ step ∈ path, ∀ t, ((program Pid).system Quiet).next step.1 step.2 = some t →
        (∀ sn, t.mem.semaphore sn ≠ step.1.mem.semaphore sn → (step.1.pc step.2.1).access = some sn) ∧
        (step.1.thread step.2.1 = .run .user → step.2.2.1.number step.2.2.2 = none →
          t.thread step.2.1 = .run (.ret (-1)) ∧ t.mem.semaphore = step.1.mem.semaphore) ∧
        ∀ val, step.1.thread step.2.1 = .run (.ret val) → t.thread step.2.1 = .run .user ∧
          t.mem.ret step.2.1 = val ∧ t.mem.semaphore = step.1.mem.semaphore := by
  refine ⟨run.throughout_iff (fun _ => inTable_of_reach) (fun _ _ _ _ _ => not_inTable_of_passes) fun _ _ => trivial,
    fun step _ t moved => ⟨fun sn changed => ?_, fun user unfetched => ?_, fun val returns => ?_⟩⟩
  · exact semaphore_of_step (Program.step_of_next moved).2 changed
  · obtain ⟨memory, entered⟩ := next_user user moved
    rcases enter_cases step.2.2.1 step.2.2.2 with ⟨_, enter⟩ | ⟨sn, fetched, _⟩
    · exact ⟨enter ▸ entered, by rw [memory]⟩
    · rw [unfetched] at fetched
      cases fetched
  · obtain ⟨memory, user⟩ := next_ret returns moved
    exact ⟨user, by rw [memory]; exact Function.update_self .., by rw [memory]⟩

/-- No process is inside a call, and the kernel memory is zeroed. -/
def idle (Pid : Type*) : State Pid where
  mem := ⟨fun _ => ⟨0, 0⟩, fun _ => 0, fun _ => none⟩
  owner _ := none
  thread _ := .run .user

theorem quiet_idle (Pid : Type*) : Quiet (idle Pid) := ⟨fun _ => rfl, fun _ => rfl⟩

/-- A process whose memory is filled with one word. -/
def filled (word : BitVec 32) : Proc := ⟨16, 0, fun _ => word⟩

set_option maxRecDepth 10000 in
/-- One process waits on the last semaphore, another one posts it, and then makes a call with a stack
pointer outside of its memory. -/
theorem sem_calls_in_table_iff_last : ∃ path, ∃ s : State (Fin 2), ((program (Fin 2)).system Quiet).Run path s ∧
    (s.mem.semaphore 19).count = 0 ∧ s.mem.passed 1 = none ∧ s.mem.ret 1 = -1 ∧
    System.Throughout InTable path s := by
  have computed : (((program (Fin 2)).system Quiet).runUnder PassesInRange
      (schedule [(0, (.semWait, filled 19), 4), (1, (.semPost, filled 19), 6), (0, (.semWait, filled 19), 3),
        (1, (.semPost, ⟨16, 16, fun _ => 19⟩), 2)])
      (idle (Fin 2))).map (fun s => ((s.mem.semaphore 19).count, s.mem.passed 1, s.mem.ret 1)) =
        some (0, none, -1) := by decide
  obtain ⟨s, reached, state⟩ := Option.map_eq_some_iff.mp computed
  simp only [Prod.mk.injEq] at state
  obtain ⟨count, unfetched, result⟩ := state
  obtain ⟨path, run, passes, _⟩ := System.Run.of_run (.start (quiet_idle (Fin 2))) (by simp) reached
  exact ⟨path, s, run, count, unfetched, result, (sem_calls_in_table_iff run).1.mpr passes⟩

set_option maxRecDepth 10000 in
/-- `sem_wait(-1)` decrements the memory in front of the table. -/
theorem sem_wait_in_front_of_table : ∃ s : State (Fin 2), ((program (Fin 2)).system Quiet).Reach s ∧
    ¬ InTable s ∧ (s.mem.semaphore (-1)).count = -1 := by
  have computed : (((program (Fin 2)).system Quiet).run (schedule [(0, (.semWait, filled (-1)), 3)])
      (idle (Fin 2))).map (fun s => ((s.pc 0).access, s.mem.passed 0, (s.mem.semaphore (-1)).count)) =
        some (some (-1), some (-1), -1) := by decide
  obtain ⟨s, reached, state⟩ := Option.map_eq_some_iff.mp computed
  simp only [Prod.mk.injEq] at state
  obtain ⟨access, passed, count⟩ := state
  refine ⟨s, .of_run (.start (quiet_idle (Fin 2))) reached, fun inTable => ?_, count⟩
  have uses := inTable 0
  rw [passed] at uses
  exact absurd (uses (-1) access).2 (by decide)

/-- A statement of `file.c` for a semaphore of the table, as one for any number. -/
def ofPc : Pc → Stmt
  | .semInitLock sn n => .semInitLock (sn : ℕ) n
  | .semInitStore sn n => .semInitStore (sn : ℕ) n
  | .semInitUnlock sn => .semInitUnlock (sn : ℕ)
  | .semDestroy sn => .semDestroy (sn : ℕ)
  | .semWaitLock sn => .semWaitLock (sn : ℕ)
  | .semWaitCount sn => .semWaitCount (sn : ℕ)
  | .semWaitSleep sn => .semWaitSleep (sn : ℕ)
  | .semWaitUnlock sn => .semWaitUnlock (sn : ℕ)
  | .semPostLock sn => .semPostLock (sn : ℕ)
  | .semPostCount sn => .semPostCount (sn : ℕ)
  | .semPostWakeup sn => .semPostWakeup (sn : ℕ)
  | .semPostUnlock sn => .semPostUnlock (sn : ℕ)
  | _ => .ret 0

/-- The memory holds the entries of the semaphore table. -/
def Agrees (m : Memory Pid) (k : Kernel Pid) : Prop := ∀ sn : SemIx, m.semaphore (sn : ℕ) = k.semaphoreTable sn

omit [DecidableEq Pid] in
theorem Agrees.set {k : Kernel Pid} (agrees : Agrees m k) (sn : SemIx) (x : Semaphore) :
    Agrees (m.setSemaphore (sn : ℕ) x) (k.setSemaphore sn x) := by
  intro i
  by_cases here : i = sn
  · subst here
    simp [Memory.setSemaphore, Kernel.setSemaphore]
  · have differs : ((i : ℕ) : ℤ) ≠ ((sn : ℕ) : ℤ) := fun same => here (Fin.ext (by exact_mod_cast same))
    simp only [Memory.setSemaphore, Kernel.setSemaphore, Function.update_of_ne differs, Function.update_of_ne here]
    exact agrees i

/-- Two statements do the same, one to the semaphore table and the other to the
memory that holds it. -/
inductive SameInstr : Instr Xv6.Lock Xv6.Chan (Kernel Pid) Pc Call →
    Instr Lock Chan (Memory Pid) Stmt (SysCall × Proc) → Prop
  | acquire {sn : SemIx} {next : Pc} :
      SameInstr (.acquire (.semaphore sn) next) (.acquire (.semaphore (sn : ℕ)) (ofPc next))
  | release {sn : SemIx} {next : Pc} :
      SameInstr (.release (.semaphore sn) next) (.release (.semaphore (sn : ℕ)) (ofPc next))
  | sleep {sn : SemIx} {next : Pc} : SameInstr (.sleep (.semQ sn) (.semaphore sn) next)
      (.sleep (.semQ (sn : ℕ)) (.semaphore (sn : ℕ)) (ofPc next))
  | wakeup {sn : SemIx} {next : Pc} : SameInstr (.wakeup (.semQ sn) next) (.wakeup (.semQ (sn : ℕ)) (ofPc next))
  | exec {effect effect'} : (∀ call input k m, Agrees m k → ∃ k' m' next, effect call k = some (k', next) ∧
      effect' input m = some (m', ofPc next) ∧ Agrees m' k') → SameInstr (.exec effect) (.exec effect')

/-- For the semaphores of the table the statements are those of `file.c`. -/
theorem sameInstr_ofPc {pc : Pc} (uses : (ofPc pc).access.isSome) : SameInstr (Xv6.instr p pc) (instr p (ofPc pc)) := by
  cases pc
  case semInitLock | semWaitLock | semPostLock => exact .acquire
  case semInitUnlock | semWaitUnlock | semPostUnlock => exact .release
  case semWaitSleep => exact .sleep
  case semPostWakeup => exact .wakeup
  case semInitStore sn n =>
    refine .exec fun call input k m agrees => ⟨_, _, _, rfl, rfl, ?_⟩
    rw [agrees sn]
    exact agrees.set sn _
  case semDestroy sn =>
    refine .exec fun call input k m agrees => ⟨_, _, _, rfl, rfl, ?_⟩
    rw [agrees sn]
    exact agrees.set sn _
  case semWaitCount sn =>
    refine .exec fun call input k m agrees => ⟨_, _, (k.semWaitCount sn).2, rfl, congrArg some (Prod.ext rfl ?_), ?_⟩
    · simp only [Memory.semWaitCount, Kernel.semWaitCount, agrees sn]
      split <;> rfl
    · simp only [Memory.semWaitCount, agrees sn]
      exact agrees.set sn _
  case semPostCount sn =>
    refine .exec fun call input k m agrees => ⟨_, _, (k.semPostCount sn).2, rfl, congrArg some (Prod.ext rfl ?_), ?_⟩
    · simp only [Memory.semPostCount, Kernel.semPostCount, agrees sn]
      split <;> rfl
    · simp only [Memory.semPostCount, agrees sn]
      exact agrees.set sn _
  all_goals cases uses

end DeviceProgramming.Xv6.Sysfile
