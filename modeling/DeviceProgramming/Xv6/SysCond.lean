import DeviceProgramming.Xv6.Effects
import DeviceProgramming.Xv6.Sysfile

namespace DeviceProgramming

/-- The same statement with another outside choice as its input. -/
def Instr.withInput {Lock Chan Mem Pc Input Choice : Type*} (input : Choice → Input) :
    Instr Lock Chan Mem Pc Input → Instr Lock Chan Mem Pc Choice
  | .acquire lock next => .acquire lock next
  | .release lock next => .release lock next
  | .sleep chan lock next => .sleep chan lock next
  | .wakeup chan next => .wakeup chan next
  | .exec effect => .exec fun choice => effect (input choice)

theorem Instr.of_withInput {Lock Chan Mem Pc Input Choice : Type*} {input : Choice → Input}
    {i : Instr Lock Chan Mem Pc Input} {effect : Choice → Mem → Option (Mem × Pc)}
    (here : i.withInput input = .exec effect) :
    ∃ effect', i = .exec effect' ∧ effect = fun choice => effect' (input choice) := by
  cases i <;> cases here
  exact ⟨_, rfl, rfl⟩

end DeviceProgramming

namespace DeviceProgramming.Xv6.SysCond

open Sysfile (Proc argint)

/-- The `sys_cond_*` calls that take arguments. -/
inductive SysCall
  | set
  | get
  | destroy
  | wait
  | signal
  | broadcast
  | lock
  | unlock
  deriving DecidableEq

/-- The words that the variables of a `sys_cond_*` function hold before `argint`. -/
structure Locals where
  cond : BitVec 32
  val : BitVec 32

/-- The value of a variable after `argint(n, &x)`: an argument that cannot be
fetched leaves in it what it held. -/
def loaded (proc : Proc) (n : ℕ) (x : BitVec 32) : ℤ := (argint proc n).getD x.toInt

/-- What all these functions do: nobody looks at the value that `argint` returns. -/
def sysCond (call : CondIx → Call) (proc : Proc) (locals : Locals) : Pc :=
  let cond := loaded proc 0 locals.cond
  if outside : cond < 0 ∨ cond ≥ ncondMax then .ret (-1)
  else (call ⟨cond.toNat, by omega⟩).entry

def sysCondSet (proc : Proc) (locals : Locals) : Pc :=
  sysCond (fun cond => .condSet cond (loaded proc 1 locals.val)) proc locals

def sysCondGet : Proc → Locals → Pc := sysCond .condGet

def sysCondDestroy : Proc → Locals → Pc := sysCond .condDestroy

def sysCondWait : Proc → Locals → Pc := sysCond .condWait

def sysCondSignal : Proc → Locals → Pc := sysCond .condSignal

def sysCondBroadcast : Proc → Locals → Pc := sysCond .condBroadcast

def sysCondLock : Proc → Locals → Pc := sysCond .condLock

def sysCondUnlock : Proc → Locals → Pc := sysCond .condUnlock

def SysCall.enter : SysCall → Proc → Locals → Pc
  | set => sysCondSet
  | get => sysCondGet
  | destroy => sysCondDestroy
  | wait => sysCondWait
  | signal => sysCondSignal
  | broadcast => sysCondBroadcast
  | lock => sysCondLock
  | unlock => sysCondUnlock

/-- What a process in user mode can do: make a call of `file.c` with an entry of
the table, or a `sys_cond_*` call with any memory of its own and any words left
on the stack of the kernel. -/
inductive Input
  | file (call : Call)
  | cond (call : SysCall) (proc : Proc) (locals : Locals)

def Input.entry : Input → Pc
  | file call => call.entry
  | cond call proc locals => call.enter proc locals

section
variable {Pid : Type*} [DecidableEq Pid]

/-- The statements of `file.c` with the system calls before them. Outside user
mode no statement looks at the input. -/
def instr (p : Pid) : Pc → Instr Lock Chan (Kernel Pid) Pc Input
  | .user => .exec fun input m => some (m, input.entry)
  | pc => (Xv6.instr p pc).withInput fun _ => .semAlloc

def program (Pid : Type*) [DecidableEq Pid] : Program Pid Lock Chan (Kernel Pid) Pc Input where
  instr := instr
  halted _ := false

end

def InRange (cond : ℤ) : Prop := 0 ≤ cond ∧ cond < ncondMax

instance (cond : ℤ) : Decidable (InRange cond) := inferInstanceAs (Decidable (_ ∧ _))

/-- An argument of the call cannot be fetched, or its index is not one of the table. -/
def BadArgs (call : SysCall) (proc : Proc) : Prop :=
  argint proc 0 = none ∨ (call = .set ∧ argint proc 1 = none) ∨ ∃ cond ∈ argint proc 0, ¬ InRange cond

section
variable {Pid : Type*} [DecidableEq Pid]

/-- The runs of one call of `p` in which nobody else moves. -/
def Alone (p : Pid) (s : State Pid) (label : Pid × Input) : Prop := label.1 = p ∧ s.thread p ≠ .run .user

/-- The runs of one call of `p` among whatever the others do. -/
def Once (p : Pid) (s : State Pid) (label : Pid × Input) : Prop := label.1 = p → s.thread p ≠ .run .user

/-- Both tables are as they were and nobody but `p` has been moved or woken. -/
structure Untouched (p : Pid) (s t : State Pid) : Prop where
  conditionTable : t.mem.conditionTable = s.mem.conditionTable
  mutexTable : t.mem.mutexTable = s.mem.mutexTable
  others : ∀ q, q ≠ p → t.thread q = s.thread q

/-- `p` makes the call and comes back with -1, with both tables unchanged and
nobody woken. -/
def FailsCleanly (p : Pid) (s : State Pid) (input : Input) : Prop :=
  ∃ entered t, (program Pid).step s p input = some entered ∧
    ((program Pid).system (· = entered)).ReachUnder (Alone p) t ∧ t.thread p = .run .user ∧ t.mem.ret p = -1 ∧
    Untouched p s t

end

/-- The function of `file.c` that a call runs when its index is one of the table. -/
def SysCall.call : SysCall → CondIx → ℤ → Call
  | set, cond, val => .condSet cond val
  | get, cond, _ => .condGet cond
  | destroy, cond, _ => .condDestroy cond
  | wait, cond, _ => .condWait cond
  | signal, cond, _ => .condSignal cond
  | broadcast, cond, _ => .condBroadcast cond
  | lock, cond, _ => .condLock cond
  | unlock, cond, _ => .condUnlock cond

section
variable {call : SysCall} {proc : Proc} {locals : Locals} {cond : CondIx} {val : ℤ}

theorem enter_eq (call : SysCall) :
    call.enter proc locals = sysCond (fun cond => call.call cond (loaded proc 1 locals.val)) proc locals := by
  cases call <;> rfl

theorem enter_outside (outside : ¬ InRange (loaded proc 0 locals.cond)) : call.enter proc locals = .ret (-1) := by
  rw [InRange] at outside
  rw [enter_eq, sysCond, dif_pos (by omega)]

theorem enter_inside (inside : (cond : ℤ) = loaded proc 0 locals.cond) :
    call.enter proc locals = (call.call cond (loaded proc 1 locals.val)).entry := by
  have below : ((cond : ℕ) : ℤ) < ncondMax := by exact_mod_cast cond.isLt
  rw [enter_eq, sysCond, dif_neg (by omega)]
  congr 2
  exact Fin.ext (by simp [← inside])

theorem exists_of_inRange {index : ℤ} (inRange : InRange index) : ∃ cond : CondIx, (cond : ℤ) = index :=
  ⟨⟨index.toNat, by obtain ⟨low, high⟩ := inRange; omega⟩, Int.toNat_of_nonneg inRange.1⟩

end

section
variable {Pid : Type*} [DecidableEq Pid] {s t : State Pid} {p q : Pid} {m m' : Kernel Pid} {pc next : Pc}
  {input : Input} {call : SysCall} {cond : CondIx} {v val : ℤ}

/-- The statement belongs to a call on a condition that returns `v`, if it
returns and the value of the condition does not change before it is read. -/
def Returning (v : ℤ) (p : Pid) (m : Kernel Pid) : Pc → Prop
  | .user => m.ret p = v
  | .ret val => v = val
  | .condGet cond => (m.conditionTable cond).value = v
  | .condLockLock .. | .condLockTest .. | .condLockSleep .. | .condLockStore .. | .condLockUnlock .. => v = 0
  | .condUnlockLock .. | .condUnlockStore .. | .condUnlockUnlock .. => v = 0
  | .condSetLock .. | .condSetStore .. | .condSetUnlock _ => v = 0
  | .condDestroyLock _ | .condDestroyStore _ | .condDestroyUnlock => v = 0
  | .condWaitLock _ | .condWaitSleep _ | .condWaitUnlock _ | .condSignal _ | .condBroadcast _ => v = 0
  | _ => False

omit [DecidableEq Pid] in
theorem returning_call (other : call ≠ .get) : Returning 0 p m (call.call cond val).entry := by
  cases call with
  | get => exact absurd rfl other
  | set | destroy | wait | signal | broadcast | lock | unlock => rfl

theorem condGet_ne_call (other : call ≠ .get) {i : CondIx} : (call.call cond val).entry ≠ .condGet i := by
  cases call with
  | get => exact absurd rfl other
  | set | destroy | wait | signal | broadcast | lock | unlock => simp [SysCall.call, Call.entry]

theorem Returning.target (returning : Returning v p m pc) (target : (Xv6.instr p pc).target = some next) :
    Returning v p m next ∧ ∀ cond, next ≠ .condGet cond := by
  cases pc
  case condLockUnlock cond caller =>
    cases target
    cases caller <;> exact ⟨returning, by simp [Caller.afterLock]⟩
  case condUnlockUnlock cond caller =>
    cases target
    cases caller <;> exact ⟨returning, by simp [Caller.afterUnlock]⟩
  case user | ret | condGet | condLockTest | condLockStore | condUnlockStore | condSetStore | condDestroyStore =>
    cases target
  all_goals first
    | exact False.elim returning
    | cases target
      exact ⟨returning, by simp⟩

theorem Returning.effect {call : Call} (returning : Returning v p m pc) (inside : pc ≠ .user)
    (effect : Effect p call m pc m' next) : Returning v p m' next ∧ ∀ cond, next ≠ .condGet cond := by
  cases effect with
  | enter => exact absurd rfl inside
  | ret => exact ⟨(Function.update_self ..).trans returning.symm, by simp⟩
  | condLockBlock | condLockPass | condLockStore | condUnlockStore | condSetStore | condDestroyStore =>
    exact ⟨returning, by simp⟩
  | condGet => exact ⟨returning.symm, by simp⟩
  | semAllocTake | semAllocSkip | semAllocFull | semInitStore | semDestroy | semWaitBlock | semWaitPass
  | semWaitReturn | semPostWake | semPostPass | condAllocTake | condAllocSkip | condAllocFull =>
    exact returning.elim

/-- What a process does writes no other process's return value. -/
theorem ret_kept {call : Call} (effect : Effect q call m pc m' next) (other : p ≠ q) : m'.ret p = m.ret p := by
  cases effect with
  | ret | semWaitReturn => exact Function.update_of_ne other ..
  | _ => rfl

omit [DecidableEq Pid] in
theorem Returning.others (returning : Returning v p m pc) (stable : ∀ cond, pc ≠ .condGet cond)
    (same : m'.ret p = m.ret p) : Returning v p m' pc := by
  cases pc
  case user => exact same.trans returning
  case condGet cond => exact absurd rfl (stable cond)
  all_goals exact returning

/-- A statement that is executed is the entry to a call or one of `file.c`. -/
theorem effect_of_instr {effect : Input → Kernel Pid → Option (Kernel Pid × Pc)} (here : instr p pc = .exec effect)
    (run : effect input m = some (m', next)) :
    (pc = .user ∧ m' = m ∧ next = input.entry) ∨ Effect p .semAlloc m pc m' next := by
  by_cases user : pc = .user
  · subst user
    cases here
    cases run
    exact Or.inl ⟨rfl, rfl, rfl⟩
  · have inside : instr p pc = (Xv6.instr p pc).withInput fun _ => .semAlloc := by
      cases pc <;> first | rfl | exact absurd rfl user
    obtain ⟨effect', file, rfl⟩ := Instr.of_withInput (inside.symm.trans here)
    exact Or.inr (effect_of_exec file run)

theorem target_of_instr (target : (instr p pc).target = some next) : (Xv6.instr p pc).target = some next := by
  cases pc <;> exact target

/-- No process writes the value that another one's call returned. -/
theorem ret_of_other (step : (program Pid).Step q input s t) (other : p ≠ q) : t.mem.ret p = s.mem.ret p := by
  rcases step.view with ⟨same, _⟩ | ⟨same, _⟩ | ⟨effect, next, _, here, run, _⟩
  · rw [same]
  · rw [same]
  · rcases effect_of_instr here run with ⟨_, kept, _⟩ | effect
    · rw [kept]
    · exact ret_kept effect other

/-- In the run of a call no step of `p` changes what the call returns, nor does a
step of another process once the value of the condition has been read. -/
theorem returning_step (step : (program Pid).Step q input s t) (once : Once p s (q, input))
    (returning : Returning v p s.mem (s.pc p)) (stable : q = p ∨ ∀ cond, s.pc p ≠ .condGet cond) :
    Returning v p t.mem (t.pc p) ∧ ((∀ cond, s.pc p ≠ .condGet cond) → ∀ cond, t.pc p ≠ .condGet cond) := by
  rcases step.view with
    ⟨same, points, _⟩ | ⟨same, next, target, points⟩ | ⟨effect, next, running, here, run, points⟩
  · rw [same, points]
    exact ⟨returning, id⟩
  · rw [same]
    rcases update_cases points p with ⟨rfl, now⟩ | ⟨_, now⟩ <;> rw [now]
    · obtain ⟨still, later⟩ := returning.target (target_of_instr target)
      exact ⟨still, fun _ => later⟩
    · exact ⟨returning, id⟩
  · rcases update_cases points p with ⟨rfl, now⟩ | ⟨other, now⟩ <;> rw [now]
    · rcases effect_of_instr here run with ⟨user, _, _⟩ | effect
      · exact absurd (running.trans (by rw [user])) (once rfl)
      · have inside : s.pc p ≠ .user := fun user => once rfl (running.trans (by rw [user]))
        obtain ⟨still, later⟩ := returning.effect inside effect
        exact ⟨still, fun _ => later⟩
    · exact ⟨returning.others (stable.resolve_left (Ne.symm other)) (ret_of_other step other), id⟩

/-- A call that runs alone returns what it was to return. -/
theorem returning_of_alone {entered : State Pid} (returning : Returning v p entered.mem (entered.pc p))
    (reach : ((program Pid).system (· = entered)).ReachUnder (Alone p) t) : Returning v p t.mem (t.pc p) := by
  refine reach.invariant (motive := fun s => Returning v p s.mem (s.pc p)) ?_ ?_
  · rintro s rfl
    exact returning
  · rintro s t ⟨q, input⟩ _ returning ⟨rfl, inside⟩ moved
    exact (returning_step (Program.step_of_next moved).2 (fun _ => inside) returning (Or.inl rfl)).1

/-- Every other call than `cond_get` does so among whatever the others do. -/
theorem returning_of_once {entered : State Pid} (returning : Returning v p entered.mem (entered.pc p))
    (stable : ∀ cond, entered.pc p ≠ .condGet cond)
    (reach : ((program Pid).system (· = entered)).ReachUnder (Once p) t) : Returning v p t.mem (t.pc p) := by
  have both : Returning v p t.mem (t.pc p) ∧ ∀ cond, t.pc p ≠ .condGet cond := by
    refine reach.invariant
      (motive := fun s => Returning v p s.mem (s.pc p) ∧ ∀ cond, s.pc p ≠ .condGet cond) ?_ ?_
    · rintro s rfl
      exact ⟨returning, stable⟩
    · rintro s t ⟨q, input⟩ _ ⟨returning, stable⟩ once moved
      have step := returning_step (Program.step_of_next moved).2 once returning (Or.inr stable)
      exact ⟨step.1, step.2 stable⟩
  exact both.1

theorem pc_put {m : Kernel Pid} {owner : Lock → Option Pid} {thread : Pid → Activity Lock Chan Pc} :
    (⟨m, owner, Function.update thread p (.run pc)⟩ : State Pid).pc p = pc := by
  simp [Threads.pc]

theorem step_user (user : s.thread p = .run .user) (input : Input) : (program Pid).step s p input =
    some ⟨s.mem, s.owner, Function.update s.thread p (.run input.entry)⟩ := by
  simp [Program.step, program, user, instr]

theorem step_ret (here : s.thread p = .run (.ret v)) (input : Input) : (program Pid).step s p input =
    some ⟨{ s.mem with ret := Function.update s.mem.ret p v }, s.owner,
      Function.update s.thread p (.run .user)⟩ := by
  simp [Program.step, program, here, instr, Xv6.instr, Instr.withInput]

theorem step_condGet (here : s.thread p = .run (.condGet cond)) (input : Input) : (program Pid).step s p input =
    some ⟨s.mem, s.owner, Function.update s.thread p (.run (.ret (s.mem.conditionTable cond).value))⟩ := by
  simp [Program.step, program, here, instr, Xv6.instr, Instr.withInput]

omit [DecidableEq Pid] in
theorem Returning.ret_eq (returning : Returning v p s.mem (s.pc p)) (back : s.thread p = .run .user) :
    s.mem.ret p = v := by
  rwa [Threads.pc, back] at returning

/-- A call fails cleanly when it has come to `return -1` without touching anything. -/
theorem fails_of_ret {entered : State Pid} (enters : (program Pid).step s p input = some entered)
    (reach : ((program Pid).system (· = entered)).ReachUnder (Alone p) t) (here : t.thread p = .run (.ret (-1)))
    (untouched : Untouched p s t) : FailsCleanly p s input := by
  have inside : Alone p t (p, input) := ⟨rfl, by rw [here]; simp⟩
  refine ⟨entered, _, enters, reach.next inside (step_ret here input), Function.update_self ..,
    Function.update_self .., untouched.conditionTable, untouched.mutexTable, fun q other => ?_⟩
  exact (Function.update_of_ne other ..).trans (untouched.others q other)

omit [DecidableEq Pid] in
theorem untouched_put [DecidableEq Pid] {a : Activity Lock Chan Pc} :
    Untouched p s ⟨s.mem, s.owner, Function.update s.thread p a⟩ :=
  ⟨rfl, rfl, fun _ other => Function.update_of_ne other ..⟩

/-- The exact condition for a call with an argument that is missing or out of
range to fail as it should. -/
def LeftOutside (call : SysCall) (proc : Proc) (locals : Locals) (m : Kernel Pid) : Prop :=
  ¬ InRange (loaded proc 0 locals.cond) ∨
    call = .get ∧ ∃ cond : CondIx, (cond : ℤ) = loaded proc 0 locals.cond ∧ (m.conditionTable cond).value = -1

theorem failsCleanly_iff {proc : Proc} {locals : Locals} (user : s.thread p = .run .user) :
    FailsCleanly p s (.cond call proc locals) ↔ LeftOutside call proc locals s.mem := by
  have enters := step_user user (.cond call proc locals)
  constructor
  · rintro ⟨entered, t, entered', alone, back, failed, _⟩
    cases enters.symm.trans entered'
    by_contra still
    simp only [LeftOutside, not_or, not_not, not_and, not_exists] at still
    obtain ⟨inRange, other⟩ := still
    obtain ⟨cond, inside⟩ := exists_of_inRange inRange
    have entry : Input.entry (.cond call proc locals) = _ := enter_inside inside
    by_cases get : call = .get
    · subst get
      refine other rfl cond inside ?_
      have returning : Returning (s.mem.conditionTable cond).value p t.mem (t.pc p) := by
        refine returning_of_alone ?_ alone
        rw [entry, pc_put]
        rfl
      exact (returning.ret_eq back).symm.trans failed
    · have returning : Returning 0 p t.mem (t.pc p) := by
        refine returning_of_alone ?_ alone
        rw [entry, pc_put]
        exact returning_call get
      have zero := (returning.ret_eq back).symm.trans failed
      omega
  · rintro (outside | ⟨rfl, cond, inside, negative⟩)
    · have entry : Input.entry (.cond call proc locals) = .ret (-1) := enter_outside outside
      refine fails_of_ret enters (.start rfl) ?_ untouched_put
      rw [entry]
      exact Function.update_self ..
    · have entry : Input.entry (.cond .get proc locals) = .condGet cond :=
        (enter_inside inside : SysCall.get.enter proc locals = _)
      rw [entry] at enters
      refine fails_of_ret enters ((System.ReachUnder.start rfl).next (a := (p, .cond .get proc locals)) ?_
        (step_condGet (Function.update_self ..) _)) ?_ ?_
      · exact ⟨rfl, by simp⟩
      · rw [negative]
        exact Function.update_self ..
      · exact ⟨rfl, rfl, fun q differs => by simp [differs]⟩

/-- A call whose index is out of range fails among whatever the others do: it
touches nothing and it returns -1. -/
theorem fails_among_others {entered : State Pid} (here : entered.thread p = .run (.ret (-1)))
    (reach : ((program Pid).system (· = entered)).ReachUnder (Once p) s) :
    (s.thread p = .run (.ret (-1)) ∨ s.thread p = .run .user ∧ s.mem.ret p = -1) ∧
      ∀ input t, s.thread p ≠ .run .user → (program Pid).step s p input = some t → Untouched p s t := by
  have at' : s.thread p = .run (.ret (-1)) ∨ s.thread p = .run .user ∧ s.mem.ret p = -1 := by
    refine reach.invariant
      (motive := fun s => s.thread p = .run (.ret (-1)) ∨ s.thread p = .run .user ∧ s.mem.ret p = -1) ?_ ?_
    · rintro s rfl
      exact Or.inl here
    · rintro s t ⟨q, input⟩ _ before once moved
      have step := (Program.step_of_next moved).2
      by_cases own : q = p
      · subst own
        have here := before.resolve_right fun back => once rfl back.1
        cases (step_ret here input).symm.trans moved
        exact Or.inr ⟨Function.update_self .., Function.update_self ..⟩
      · have other : p ≠ q := Ne.symm own
        rcases before with here | ⟨back, failed⟩
        · exact Or.inl (step.other_running other here)
        · exact Or.inr ⟨step.other_running other back, (ret_of_other step other).trans failed⟩
  refine ⟨at', fun input t inside moved => ?_⟩
  have here := at'.resolve_right fun back => inside back.1
  cases (step_ret here input).symm.trans moved
  exact ⟨rfl, rfl, fun q other => Function.update_of_ne other ..⟩

/-- When a call with bad arguments fails as it should: what was left in `cond`
has to be out of range where the index is missing, and the value of `cond_set`
has to be there once the index is accepted. -/
def Guarded (call : SysCall) (proc : Proc) (locals : Locals) (m : Kernel Pid) : Prop :=
  (argint proc 0 = none → ¬ InRange locals.cond.toInt ∨
    call = .get ∧ ∃ cond : CondIx, (cond : ℤ) = locals.cond.toInt ∧ (m.conditionTable cond).value = -1) ∧
  ∀ cond ∈ argint proc 0, InRange cond → call = .set → argint proc 1 ≠ none

omit [DecidableEq Pid] in
theorem guarded_iff {proc : Proc} {locals : Locals} :
    (BadArgs call proc → LeftOutside call proc locals m) ↔ Guarded call proc locals m := by
  rw [BadArgs, LeftOutside, Guarded, loaded]
  cases missing : argint proc 0 with
  | none => simp
  | some index =>
    simp only [reduceCtorEq, false_or, Option.mem_def, Option.some.injEq, exists_eq_left', Option.getD_some,
      false_implies, true_and, forall_eq']
    by_cases inRange : InRange index
    · simp only [inRange, not_true_eq_false, or_false, false_or, forall_const]
      constructor
      · rintro still rfl unread
        exact absurd (still ⟨rfl, unread⟩).1 (by simp)
      · rintro still ⟨rfl, unread⟩
        exact absurd unread (still rfl)
    · simp [inRange]

/-- With any stack pointer, process size, tables and leftover words, a
`sys_cond_*` call with bad arguments fails cleanly if and only if it is guarded.
Among whatever the others do, it returns -1 and touches nothing when what it has
in `cond` is out of range; else every call but `sys_cond_get` returns 0. -/
theorem cond_calls_fail_cleanly_iff (p : Pid) (s : State Pid) (call : SysCall) (proc : Proc) (locals : Locals)
    (user : s.thread p = .run .user) :
    ((BadArgs call proc → FailsCleanly p s (.cond call proc locals)) ↔ Guarded call proc locals s.mem) ∧
      ∀ entered, (program Pid).step s p (.cond call proc locals) = some entered →
        ∀ t, ((program Pid).system (· = entered)).ReachUnder (Once p) t →
          (¬ InRange (loaded proc 0 locals.cond) → (t.thread p = .run .user → t.mem.ret p = -1) ∧
            ∀ input t', t.thread p ≠ .run .user → (program Pid).step t p input = some t' → Untouched p t t') ∧
          (InRange (loaded proc 0 locals.cond) → call ≠ .get → t.thread p = .run .user → t.mem.ret p = 0) := by
  refine ⟨?_, fun entered enters t reach => ⟨fun outside => ?_, fun inRange other back => ?_⟩⟩
  · rw [failsCleanly_iff user]
    exact guarded_iff
  · have entry : Input.entry (.cond call proc locals) = .ret (-1) := enter_outside outside
    cases (step_user user _).symm.trans enters
    obtain ⟨at', touches⟩ := fails_among_others (by rw [entry]; exact Function.update_self ..) reach
    refine ⟨fun back => ?_, touches⟩
    rcases at' with here | ⟨_, failed⟩
    · cases here.symm.trans back
    · exact failed
  · obtain ⟨cond, inside⟩ := exists_of_inRange inRange
    have entry : Input.entry (.cond call proc locals) = _ := enter_inside inside
    cases (step_user user _).symm.trans enters
    have returning : Returning 0 p t.mem (t.pc p) := by
      refine returning_of_once ?_ (fun i => ?_) reach <;> rw [entry, pc_put]
      · exact returning_call other
      · exact condGet_ne_call other
    exact returning.ret_eq back

/-- A process without any memory: no argument can be fetched. -/
def unreadable : Proc := ⟨0, 0, fun _ => 0⟩

/-- The word left in `cond` is one past the table. -/
theorem cond_calls_fail_cleanly_iff_past : FailsCleanly 0 (boot (Fin 2)) (.cond .signal unreadable ⟨20, 0⟩) := by
  refine (cond_calls_fail_cleanly_iff 0 (boot (Fin 2)) .signal unreadable ⟨20, 0⟩ rfl).1.mpr ?_ (Or.inl (by decide))
  exact ⟨fun _ => Or.inl (by decide), fun _ _ _ set => by cases set⟩

/-- The table after condition 3 has been allocated. -/
def allocated : State (Fin 2) :=
  { boot (Fin 2) with
    mem :=
      { (boot (Fin 2)).mem with conditionTable := fun cond => if (cond : ℕ) = 3 then ⟨0, 1⟩ else ⟨0, 0⟩ } }

set_option maxRecDepth 10000 in
/-- `sys_cond_destroy` with nothing to fetch and a 3 on the stack returns 0 and
gives condition 3 away. -/
theorem sys_cond_destroy_uses_leftover :
    (((program (Fin 2)).system (· = allocated)).run
        (schedule [(0, .cond .destroy unreadable ⟨3, 0⟩, 5)]) allocated).map
        (fun s => (s.pc 0, s.mem.ret 0, (s.mem.conditionTable 3).ref)) = some (.user, 0, 0) ∧
      ¬ ∀ (p : Fin 2) (s : State (Fin 2)) (call : SysCall) (proc : Proc) (locals : Locals),
        s.thread p = .run .user → BadArgs call proc → FailsCleanly p s (.cond call proc locals) := by
  refine ⟨by decide, fun always => ?_⟩
  have clean := always 0 allocated .destroy unreadable ⟨3, 0⟩ rfl (Or.inl (by decide))
  rcases (failsCleanly_iff rfl).mp clean with outside | ⟨get, _⟩
  · exact absurd (by decide) outside
  · cases get

end

end DeviceProgramming.Xv6.SysCond
