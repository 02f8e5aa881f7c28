import DeviceProgramming.Machine.Deadlock
import DeviceProgramming.Xv6.SleepLocks
import Mathlib.Tactic.FinCases

namespace DeviceProgramming.Xv6

/-- The order in which a call takes its spinlocks: that of a table before those of its
entries, and `condition->lock` before `mutex->lock`. -/
def Lock.rank : Lock → ℕ
  | conditionTable | condition _ => 0
  | semaphoreTable | semaphore _ | mutexTable | mutex _ => 1

theorem Lock.rank_le (l : Lock) : l.rank ≤ 1 := by
  cases l <;> simp [Lock.rank]

variable {Pid : Type*} [DecidableEq Pid] {s : State Pid} {p q : Pid} {pc next : Pc}

theorem acquires_in_order {lock : Lock} (here : instr p pc = .acquire lock next) (l : Lock) (holds : l ∈ held pc) :
    l.rank < lock.rank := by
  cases pc <;> cases here
  case condLockLock.refl cond caller =>
    cases caller
    · cases holds
    · rw [List.mem_singleton.mp holds]
      exact Nat.zero_lt_one
  case condUnlockLock.refl cond caller =>
    cases caller
    · cases holds
    · rw [List.mem_singleton.mp holds]
      exact Nat.zero_lt_one
  case condAllocLockMutex.refl =>
    rw [List.mem_singleton.mp holds]
    exact Nat.zero_lt_one
  all_goals cases holds

theorem exec_total {effect : Call → Kernel Pid → Option (Kernel Pid × Pc)} (here : instr p pc = .exec effect)
    (call : Call) (m : Kernel Pid) : effect call m ≠ none := by
  cases pc <;> cases here <;> exact Option.some_ne_none _

/-- No process has gone to sleep in the `cond_lock` that `cond_wait` calls. -/
def Unnested (s : State Pid) : Prop :=
  ∀ p cond, (s.thread p).sleptWith = none ∨ s.pc p ≠ .condLockTest cond .condWait

theorem Unnested.step {t : State Pid} {call : Call} (unnested : Unnested s)
    (never : ∀ p cond, s.thread p ≠ .run (.condLockSleep cond .condWait)) (step : (program Pid).Step p call s t) :
    Unnested t := by
  intro q cond
  unfold Threads.pc
  by_cases own : q = p
  · subst own
    cases step with
    | relock at' | acquire at' | release at' | wakeup at' | exec at' =>
      simp only [Function.update_self]
      exact Or.inl rfl
    | @sleep pc chan lock next at' here =>
      simp only [Function.update_self]
      refine Or.inr ?_
      rintro (rfl : next = _)
      change instr q pc = _ at here
      cases pc <;> cases here
      exact never q cond at'
  · have old := unnested q cond
    unfold Threads.pc at old
    cases step with
    | relock at' | acquire at' | release at' | exec at' | sleep at' =>
      simp only [Function.update_of_ne own]
      exact old
    | wakeup at' =>
      simp only [Function.update_of_ne own, Activity.sleptWith_wake, Activity.pc_wake]
      exact old

theorem unnested_of_reach (reach : ((program Pid).system Quiet).ReachUnder FindsMutexFree s) : Unnested s := by
  refine reach.invariant ?_ fun s t label earlier unnested ok moved => ?_
  · intro s quiet p cond
    rw [quiet.thread p]
    exact Or.inl rfl
  · have single := sleepsWithOneLock_of_reach (earlier.mono fun _ _ free => ⟨trivial, free⟩)
    have never := (sleepsWithOneLock_iff (owned_of_quiet (fun _ => id) earlier)).mp single
    exact unnested.step never (Program.step_of_next moved).2

/-- Where a process goes on after a `sleep` of its own call, it has only the lock that it
slept with. -/
theorem held_of_sleep {chan : Chan} {lock : Lock} (here : instr p pc = .sleep chan lock next)
    (single : ∀ cond, next ≠ .condLockTest cond .condWait) (l : Lock) (holds : l ∈ held next) : l = lock := by
  cases pc <;> cases here
  case condLockSleep.refl cond caller =>
    cases caller with
    | process => exact List.mem_singleton.mp holds
    | condWait => exact absurd rfl (single cond)
  all_goals exact List.mem_singleton.mp holds

/-- The owner of a spinlock runs. -/
theorem owner_runs (owned : s.Owned fun _ => held) (slept : (program Pid).SleptAt s) (unnested : Unnested s)
    {l : Lock} (owner : s.owner l = some p) : ∃ pc, s.thread p = .run pc ∧ l ∈ held pc := by
  have holds := (owned.owner_iff l p).mp owner
  cases doing : s.thread p with
  | run pc =>
    rw [doing] at holds
    exact ⟨pc, rfl, holds⟩
  | asleep chan lock pc =>
    rw [doing] at holds
    obtain ⟨before, here⟩ := slept.asleep doing
    have single (cond : CondIx) : pc ≠ .condLockTest cond .condWait := by
      rcases unnested p cond with awake | other
      · rw [doing] at awake
        cases awake
      · rwa [Threads.pc_of_asleep doing] at other
    exact absurd (held_of_sleep here single l holds.1) holds.2
  | relock lock pc =>
    rw [doing] at holds
    obtain ⟨before, chan, here⟩ := slept.relock doing
    have single (cond : CondIx) : pc ≠ .condLockTest cond .condWait := by
      rcases unnested p cond with awake | other
      · rw [doing] at awake
        cases awake
      · rwa [Threads.pc_of_relock doing] at other
    exact absurd (held_of_sleep here single l holds.1) holds.2

/-- The processes inside `file.c` never all spin or sleep while one of them is awake, as long
as no `cond_wait` has to sleep for the mutex under `condition->lock`: the spinlocks are taken in
one order, and nobody sleeps with one. -/
theorem calls_go_on (reach : ((program Pid).system Quiet).ReachUnder FindsMutexFree s) (inside : s.pc p ≠ .user)
    (awake : (s.thread p).isAsleep = false) :
    ∃ q call t, s.pc q ≠ .user ∧ (program Pid).step s q call = some t := by
  have owned := owned_of_quiet (fun _ => id) reach
  have slept := sleptAt_of_quiet (fun _ => id) reach
  have unnested := unnested_of_reach reach
  have released {l : Lock} (taken : s.owner l ≠ none) :
      ∃ q call t, s.pc q ≠ .user ∧ (program Pid).step s q call = some t := by
    obtain ⟨holder, owner⟩ := Option.ne_none_iff_exists'.mp taken
    have some : Nonempty Call := ⟨.semAlloc⟩
    obtain ⟨q, call, t, ⟨l', has⟩, step⟩ := Program.owner_goes (P := program Pid) Lock.rank_le
      (fun here => acquires_in_order here) (fun _ _ owner => owner_runs owned slept unnested owner)
      (fun here => ⟨.semAlloc, exec_total here .semAlloc s.mem⟩) rfl owner
    refine ⟨q, call, t, fun user => ?_, step⟩
    obtain ⟨pc, running, holds⟩ := owner_runs owned slept unnested has
    rw [Threads.pc_of_run running] at user
    rw [user] at holds
    cases holds
  by_cases stuck : ∀ call, (program Pid).step s p call = none
  · have some : Nonempty Call := ⟨.semAlloc⟩
    cases Program.blocked_of_stuck (P := program Pid) rfl stuck with
    | asleep doing =>
      rw [doing] at awake
      cases awake
    | relock doing taken => exact released taken
    | acquire doing here taken => exact released taken
    | exec doing here never => exact absurd (never .semAlloc) (exec_total here .semAlloc s.mem)
  · obtain ⟨call, goes⟩ := not_forall.mp stuck
    obtain ⟨t, step⟩ := Option.ne_none_iff_exists'.mp goes
    exact ⟨p, call, t, inside, step⟩

instance (s : State Pid) (label : Pid × Call) : Decidable (FindsMutexFree s label) :=
  inferInstanceAs (Decidable (∀ cond, s.thread label.1 = .run (.condLockTest cond .condWait) → _))

set_option maxRecDepth 10000 in
/-- One process spins on the lock of a semaphore that another one counts. -/
theorem calls_go_on_spinning : ∃ s : State (Fin 2), s.pc 0 = .semWaitLock 0 ∧ s.owner (.semaphore 0) = some 1 ∧
    ∃ q call t, s.pc q ≠ .user ∧ (program (Fin 2)).step s q call = some t := by
  have computed : (((program (Fin 2)).system Quiet).runUnder FindsMutexFree
      (schedule [(1, .semWait 0, 2), (0, .semWait 0, 1)]) (boot (Fin 2))).map
      (fun s => (s.thread 0, s.owner (.semaphore 0))) = some (.run (.semWaitLock 0), some 1) := by decide
  obtain ⟨s, reached, state⟩ := Option.map_eq_some_iff.mp computed
  obtain ⟨spins, owner⟩ := Prod.mk.inj state
  refine ⟨s, Threads.pc_of_run spins, owner, calls_go_on (p := 0) (.of_run (.start (quiet_boot _)) reached) ?_ ?_⟩
  · rw [Threads.pc_of_run spins]
    decide
  · rw [spins]
    rfl

set_option maxRecDepth 10000 in
/-- A waiter that sleeps for the mutex under `condition->lock` lets the owner of the mutex spin
in `cond_set`, and nobody can go on. -/
theorem contended_wakeup_spins : ∃ s : State (Fin 2), ((program (Fin 2)).system Quiet).Reach s ∧
    s.pc 1 = .condSetLock 0 0 ∧ ∀ q call, (program (Fin 2)).step s q call = none := by
  have computed : (((program (Fin 2)).system Quiet).run
      (contendedWakeup 0 1 0 ++ schedule [(0, .condWait 0, 1), (1, .condSet 0 0, 1)]) (boot (Fin 2))).map
      (fun s => (s.thread 0, s.thread 1, s.owner (.condition 0))) =
        some (.asleep (.mutexQ 0) (.mutex 0) (.condLockTest 0 .condWait), .run (.condSetLock 0 0), some 0) := by
    decide
  obtain ⟨s, reached, state⟩ := Option.map_eq_some_iff.mp computed
  simp only [Prod.mk.injEq] at state
  obtain ⟨sleeps, spins, owner⟩ := state
  refine ⟨s, .of_run (.start (quiet_boot _)) reached, Threads.pc_of_run spins, fun q call => ?_⟩
  fin_cases q
  · simp [Program.step, program, sleeps]
  · simp [Program.step, program, spins, instr, owner]

end DeviceProgramming.Xv6
