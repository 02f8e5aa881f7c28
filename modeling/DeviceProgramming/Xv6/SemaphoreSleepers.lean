import DeviceProgramming.Machine.Deadlock
import DeviceProgramming.Xv6.SemaphoreSafety

namespace DeviceProgramming.Xv6

variable {Pid : Type*} [DecidableEq Pid]

/-- The count of the semaphore does not overflow in a step. -/
structure NoOverflow (sn : SemIx) (s : State Pid) (label : Pid × Call) : Prop where
  wait : s.thread label.1 = .run (.semWaitCount sn) → -2 ^ 31 < (s.mem.semaphoreTable sn).count
  post : s.thread label.1 = .run (.semPostCount sn) → (s.mem.semaphoreTable sn).count < 2 ^ 31 - 1

instance (sn : SemIx) (s : State Pid) (label : Pid × Call) : Decidable (NoOverflow sn s label) :=
  decidable_of_iff _ ⟨fun h : _ ∧ _ => ⟨h.1, h.2⟩, fun h => ⟨h.wait, h.post⟩⟩

/-- No `sem_post` is about to wake the processes that sleep on the semaphore. -/
def NoWaker (sn : SemIx) (s : State Pid) : Prop := ∀ p, s.thread p ≠ .run (.semPostWakeup sn)

section
variable {sn : SemIx} {n : ℤ} {s t : State Pid} {p : Pid} {call : Call}

theorem negative_of_wait (step : (program Pid).Step p call s t) (at' : s.thread p = .run (.semWaitCount sn))
    (leads : t.thread p = .run (.semWaitSleep sn)) : int32 ((s.mem.semaphoreTable sn).count - 1) < 0 := by
  cases step with
  | relock was => cases at'.symm.trans was
  | acquire was here | release was here | sleep was here | wakeup was here =>
    cases at'.symm.trans was
    cases here
  | exec was here run =>
    cases at'.symm.trans was
    have effect := effect_of_exec (show instr p (.semWaitCount sn) = _ from here) run
    simp only [Function.update_self, Activity.run.injEq] at leads
    rw [leads] at effect
    cases effect with
    | semWaitBlock negative => exact negative

theorem positive_of_post (step : (program Pid).Step p call s t) (at' : s.thread p = .run (.semPostCount sn))
    (leads : t.thread p = .run (.semPostUnlock sn)) : 0 < int32 ((s.mem.semaphoreTable sn).count + 1) := by
  cases step with
  | relock was => cases at'.symm.trans was
  | acquire was here | release was here | sleep was here | wakeup was here =>
    cases at'.symm.trans was
    cases here
  | exec was here run =>
    cases at'.symm.trans was
    have effect := effect_of_exec (show instr p (.semPostCount sn) = _ from here) run
    simp only [Function.update_self, Activity.run.injEq] at leads
    rw [leads] at effect
    cases effect with
    | semPostPass positive => exact positive

omit [DecidableEq Pid] in
theorem blockedOn_run {pc : Pc} (passes : pc ≠ .semWaitSleep sn) :
    blockedOn sn (.run pc : Activity Lock Chan Pc) = 0 := by
  cases pc
  case semWaitSleep k =>
    have other : k ≠ sn := by
      rintro rfl
      exact passes rfl
    exact if_neg other
  all_goals rfl

/-- Only a test that finds the count negative blocks a process. -/
theorem blockedOn_le (step : (program Pid).Step p call s t) (passes : t.thread p ≠ .run (.semWaitSleep sn)) :
    blockedOn sn (t.thread p) ≤ blockedOn sn (s.thread p) := by
  cases step with
  | relock at' | acquire at' | release at' | wakeup at' | exec at' =>
    simp only [Function.update_self, ne_eq, Activity.run.injEq] at passes ⊢
    rw [blockedOn_run passes]
    exact Nat.zero_le _
  | @sleep pc chan lock next at' here =>
    change instr p pc = _ at here
    rw [at']
    simp only [Function.update_self]
    cases pc <;> cases here <;> simp [blockedOn]

theorem noWaker_of_step (step : (program Pid).Step p call s t) (away : s.thread p ≠ .run (.semPostWakeup sn))
    (after : NoWaker sn t) : NoWaker sn s := by
  intro q waking
  by_cases own : q = p
  · exact away (own ▸ waking)
  · exact after q (step.other_running own waking)

omit [DecidableEq Pid] in
/-- A process that counts has the lock that a waker would have. -/
theorem noWaker_of_counting (owned : s.Owned fun _ => held) {pc : Pc} (at' : s.thread p = .run pc)
    (holding : .semaphore sn ∈ held pc) (counts : pc ≠ .semPostWakeup sn) : NoWaker sn s := by
  intro q waking
  cases owned.unique_run waking at' (l := .semaphore sn) (by simp [held]) holding
  exact counts (Activity.run.inj (at'.symm.trans waking))

variable [Fintype Pid]

/-- The count says how many `sem_wait` calls have not been paid for by `n` and the
`sem_post` calls; no more processes are blocked, unless they are about to be woken. -/
structure Unpaid (sn : SemIx) (n : ℤ) (s : State Pid) : Prop where
  count : (s.mem.semaphoreTable sn).count = balance sn n s
  range : -2 ^ 31 ≤ balance sn n s ∧ balance sn n s < 2 ^ 31
  bound : NoWaker sn s → (blocked sn s : ℤ) ≤ max 0 (-balance sn n s)

theorem Unpaid.keep (unpaid : Unpaid sn n s) (owned' : t.Owned fun _ => held)
    (step : (program Pid).Step p call s t)
    (count : (t.mem.semaphoreTable sn).count = (s.mem.semaphoreTable sn).count)
    (same : balance sn n t = balance sn n s) (passes : t.thread p ≠ .run (.semWaitSleep sn)) : Unpaid sn n t where
  count := by rw [count, same, unpaid.count]
  range := by rw [same]; exact unpaid.range
  bound after := by
    by_cases waking : s.thread p = .run (.semPostWakeup sn)
    · have none : t.sleepers (.semQ sn) = 0 := step.sleepers_woken waking rfl
      have now : t.thread p = .run (.semPostUnlock sn) := by
        cases step with
        | relock was => cases waking.symm.trans was
        | acquire was here | release was here | sleep was here | exec was here =>
          cases waking.symm.trans was
          cases here
        | wakeup was here =>
          cases waking.symm.trans was
          cases here
          simp
      have sleeping := blocked_eq_sleepers sn owned' now (by simp [held]) (by simp)
      omega
    · have before := unpaid.bound (noWaker_of_step step waking after)
      have moved := blocked_step sn step waking
      have mover := blockedOn_le step passes
      omega

theorem Unpaid.wait (unpaid : Unpaid sn n s) (owned : s.Owned fun _ => held) (step : (program Pid).Step p call s t)
    (at' : s.thread p = .run (.semWaitCount sn)) (room : -2 ^ 31 < (s.mem.semaphoreTable sn).count)
    (less : balance sn n t = balance sn n s - 1)
    (count : (t.mem.semaphoreTable sn).count = int32 ((s.mem.semaphoreTable sn).count - 1))
    (leads : t.thread p = .run (.semWaitSleep sn) ∨ t.thread p = .run (.semWaitUnlock sn) ∧
      0 ≤ int32 ((s.mem.semaphoreTable sn).count - 1)) : Unpaid sn n t := by
  have same := unpaid.count
  obtain ⟨lower, upper⟩ := unpaid.range
  have exact' : int32 ((s.mem.semaphoreTable sn).count - 1) = balance sn n s - 1 := by
    rw [int32_of_range (by omega) (by omega), same]
  refine ⟨by rw [count, exact', less], by omega, fun _ => ?_⟩
  have before := unpaid.bound (noWaker_of_counting owned at' (by simp [held]) (by simp))
  have moved := blocked_step sn step (by simp [at'])
  rw [at'] at moved
  rcases leads with asleep | ⟨passed, enough⟩
  · have negative := negative_of_wait step at' asleep
    rw [asleep] at moved
    simp only [blockedOn, if_true] at moved
    omega
  · rw [passed] at moved
    simp only [blockedOn] at moved
    omega

theorem Unpaid.post (unpaid : Unpaid sn n s) (owned : s.Owned fun _ => held) (step : (program Pid).Step p call s t)
    (at' : s.thread p = .run (.semPostCount sn)) (room : (s.mem.semaphoreTable sn).count < 2 ^ 31 - 1)
    (more : balance sn n t = balance sn n s + 1)
    (count : (t.mem.semaphoreTable sn).count = int32 ((s.mem.semaphoreTable sn).count + 1))
    (leads : t.thread p = .run (.semPostWakeup sn) ∨ t.thread p = .run (.semPostUnlock sn)) : Unpaid sn n t := by
  have same := unpaid.count
  obtain ⟨lower, upper⟩ := unpaid.range
  have exact' : int32 ((s.mem.semaphoreTable sn).count + 1) = balance sn n s + 1 := by
    rw [int32_of_range (by omega) (by omega), same]
  refine ⟨by rw [count, exact', more], by omega, fun after => ?_⟩
  rcases leads with waking | passed
  · exact absurd waking (after p)
  · have before := unpaid.bound (noWaker_of_counting owned at' (by simp [held]) (by simp))
    have positive := positive_of_post step at' passed
    have moved := blocked_step sn step (by simp [at'])
    rw [at', passed] at moved
    simp only [blockedOn] at moved
    omega

omit [DecidableEq Pid] in
theorem Unpaid.start (initial : Initialised sn n s) : Unpaid sn n s := by
  have idle : total (fun _ => Pc.inWait sn) s.pc = 0 :=
    total_eq_zero.mpr fun p => by simp [Threads.pc, initial.thread p, Pc.inWait]
  have awake : blocked sn s = 0 := total_eq_zero.mpr fun p => by simp [initial.thread p, blockedOn]
  have same : balance sn n s = n := by
    rw [balance, initial.returned, initial.posted, idle]
    omega
  have lower := initial.nonneg
  have upper := initial.range
  refine ⟨by rw [initial.count, same], by omega, fun _ => ?_⟩
  rw [awake]
  exact le_max_left ..

theorem unpaid_of_reach
    (reach : ((program Pid).system (Initialised sn n)).ReachUnder
      (fun s label => NotReinitialised sn s label ∧ NoOverflow sn s label) s) : Unpaid sn n s := by
  refine reach.invariant (motive := Unpaid sn n) (fun _ initial => Unpaid.start initial)
    fun s t label earlier unpaid ok moved => ?_
  have quiet (s : State Pid) (initial : Initialised sn n s) : Quiet s := initial.toQuiet
  have step := (Program.step_of_next moved).2
  have owned := owned_of_quiet quiet earlier
  rcases balance_cases (n := n) (sleptAt_of_quiet quiet earlier) step ok.1 with
    ⟨count, same, passes, _⟩ | ⟨at', less, count, leads⟩ | ⟨at', more, count, leads⟩
  · exact unpaid.keep (owned_of_quiet quiet (earlier.next ok moved)) step count same passes
  · exact unpaid.wait owned step at' (ok.2.wait at') less count leads
  · exact unpaid.post owned step at' (ok.2.post at') more count leads

/-- No `sem_post` is lost: as long as the count does not overflow, it is `n` and the `sem_post`
calls less the `sem_wait` calls that have counted, and no more processes sleep than it is below
zero, unless a `sem_post` is about to wake them all. -/
theorem sleepers_unpaid
    (reach : ((program Pid).system (Initialised sn n)).ReachUnder
      (fun s label => NotReinitialised sn s label ∧ NoOverflow sn s label) s) :
    (s.mem.semaphoreTable sn).count = n + s.mem.posted sn - s.mem.returned sn - total (fun _ => Pc.inWait sn) s.pc ∧
    ((∃ p, s.thread p = .run (.semPostWakeup sn)) ∨
      (s.sleepers (.semQ sn) : ℤ) ≤ max 0 (-(s.mem.semaphoreTable sn).count)) := by
  have unpaid := unpaid_of_reach reach
  refine ⟨unpaid.count, Classical.or_iff_not_imp_left.mpr fun none => ?_⟩
  have few : s.sleepers (.semQ sn) ≤ blocked sn s := total_mono fun p => by
    cases s.thread p with
    | run | relock => exact Nat.zero_le _
    | asleep => exact le_rfl
  have below := unpaid.bound (not_exists.mp none)
  rw [unpaid.count]
  omega

end

set_option maxRecDepth 10000 in
/-- A `sem_post` has woken the process that slept in `sem_wait`, and the next caller sleeps. -/
theorem sleepers_unpaid_posted : ∃ s : State (Fin 3), s.sleepers (.semQ 0) = 1 ∧ s.mem.posted 0 = 1 ∧
    ((∃ p, s.thread p = .run (.semPostWakeup 0)) ∨
      (s.sleepers (.semQ 0) : ℤ) ≤ max 0 (-(s.mem.semaphoreTable 0).count)) := by
  have computed : (((program (Fin 3)).system (Initialised 0 0)).runUnder
      (fun s label => NotReinitialised 0 s label ∧ NoOverflow 0 s label)
      (schedule [(0, .semWait 0, 4), (2, .semPost 0, 6), (1, .semWait 0, 4)]) (boot (Fin 3))).map
      (fun s => (s.sleepers (.semQ 0), s.mem.posted 0)) = some (1, 1) := by decide
  obtain ⟨s, reached, state⟩ := Option.map_eq_some_iff.mp computed
  rw [Prod.mk.injEq] at state
  exact ⟨s, state.1, state.2, (sleepers_unpaid (.of_run (.start (initialised_boot 0)) reached)).2⟩

end DeviceProgramming.Xv6
