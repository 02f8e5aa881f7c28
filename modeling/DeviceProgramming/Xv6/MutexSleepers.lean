import DeviceProgramming.Xv6.MutexSafety

namespace DeviceProgramming.Xv6

variable {Pid : Type*} [DecidableEq Pid]

/-- Nobody is in a critical section of `mutex->lock` and the mutex is free, so
no process is asleep on `&mutex->q`. -/
def NoSleeperOnFreeMutex (cond : CondIx) (s : State Pid) : Prop :=
  s.owner (.mutex cond) = none → (s.mem.mutexTable cond).locked = 1 →
    ∀ p lock pc, s.thread p ≠ .asleep (.mutexQ cond) lock pc

/-- Nobody destroys the condition. -/
def NotDestroyed (cond : CondIx) (s : State Pid) (label : Pid × Call) : Prop :=
  s.thread label.1 ≠ .run (.condDestroyStore cond)

/-- When `cond_unlock` leaves its critical section no process is asleep on
`&mutex->q`. -/
def UnlocksWithoutSleepers (cond : CondIx) (s : State Pid) (label : Pid × Call) : Prop :=
  ∀ caller, s.thread label.1 = .run (.condUnlockUnlock cond caller) →
    ∀ p lock pc, s.thread p ≠ .asleep (.mutexQ cond) lock pc

/-- What the statements of an allocated condition know about the flag. -/
structure FlagInv (cond : CondIx) (s : State Pid) : Prop where
  live : (s.mem.conditionTable cond).ref = 1
  released : ∀ p caller, s.thread p = .run (.condUnlockUnlock cond caller) →
    (s.mem.mutexTable cond).locked = 1
  blocked : ∀ p caller, s.thread p = .run (.condLockSleep cond caller) →
    (s.mem.mutexTable cond).locked = 0

namespace FlagInv
variable {cond : CondIx} {s t : State Pid} {p : Pid} {call : Call}

omit [DecidableEq Pid] in
theorem start (allocated : Allocated cond s) : FlagInv cond s where
  live := allocated.live
  released q caller at' := by cases (allocated.thread q).symm.trans at'
  blocked q caller at' := by cases (allocated.thread q).symm.trans at'

theorem step (inv : FlagInv cond s) (kept : NotDestroyed cond s (p, call))
    (owned : s.Owned fun _ => held) (slept : (program Pid).SleptAt s)
    (step : (program Pid).Step p call s t) : FlagInv cond t where
  live := live_step inv.live kept step
  released q caller at' := by
    have live : (s.mem.conditionTable cond).ref ≠ 0 := by rw [inv.live]; exact one_ne_zero
    rcases condUnlockUnlock_origin slept step at' with ⟨other, old⟩ | ⟨_, _, stored⟩
    · rw [mutexTable_kept owned live step old other (by simp [held])]
      exact inv.released q caller old
    · rw [stored, Kernel.locked_condUnlockStore]
  blocked q caller at' := by
    have live : (s.mem.conditionTable cond).ref ≠ 0 := by rw [inv.live]; exact one_ne_zero
    rcases condLockSleep_origin slept step at' with ⟨other, old⟩ | ⟨_, _, taken, same⟩
    · rw [mutexTable_kept owned live step old other (by simp [held])]
      exact inv.blocked q caller old
    · rw [same]
      exact taken

theorem of_reach (reach : ((program Pid).system (Allocated cond)).ReachUnder (NotDestroyed cond) s) :
    FlagInv cond s :=
  reach.invariant (fun _ allocated => start allocated) fun _ _ _ earlier inv kept moved =>
    inv.step kept (owned_of_quiet (fun _ allocated => allocated.toQuiet) earlier)
      (sleptAt_of_quiet (fun _ allocated => allocated.toQuiet) earlier) (Program.step_of_next moved).2

end FlagInv

/-- While the flag is set, the sleepers are gone or an unlocking process has not
yet released `mutex->lock`. -/
def SleepersGone (cond : CondIx) (s : State Pid) : Prop :=
  (s.mem.mutexTable cond).locked = 1 →
    (∃ p caller, s.thread p = .run (.condUnlockUnlock cond caller)) ∨
      ∀ p lock pc, s.thread p ≠ .asleep (.mutexQ cond) lock pc

theorem no_new_sleeper {cond : CondIx} {s t : State Pid} {p : Pid} {call : Call} (inv : FlagInv cond s)
    (step : (program Pid).Step p call s t) (set : (s.mem.mutexTable cond).locked = 1)
    (none : ∀ q lock pc, s.thread q ≠ .asleep (.mutexQ cond) lock pc) :
    ∀ q lock pc, t.thread q ≠ .asleep (.mutexQ cond) lock pc := by
  intro q lock pc sleeping
  rcases step.asleep_cases sleeping with old | ⟨rfl, before, was, here⟩
  · exact none q lock pc old
  · change instr q before = _ at here
    cases before <;> cases here
    rw [inv.blocked q _ was] at set
    cases set

theorem SleepersGone.step {cond : CondIx} {s t : State Pid} {p : Pid} {call : Call}
    (gone : SleepersGone cond s) (inv : FlagInv cond s) (alone : UnlocksWithoutSleepers cond s (p, call))
    (step : (program Pid).Step p call s t) : SleepersGone cond t := by
  intro set
  rcases step.mem_cases with same | ⟨before, effect, next, was, here, run, now⟩
  · rw [same] at set
    rcases gone set with ⟨q, caller, releasing⟩ | none
    · by_cases other : q = p
      · subst other
        exact Or.inr (no_new_sleeper inv step set (alone caller releasing))
      · exact Or.inl ⟨q, caller, step.other_running other releasing⟩
    · exact Or.inr (no_new_sleeper inv step set none)
  · rcases (effect_of_exec here run).mutex_cases cond with
      ⟨kept, _⟩ | ⟨caller, rfl, rfl, stored⟩ | ⟨caller, rfl, rfl, stored⟩ | unallocated
    · rw [kept] at set
      rcases gone set with ⟨q, caller, releasing⟩ | none
      · refine Or.inl ⟨q, caller, step.other_running ?_ releasing⟩
        rintro rfl
        cases was.symm.trans releasing
        cases here
      · exact Or.inr (no_new_sleeper inv step set none)
    · rw [stored, Kernel.locked_condLockStore] at set
      cases set
    · exact Or.inl ⟨p, caller, now⟩
    · rw [inv.live] at unallocated
      cases unallocated

theorem noSleeperOnFreeMutex_of_reach {cond : CondIx} {s : State Pid}
    (reach : ((program Pid).system (Allocated cond)).ReachUnder
      (fun s label => NotDestroyed cond s label ∧ UnlocksWithoutSleepers cond s label) s) :
    NoSleeperOnFreeMutex cond s := by
  have gone : SleepersGone cond s := by
    refine reach.invariant (motive := SleepersGone cond) ?_ ?_
    · intro s allocated _
      refine Or.inr fun p lock pc sleeping => ?_
      cases (allocated.thread p).symm.trans sleeping
    · intro s t label earlier before ok moved
      exact before.step (FlagInv.of_reach (earlier.mono fun _ _ ok => ok.1)) ok.2
        (Program.step_of_next moved).2
  have owned := owned_of_quiet (fun _ allocated => allocated.toQuiet) reach
  intro unowned set
  rcases gone set with ⟨p, caller, releasing⟩ | none
  · have owner := (owned.owner_iff (.mutex cond) p).mpr (by rw [releasing]; simp [Activity.Holds, held])
    rw [unowned] at owner
    cases owner
  · exact none

/-- A `cond_unlock` that leaves a sleeper behind leaves it on a free mutex. -/
theorem sleeper_left_behind {cond : CondIx} {s t : State Pid} {label : Pid × Call}
    (reach : ((program Pid).system (Allocated cond)).ReachUnder (NotDestroyed cond) s)
    (moved : ((program Pid).system (Allocated cond)).next s label = some t)
    (left : ¬ UnlocksWithoutSleepers cond s label) : ¬ NoSleeperOnFreeMutex cond t := by
  have inv := FlagInv.of_reach reach
  simp only [UnlocksWithoutSleepers, not_forall, not_not] at left
  obtain ⟨caller, releasing, p, lock, pc, sleeping⟩ := left
  have step : (program Pid).step s label.1 label.2 = some t := moved
  have set := inv.released label.1 caller releasing
  simp only [Program.step, program, releasing, instr] at step
  cases step
  intro none
  refine none (by simp) set p lock pc ?_
  have other : p ≠ label.1 := by
    rintro rfl
    cases releasing.symm.trans sleeping
  simpa [other] using sleeping

/-- In a run on a condition that stays allocated, no process ever sleeps on the
free mutex if and only if every `cond_unlock` leaves its critical section when
no process is asleep on `&mutex->q`. -/
theorem no_sleeper_on_free_mutex_iff (cond : CondIx) {path : List (State Pid × Pid × Call)} {s : State Pid}
    (run : ((program Pid).system (Allocated cond)).Run path s)
    (kept : ∀ step ∈ path, NotDestroyed cond step.1 step.2) :
    System.Throughout (NoSleeperOnFreeMutex cond) path s ↔
      ∀ step ∈ path, UnlocksWithoutSleepers cond step.1 step.2 :=
  run.throughout_iff (fun _ => noSleeperOnFreeMutex_of_reach)
    (fun _ _ _ reach _ => sleeper_left_behind reach) kept

instance (cond : CondIx) (s : State Pid) (label : Pid × Call) : Decidable (NotDestroyed cond s label) :=
  inferInstanceAs (Decidable (_ ≠ _))

/-- Two processes compete for the mutex once. -/
def contendedLock {Pid : Type*} (first second : Pid) (cond : CondIx) : List (Pid × Call) := schedule
  [(first, .condLock cond, 6), (second, .condLock cond, 4), (first, .condUnlock cond, 4)]

set_option maxRecDepth 10000 in
theorem no_sleeper_on_free_mutex_iff_contendedLock :
    ∃ path s, path.map Prod.snd = (contendedLock 0 1 0 : List (Fin 2 × Call)).reverse ∧
      (System.Throughout (NoSleeperOnFreeMutex 0 : State (Fin 2) → Prop) path s ↔
        ∀ step ∈ path, UnlocksWithoutSleepers 0 step.1 step.2) := by
  have computed : (((program (Fin 2)).system (Allocated 0)).runUnder (NotDestroyed 0) (contendedLock 0 1 0)
      (allAllocated (Fin 2))).isSome = true := by decide
  obtain ⟨s, reached⟩ := Option.isSome_iff_exists.mp computed
  obtain ⟨path, run, kept, labels⟩ :=
    (System.Run.start (allocated_allAllocated (Fin 2) 0)).of_run (by simp) reached
  exact ⟨path, s, by simpa using labels, no_sleeper_on_free_mutex_iff 0 run kept⟩

set_option maxRecDepth 10000 in
/-- The process that found the mutex taken still sleeps when it is free. -/
theorem sleeper_on_free_mutex :
    ∃ s, ((program (Fin 2)).system (Allocated 0)).ReachUnder
        (fun s label => UsedProperly 0 s label ∧ label.2 ∈ [.condLock 0, .condUnlock 0, .condWait 0]) s ∧
      ¬ NoSleeperOnFreeMutex 0 s := by
  have computed : (((program (Fin 2)).system (Allocated 0)).runUnder
      (fun s label => UsedProperly 0 s label ∧ label.2 ∈ [.condLock 0, .condUnlock 0, .condWait 0])
      (contendedLock 0 1 0) (allAllocated (Fin 2))).map
      (fun s => (s.owner (.mutex 0), (s.mem.mutexTable 0).locked, s.thread 1)) =
        some (none, 1, .asleep (.mutexQ 0) (.mutex 0) (.condLockTest 0 .process)) := by decide
  obtain ⟨s, reached, state⟩ := Option.map_eq_some_iff.mp computed
  simp only [Prod.mk.injEq] at state
  obtain ⟨unowned, set, sleeping⟩ := state
  have reach := System.ReachUnder.of_run (.start (allocated_allAllocated (Fin 2) 0)) reached
  exact ⟨s, reach, fun none => none unowned set 1 _ _ sleeping⟩

end DeviceProgramming.Xv6
