import DeviceProgramming.Xv6.Locks

namespace DeviceProgramming.Xv6

variable {Pid : Type*} [DecidableEq Pid]

/-- `cond_alloc` has returned the condition: its mutex is free and no process
has taken it yet. -/
structure Allocated (cond : CondIx) (s : State Pid) : Prop extends Quiet s where
  free : (s.mem.mutexTable cond).locked = 1
  live : (s.mem.conditionTable cond).ref = 1
  fresh : ∀ p, s.mem.holds cond p = false

/-- A process calls `cond_unlock` and `cond_wait` only while it is the holder,
and nobody destroys the condition. -/
structure UsedProperly (cond : CondIx) (s : State Pid) (label : Pid × Call) : Prop where
  holder : s.thread label.1 = .run .user → label.2 = .condUnlock cond ∨ label.2 = .condWait cond →
    s.mem.holds cond label.1 = true
  kept : s.thread label.1 ≠ .run (.condDestroyStore cond)

/-- The statements that only the holder of the mutex executes. -/
def Pc.ByHolder (cond : CondIx) : Pc → Prop
  | .condUnlockLock c _ | .condUnlockStore c _ | .condWaitLock c | .condLockUnlock c _
  | .condWaitUnlock c => c = cond
  | _ => False

/-- The invariant of the condition mutex. -/
structure MutexInv (cond : CondIx) (s : State Pid) : Prop where
  live : (s.mem.conditionTable cond).ref = 1
  one : ∀ p q, s.mem.holds cond p = true → s.mem.holds cond q = true → p = q
  taken : (s.mem.mutexTable cond).locked = 0 ↔ ∃ p, s.mem.holds cond p = true
  flag : (s.mem.mutexTable cond).locked = 0 ∨ (s.mem.mutexTable cond).locked = 1
  storing : ∀ p caller, s.thread p = .run (.condLockStore cond caller) →
    (s.mem.mutexTable cond).locked ≠ 0
  byHolder : ∀ p pc, s.thread p = .run pc → pc.ByHolder cond → s.mem.holds cond p = true

/-- The statements that touch the mutex of a condition. -/
theorem Effect.mutex_cases {p : Pid} {call : Call} {m m' : Kernel Pid} {pc next : Pc} (cond : CondIx)
    (effect : Effect p call m pc m' next) :
    (m'.mutexTable cond = m.mutexTable cond ∧ m'.holds cond = m.holds cond) ∨
    (∃ caller, pc = .condLockStore cond caller ∧ next = .condLockUnlock cond caller ∧
      m' = m.condLockStore p cond) ∨
    (∃ caller, pc = .condUnlockStore cond caller ∧ next = .condUnlockUnlock cond caller ∧
      m' = m.condUnlockStore p cond caller) ∨
    (m.conditionTable cond).ref = 0 := by
  cases effect with
  | @condLockStore c caller =>
    by_cases same : c = cond
    · subst same; exact Or.inr (Or.inl ⟨caller, rfl, rfl, rfl⟩)
    · simp [Kernel.condLockStore, Kernel.setMutex, Ne.symm same]
  | @condUnlockStore c caller =>
    by_cases same : c = cond
    · subst same; exact Or.inr (Or.inr (Or.inl ⟨caller, rfl, rfl, rfl⟩))
    · simp [Kernel.condUnlockStore, Kernel.setMutex, Ne.symm same]
  | @condAllocTake c free =>
    by_cases same : c = cond
    · subst same; exact Or.inr (Or.inr (Or.inr free))
    · simp [Kernel.setMutex, Kernel.setCondition, Ne.symm same]
  | _ => exact Or.inl ⟨rfl, rfl⟩

/-- Only `cond_destroy` and the allocation of a free slot write `ref`. -/
theorem Effect.ref_cases {p : Pid} {call : Call} {m m' : Kernel Pid} {pc next : Pc} (cond : CondIx)
    (effect : Effect p call m pc m' next) :
    (m'.conditionTable cond).ref = (m.conditionTable cond).ref ∨
      pc = .condDestroyStore cond ∨ (m.conditionTable cond).ref = 0 := by
  cases effect with
  | @condDestroyStore c =>
    by_cases same : c = cond
    · subst same; exact Or.inr (Or.inl rfl)
    · simp [Kernel.setCondition, Ne.symm same]
  | @condAllocTake c free =>
    by_cases same : c = cond
    · subst same; exact Or.inr (Or.inr free)
    · simp [Kernel.setMutex, Kernel.setCondition, Ne.symm same]
  | @condSetStore c val =>
    by_cases same : c = cond
    · subst same; simp [Kernel.setCondition]
    · simp [Kernel.setCondition, Ne.symm same]
  | _ => exact Or.inl rfl

/-- A condition that nobody destroys stays allocated. -/
theorem live_step {cond : CondIx} {s t : State Pid} {p : Pid} {call : Call}
    (live : (s.mem.conditionTable cond).ref = 1) (kept : s.thread p ≠ .run (.condDestroyStore cond))
    (step : (program Pid).Step p call s t) : (t.mem.conditionTable cond).ref = 1 := by
  rcases effect_of_step step with same | ⟨before, after, next, was, same, effect⟩
  · rw [same]; exact live
  · rw [same]
    rcases effect.ref_cases cond with old | rfl | unallocated
    · exact old.trans live
    · exact absurd was kept
    · rw [live] at unallocated
      cases unallocated

/-- While one process is at a statement under `mutex->lock`, no other process
changes the mutex. -/
theorem mutexTable_kept {cond : CondIx} {s t : State Pid} {p q : Pid} {call : Call} {pc : Pc}
    (owned : s.Owned fun _ => held) (live : (s.mem.conditionTable cond).ref ≠ 0)
    (step : (program Pid).Step p call s t) (at' : s.thread q = .run pc) (other : q ≠ p)
    (critical : .mutex cond ∈ held pc) : t.mem.mutexTable cond = s.mem.mutexTable cond := by
  have alone : ∀ pc', s.thread p = .run pc' → .mutex cond ∉ held pc' := by
    intro pc' was holding
    exact other (owned.unique_run at' was critical holding)
  rcases effect_of_step step with same | ⟨before, after, next, was, same, effect⟩
  · rw [same]
  · rw [same]
    rcases effect.mutex_cases cond with ⟨kept, _⟩ | ⟨caller, rfl, _⟩ | ⟨caller, rfl, _⟩ | unallocated
    · exact kept
    · exact absurd (by simp [held]) (alone _ was)
    · exact absurd (by simp [held]) (alone _ was)
    · exact absurd unallocated live

theorem Pc.ByHolder.before {cond : CondIx} {p : Pid} {pc next : Pc}
    (target : (instr p pc).target = some next) (holder : next.ByHolder cond) : pc.ByHolder cond := by
  cases pc
  case condLockUnlock c caller =>
    cases caller <;> cases target
    · exact holder.elim
    · exact holder
  case condUnlockUnlock c caller => cases caller <;> cases target <;> exact holder.elim
  all_goals cases target <;> first | exact holder | exact holder.elim

theorem Pc.ByHolder.not_resumed {cond : CondIx} {p : Pid} {pc before : Pc} {chan : Chan} {lock : Lock}
    (here : instr p before = .sleep chan lock pc) : ¬ pc.ByHolder cond := by
  cases before <;> cases here <;> exact id

/-- A process comes to a statement of the holder by a call or by taking the mutex. -/
theorem Pc.ByHolder.effect {cond : CondIx} {p : Pid} {call : Call} {m m' : Kernel Pid} {pc next : Pc}
    (effect : Effect p call m pc m' next) (holder : next.ByHolder cond) :
    (m' = m ∧ pc = .user ∧ (call = .condUnlock cond ∨ call = .condWait cond)) ∨
      ∃ caller, pc = .condLockStore cond caller ∧ m' = m.condLockStore p cond := by
  cases effect with
  | enter =>
    refine Or.inl ⟨rfl, rfl, ?_⟩
    cases call
    case condUnlock c => exact Or.inl (congrArg Call.condUnlock holder)
    case condWait c => exact Or.inr (congrArg Call.condWait holder)
    all_goals exact holder.elim
  | @condLockStore c caller =>
    cases (holder : c = cond)
    exact Or.inr ⟨caller, rfl, rfl⟩
  | _ => exact holder.elim

namespace MutexInv
variable {cond : CondIx} {s t : State Pid} {p : Pid} {call : Call}

omit [DecidableEq Pid] in
theorem start (allocated : Allocated cond s) : MutexInv cond s where
  live := allocated.live
  one p _ held := by simp [allocated.fresh p] at held
  taken := by simp [allocated.free, allocated.fresh]
  flag := Or.inr allocated.free
  storing p caller at' := by cases (allocated.thread p).symm.trans at'
  byHolder p pc at' holder := by
    cases (allocated.thread p).symm.trans at'
    exact holder.elim

/-- The table entry and the holders of the mutex are as before, or the step
takes the mutex and its process is the only holder, or the step gives the mutex
back and nobody holds it. -/
theorem mutex_cases (inv : MutexInv cond s) (step : (program Pid).Step p call s t) :
    (t.mem.mutexTable cond = s.mem.mutexTable cond ∧ t.mem.holds cond = s.mem.holds cond) ∨
    (t.mem = s.mem.condLockStore p cond ∧ (∀ q, s.mem.holds cond q ≠ true) ∧
      ∀ q, t.mem.holds cond q = true ↔ q = p) ∨
    (∃ caller, s.thread p = .run (.condUnlockStore cond caller) ∧
      t.mem = s.mem.condUnlockStore p cond caller ∧ ∀ q, t.mem.holds cond q ≠ true) := by
  rcases effect_of_step step with same | ⟨before, after, next, was, same, effect⟩
  · exact Or.inl (by rw [same]; exact ⟨rfl, rfl⟩)
  rw [same]
  rcases effect.mutex_cases cond with
    kept | ⟨caller, rfl, -, rfl⟩ | ⟨caller, rfl, -, rfl⟩ | unallocated
  · exact Or.inl kept
  · have free := inv.storing p caller was
    have nobody : ∀ q, s.mem.holds cond q ≠ true := fun q holding => free (inv.taken.mpr ⟨q, holding⟩)
    refine Or.inr (Or.inl ⟨rfl, nobody, fun q => ?_⟩)
    rw [Kernel.holds_condLockStore]
    exact ⟨fun holding => holding.resolve_right (nobody q), Or.inl⟩
  · have holder := inv.byHolder p _ was rfl
    refine Or.inr (Or.inr ⟨caller, was, rfl, fun q holding => ?_⟩)
    obtain ⟨other, holding⟩ := (Kernel.holds_condUnlockStore p q cond caller s.mem).mp holding
    exact other (inv.one q p holding holder)
  · rw [inv.live] at unallocated
    cases unallocated

theorem storing_step (inv : MutexInv cond s) (owned : s.Owned fun _ => held)
    (slept : (program Pid).SleptAt s) (step : (program Pid).Step p call s t) {q : Pid} {caller : Caller}
    (at' : t.thread q = .run (.condLockStore cond caller)) : (t.mem.mutexTable cond).locked ≠ 0 := by
  rcases arrival_of_computed slept step at' trivial with
    ⟨other, old⟩ | ⟨rfl, before, after, next, was, kept, point, effect⟩
  · have live : (s.mem.conditionTable cond).ref ≠ 0 := by rw [inv.live]; exact one_ne_zero
    rw [mutexTable_kept owned live step old other (by simp [held])]
    exact inv.storing q caller old
  · rw [kept]
    cases effect with
    | enter => cases call <;> cases point
    | condLockPass free => cases point; exact free
    | _ => cases point

theorem byHolder_step (inv : MutexInv cond s) (proper : UsedProperly cond s (p, call))
    (slept : (program Pid).SleptAt s) (step : (program Pid).Step p call s t) {q : Pid} {pc : Pc}
    (at' : t.thread q = .run pc) (holder : pc.ByHolder cond) : t.mem.holds cond q = true := by
  rcases arrival slept step at' with
    ⟨other, old⟩ | ⟨rfl, ⟨_, before, chan, lock, here⟩ | ⟨kept, before, was, target⟩ |
      ⟨before, after, next, was, kept, rfl, effect⟩⟩
  · have holding := inv.byHolder q pc old holder
    rcases inv.mutex_cases step with ⟨_, kept⟩ | ⟨_, nobody, _⟩ | ⟨caller, _, stored, _⟩
    · rw [kept]; exact holding
    · exact absurd holding (nobody q)
    · rw [stored, Kernel.holds_condUnlockStore]
      exact ⟨other, holding⟩
  · exact absurd holder (Pc.ByHolder.not_resumed here)
  · rw [kept]
    exact inv.byHolder q before was (holder.before target)
  · rw [kept]
    rcases holder.effect effect with ⟨same, rfl, made⟩ | ⟨caller, rfl, stored⟩
    · rw [same]
      exact proper.holder was made
    · rw [stored, Kernel.holds_condLockStore]
      exact Or.inl rfl

/-- One step by a process that uses the condition properly keeps the invariant. -/
theorem step (inv : MutexInv cond s) (proper : UsedProperly cond s (p, call))
    (owned : s.Owned fun _ => held) (slept : (program Pid).SleptAt s)
    (step : (program Pid).Step p call s t) : MutexInv cond t where
  live := live_step inv.live proper.kept step
  one q r first second := by
    rcases inv.mutex_cases step with ⟨_, kept⟩ | ⟨_, _, holder⟩ | ⟨_, _, _, nobody⟩
    · rw [kept] at first second
      exact inv.one q r first second
    · exact ((holder q).mp first).trans ((holder r).mp second).symm
    · exact absurd first (nobody q)
  taken := by
    rcases inv.mutex_cases step with ⟨kept, holds⟩ | ⟨stored, _, holder⟩ | ⟨caller, _, stored, nobody⟩
    · rw [kept, holds]
      exact inv.taken
    · have locked : (t.mem.mutexTable cond).locked = 0 := by rw [stored, Kernel.locked_condLockStore]
      exact ⟨fun _ => ⟨p, (holder p).mpr rfl⟩, fun _ => locked⟩
    · have free : (t.mem.mutexTable cond).locked = 1 := by rw [stored, Kernel.locked_condUnlockStore]
      rw [free]
      exact ⟨fun locked => absurd locked one_ne_zero, fun ⟨q, holding⟩ => absurd holding (nobody q)⟩
  flag := by
    rcases inv.mutex_cases step with ⟨kept, _⟩ | ⟨stored, _⟩ | ⟨_, _, stored, _⟩
    · rw [kept]
      exact inv.flag
    · exact Or.inl (by rw [stored, Kernel.locked_condLockStore])
    · exact Or.inr (by rw [stored, Kernel.locked_condUnlockStore])
  storing _ _ at' := inv.storing_step owned slept step at'
  byHolder _ _ at' holder := inv.byHolder_step proper slept step at' holder

theorem of_reach (reach : ((program Pid).system (Allocated cond)).ReachUnder (UsedProperly cond) s) :
    MutexInv cond s :=
  reach.invariant (fun _ allocated => start allocated) fun _ _ _ earlier inv proper moved =>
    inv.step proper (owned_of_quiet (fun _ allocated => allocated.toQuiet) earlier)
      (sleptAt_of_quiet (fun _ allocated => allocated.toQuiet) earlier) (Program.step_of_next moved).2

end MutexInv

/-- The last statements of `cond_lock` and of `cond_wait`. -/
def Pc.Returning (cond : CondIx) (pc : Pc) : Prop :=
  pc = .condLockUnlock cond .process ∨ pc = .condWaitUnlock cond

/-- At most one process is the holder, the flag is 0 exactly while there is
one, and `cond_lock` and `cond_wait` return to the holder only. -/
theorem condition_mutex_exclusive (cond : CondIx) {s : State Pid}
    (reach : ((program Pid).system (Allocated cond)).ReachUnder (UsedProperly cond) s) :
    (∀ p q, s.mem.holds cond p = true → s.mem.holds cond q = true → p = q) ∧
    ((s.mem.mutexTable cond).locked = 0 ↔ ∃ p, s.mem.holds cond p = true) ∧
    ∀ p call t pc, s.thread p = .run pc → pc.Returning cond →
      (program Pid).step s p call = some t → t.mem.holds cond p = true := by
  have inv := MutexInv.of_reach reach
  refine ⟨inv.one, inv.taken, fun p call t pc at' returning stepped => ?_⟩
  rcases returning with rfl | rfl
  · have holding := inv.byHolder p _ at' rfl
    simp only [Program.step, program, at', instr] at stepped
    cases stepped
    exact holding
  · have holding := inv.byHolder p _ at' rfl
    simp only [Program.step, program, at', instr] at stepped
    cases stepped
    exact holding

instance (cond : CondIx) (s : State Pid) (label : Pid × Call) : Decidable (UsedProperly cond s label) :=
  decidable_of_iff
    ((s.thread label.1 = .run .user → label.2 = .condUnlock cond ∨ label.2 = .condWait cond →
      s.mem.holds cond label.1 = true) ∧ s.thread label.1 ≠ .run (.condDestroyStore cond))
    ⟨fun ⟨holder, kept⟩ => ⟨holder, kept⟩, fun ⟨holder, kept⟩ => ⟨holder, kept⟩⟩

/-- The kernel with every condition allocated. -/
def allAllocated (Pid : Type*) : State Pid :=
  { boot Pid with
    mem := { (boot Pid).mem with mutexTable := fun _ => ⟨1⟩, conditionTable := fun _ => ⟨0, 1⟩ } }

theorem allocated_allAllocated (Pid : Type*) (cond : CondIx) : Allocated cond (allAllocated Pid) :=
  ⟨⟨fun _ => rfl, fun _ => rfl⟩, rfl, rfl, fun _ => rfl⟩

/-- A waiter is signalled, and gets the mutex back from the signalling process. -/
def handedBack {Pid : Type*} (waiter signaller : Pid) (cond : CondIx) : List (Pid × Call) := schedule
  [(waiter, .condLock cond, 6), (waiter, .condWait cond, 6), (signaller, .condLock cond, 6),
   (signaller, .condSignal cond, 3), (signaller, .condUnlock cond, 5), (waiter, .condWait cond, 5)]

set_option maxRecDepth 10000 in
theorem condition_mutex_exclusive_handedBack :
    ∃ s, ((program (Fin 2)).system (Allocated 0)).runUnder (UsedProperly 0) (handedBack 0 1 0)
        (allAllocated (Fin 2)) = some s ∧
      ∀ t, (program (Fin 2)).step s 0 .condAlloc = some t → t.mem.holds 0 0 = true := by
  have computed : (((program (Fin 2)).system (Allocated 0)).runUnder (UsedProperly 0) (handedBack 0 1 0)
      (allAllocated (Fin 2))).map (fun s => s.thread 0) = some (.run (.condWaitUnlock 0)) := by decide
  obtain ⟨s, reached, at'⟩ := Option.map_eq_some_iff.mp computed
  have reach := System.ReachUnder.of_run (.start (allocated_allAllocated (Fin 2) 0)) reached
  exact ⟨s, reached, fun t => (condition_mutex_exclusive 0 reach).2.2 0 .condAlloc t _ at' (Or.inr rfl)⟩

end DeviceProgramming.Xv6
