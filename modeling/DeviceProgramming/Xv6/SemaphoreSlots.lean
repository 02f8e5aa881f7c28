import DeviceProgramming.Xv6.Locks

namespace DeviceProgramming.Xv6

variable {Pid : Type*} [DecidableEq Pid]

/-- `sem_alloc` finds the slot free, and takes it. -/
def Takes (sn : SemIx) (step : State Pid × Pid × Call) : Prop :=
  step.1.thread step.2.1 = .run (.semAllocScan sn) ∧ (step.1.mem.semaphoreTable sn).ref = 0

/-- `sem_alloc` finds the slot in use. -/
def FindsUsed (sn : SemIx) (step : State Pid × Pid × Call) : Prop :=
  step.1.thread step.2.1 = .run (.semAllocScan sn) ∧ (step.1.mem.semaphoreTable sn).ref ≠ 0

/-- `sem_destroy` gives a slot back that was in use. -/
def Frees (sn : SemIx) (step : State Pid × Pid × Call) : Prop :=
  step.1.thread step.2.1 = .run (.semDestroy sn) ∧ (step.1.mem.semaphoreTable sn).ref ≠ 0

instance (sn : SemIx) (step : State Pid × Pid × Call) : Decidable (Takes sn step) :=
  inferInstanceAs (Decidable (_ ∧ _))

instance (sn : SemIx) (step : State Pid × Pid × Call) : Decidable (Frees sn step) :=
  inferInstanceAs (Decidable (_ ∧ _))

/-- The steps of a run, last one first, since `p` has taken the lock of the table. -/
def ownScan (p : Pid) (path : List (State Pid × Pid × Call)) : List (State Pid × Pid × Call) :=
  path.takeWhile fun step => decide ¬ (step.2.1 = p ∧ step.1.thread p = .run .semAllocLock)

section
variable {sn : SemIx} {s t : State Pid} {p q : Pid} {call : Call} {path : List (State Pid × Pid × Call)}

theorem ownScan_cons (goes : ¬ (p = q ∧ s.thread q = .run .semAllocLock)) :
    ownScan q ((s, p, call) :: path) = (s, p, call) :: ownScan q path := by
  unfold ownScan
  rw [List.takeWhile_cons, if_pos (decide_eq_true goes)]

theorem Effect.semRef_cases {m m' : Kernel Pid} {pc next : Pc} (sn : SemIx) (effect : Effect p call m pc m' next) :
    (pc = .semAllocScan sn ∧ (m.semaphoreTable sn).ref = 0 ∧ (m'.semaphoreTable sn).ref = 1) ∨
    (pc = .semDestroy sn ∧ (m'.semaphoreTable sn).ref = 0) ∨
    ((m'.semaphoreTable sn).ref = (m.semaphoreTable sn).ref ∧ pc ≠ .semDestroy sn ∧
      (pc = .semAllocScan sn → (m.semaphoreTable sn).ref ≠ 0)) := by
  cases effect with
  | semAllocTake k free =>
    by_cases same : k = sn
    · subst same
      exact Or.inl ⟨rfl, free, by simp [Kernel.setSemaphore]⟩
    · refine Or.inr (Or.inr ⟨by simp [Kernel.setSemaphore, Ne.symm same], by simp, fun at' => ?_⟩)
      exact absurd (Fin.ext (Pc.semAllocScan.inj at')) same
  | semAllocSkip k used =>
    refine Or.inr (Or.inr ⟨rfl, by simp, fun at' => ?_⟩)
    rwa [← Fin.ext (Pc.semAllocScan.inj at')]
  | @semAllocFull k whole =>
    refine Or.inr (Or.inr ⟨rfl, by simp, fun at' => ?_⟩)
    have within := sn.isLt
    have same := Pc.semAllocScan.inj at'
    omega
  | @semDestroy k =>
    by_cases same : k = sn
    · subst same
      exact Or.inr (Or.inl ⟨rfl, by simp [Kernel.setSemaphore]⟩)
    · exact Or.inr (Or.inr ⟨by simp [Kernel.setSemaphore, Ne.symm same], by simpa using same, by simp⟩)
  | @semInitStore k n | @semWaitBlock k negative | @semWaitPass k enough | @semPostWake k waiting
  | @semPostPass k positive =>
    refine Or.inr (Or.inr ⟨?_, by simp, by simp⟩)
    by_cases same : k = sn
    · subst same
      simp [Kernel.setSemaphore, Kernel.semWaitCount, Kernel.semPostCount]
    · simp [Kernel.setSemaphore, Kernel.semWaitCount, Kernel.semPostCount, Ne.symm same]
  | _ => exact Or.inr (Or.inr ⟨rfl, by simp, by simp⟩)

/-- 1 for a slot that is in use. -/
def Kernel.inUse (m : Kernel Pid) (sn : SemIx) : ℕ := if (m.semaphoreTable sn).ref = 0 then 0 else 1

/-- A step takes the slot, gives it back, or leaves it as it is. -/
theorem inUse_step (sn : SemIx) (step : (program Pid).Step p call s t) :
    t.mem.inUse sn + (if Frees sn (s, p, call) then 1 else 0) =
      s.mem.inUse sn + if Takes sn (s, p, call) then 1 else 0 := by
  cases step with
  | relock at' =>
    rw [if_neg (by simp [Frees, at']), if_neg (by simp [Takes, at'])]
  | @acquire pc lock next at' here | @release pc lock next at' here | @sleep pc chan lock next at' here
  | @wakeup pc chan next at' here =>
    change instr p pc = _ at here
    rw [if_neg, if_neg]
    · rintro ⟨was, _⟩
      cases at'.symm.trans was
      cases here
    · rintro ⟨was, _⟩
      cases at'.symm.trans was
      cases here
  | @exec pc effect mem next at' here run =>
    have takes : Takes sn (s, p, call) ↔ pc = .semAllocScan sn ∧ (s.mem.semaphoreTable sn).ref = 0 := by
      simp [Takes, at']
    have frees : Frees sn (s, p, call) ↔ pc = .semDestroy sn ∧ (s.mem.semaphoreTable sn).ref ≠ 0 := by
      simp [Frees, at']
    rcases (effect_of_exec here run).semRef_cases sn with ⟨rfl, free, used⟩ | ⟨rfl, free⟩ | ⟨same, stays, found⟩
    · simp [takes, frees, Kernel.inUse, free, used]
    · by_cases used : (s.mem.semaphoreTable sn).ref = 0 <;> simp [takes, frees, Kernel.inUse, free, used]
    · have notTaken : ¬ Takes sn (s, p, call) := fun taken => found (takes.mp taken).1 (takes.mp taken).2
      have notFreed : ¬ Frees sn (s, p, call) := fun freed => stays (frees.mp freed).1
      rw [if_neg notTaken, if_neg notFreed]
      simp only [Kernel.inUse, same]

/-- What a call of `sem_alloc` has seen in its scan, and what it returns. -/
structure Scans (path : List (State Pid × Pid × Call)) (s : State Pid) : Prop where
  scan : ∀ p k, s.thread p = .run (.semAllocScan k) → ∀ sn : SemIx, sn.val < k →
    ∃ step ∈ ownScan p path, step.2.1 = p ∧ FindsUsed sn step
  result : ∀ p r, s.thread p = .run (.semAllocUnlock r) →
    (r = -1 ∧ ∀ sn, ∃ step ∈ ownScan p path, step.2.1 = p ∧ FindsUsed sn step) ∨
    ∃ sn : SemIx, r = (sn : ℕ) ∧ ∃ step ∈ ownScan p path, step.2.1 = p ∧ Takes sn step

/-- What a call has seen stays seen until it takes the lock of the table again. -/
theorem seen_later {holds : State Pid × Pid × Call → Prop} (goes : ¬ (p = q ∧ s.thread q = .run .semAllocLock))
    (seen : ∃ step ∈ ownScan q path, holds step) : ∃ step ∈ ownScan q ((s, p, call) :: path), holds step := by
  obtain ⟨step, member, found⟩ := seen
  rw [ownScan_cons goes]
  exact ⟨step, List.mem_cons_of_mem _ member, found⟩

theorem seen_now {holds : State Pid × Pid × Call → Prop} (goes : s.thread p ≠ .run .semAllocLock)
    (found : holds (s, p, call)) : ∃ step ∈ ownScan p ((s, p, call) :: path), holds step := by
  rw [ownScan_cons fun lock => goes lock.2]
  exact ⟨_, List.mem_cons_self .., found⟩

theorem Scans.step (scans : Scans path s) (slept : (program Pid).SleptAt s) (step : (program Pid).Step p call s t) :
    Scans ((s, p, call) :: path) t := by
  constructor
  · intro q k at' sn below
    rcases arrival slept step at' with ⟨other, old⟩ | ⟨rfl, ⟨_, before, chan, lock, here⟩ | ⟨_, before, was, target⟩ |
      ⟨before, after, next, was, _, point, effect⟩⟩
    · exact seen_later (fun lock => other lock.1.symm) (scans.scan q k old sn below)
    · cases before <;> cases here
    · cases before
      case semAllocLock =>
        cases target
        exact absurd below (Nat.not_lt_zero _)
      case condLockUnlock cond caller => cases caller <;> cases target
      case condUnlockUnlock cond caller => cases caller <;> cases target
      all_goals cases target
    · cases effect with
      | enter => cases call <;> cases point
      | semAllocSkip slot used =>
        cases point
        have goes : s.thread q ≠ .run .semAllocLock := by simp [was]
        rcases Nat.lt_or_ge sn.val slot.val with earlier | here
        · exact seen_later (fun lock => goes lock.2) (scans.scan q slot was sn earlier)
        · have same : sn = slot := Fin.ext (by omega)
          subst same
          exact seen_now goes ⟨rfl, was, used⟩
      | _ => cases point
  · intro q r at'
    rcases arrival slept step at' with ⟨other, old⟩ | ⟨rfl, ⟨_, before, chan, lock, here⟩ | ⟨_, before, was, target⟩ |
      ⟨before, after, next, was, _, point, effect⟩⟩
    · have goes (lock : p = q ∧ s.thread q = .run .semAllocLock) : False := other lock.1.symm
      rcases scans.result q r old with ⟨failed, all⟩ | ⟨sn, found, taken⟩
      · exact Or.inl ⟨failed, fun sn => seen_later goes (all sn)⟩
      · exact Or.inr ⟨sn, found, seen_later goes taken⟩
    · cases before <;> cases here
    · cases before
      case condLockUnlock cond caller => cases caller <;> cases target
      case condUnlockUnlock cond caller => cases caller <;> cases target
      all_goals cases target
    · cases effect with
      | enter => cases call <;> cases point
      | semAllocTake slot free =>
        cases point
        exact Or.inr ⟨slot, rfl, seen_now (by simp [was]) ⟨rfl, was, free⟩⟩
      | @semAllocFull k whole =>
        cases point
        have goes : s.thread q ≠ .run .semAllocLock := by simp [was]
        refine Or.inl ⟨rfl, fun sn => seen_later (fun lock => goes lock.2) (scans.scan q k was sn ?_)⟩
        exact sn.isLt.trans_le whole
      | _ => cases point

end

end DeviceProgramming.Xv6
