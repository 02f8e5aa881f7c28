import DeviceProgramming.Machine.Sleep

namespace DeviceProgramming.Program

variable {Tid Lock Chan Mem Pc Input : Type*} [DecidableEq Tid] [DecidableEq Lock] [DecidableEq Chan]
variable {P : Program Tid Lock Chan Mem Pc Input} {s s' : Threads Tid Lock Chan Mem Pc} {t : Tid}
  {input : Input}

/-- Why a thread of a live process cannot move. -/
inductive Blocked (P : Program Tid Lock Chan Mem Pc Input) (s : Threads Tid Lock Chan Mem Pc) (t : Tid) : Prop
  | asleep {chan lock pc} : s.thread t = .asleep chan lock pc → Blocked P s t
  | relock {lock pc} : s.thread t = .relock lock pc → s.owner lock ≠ none → Blocked P s t
  | acquire {pc lock next} : s.thread t = .run pc → P.instr t pc = .acquire lock next →
      s.owner lock ≠ none → Blocked P s t
  | exec {pc effect} : s.thread t = .run pc → P.instr t pc = .exec effect →
      (∀ input, effect input s.mem = none) → Blocked P s t

theorem blocked_of_stuck [Nonempty Input] (live : P.halted s.mem = false)
    (stuck : ∀ input, P.step s t input = none) : P.Blocked s t := by
  have never (input : Input) {s' : Threads Tid Lock Chan Mem Pc} (step : P.Step t input s s') : False := by
    cases (stuck input).symm.trans (step_iff.mpr ⟨live, step⟩)
  obtain ⟨some⟩ := ‹Nonempty Input›
  cases doing : s.thread t with
  | asleep chan lock pc => exact .asleep doing
  | relock lock pc => exact .relock doing fun free => never some (.relock doing free)
  | run pc =>
    cases here : P.instr t pc with
    | acquire lock next => exact .acquire doing here fun free => never some (.acquire doing here free)
    | release lock next => exact (never some (.release doing here)).elim
    | sleep chan lock next => exact (never some (.sleep doing here)).elim
    | wakeup chan next => exact (never some (.wakeup doing here)).elim
    | exec effect =>
      refine .exec doing here fun input => ?_
      cases run : effect input s.mem with
      | none => rfl
      | some result => exact (never input (.exec doing here run)).elim

/-- Locks taken in a fixed order, and no lock kept while a thread sleeps or ends. -/
structure Ordered (P : Program Tid Lock Chan Mem Pc Input) (held : Tid → Pc → List Lock) (rank : Lock → ℕ)
    (bound : ℕ) : Prop where
  rank_le : ∀ l, rank l ≤ bound
  acquire : ∀ {t pc lock next}, P.instr t pc = .acquire lock next → ∀ l ∈ held t pc, rank l < rank lock
  sleep : ∀ {t pc chan lock next}, P.instr t pc = .sleep chan lock next → ∀ l ∈ held t next, l = lock
  exec : ∀ {t pc effect mem}, P.instr t pc = .exec effect → (∀ input, effect input mem = none) → held t pc = []

omit [DecidableEq Tid] [DecidableEq Lock] [DecidableEq Chan] in
/-- When all threads are blocked and take their locks in order, all locks are
free: the owner of a lock would wait for the owner of a higher one. -/
theorem free_of_blocked {held : Tid → Pc → List Lock} {rank : Lock → ℕ} {bound : ℕ}
    (ordered : P.Ordered held rank bound) (owned : s.Owned held) (slept : P.SleptAt s)
    (blocked : ∀ t, P.Blocked s t) (l : Lock) : s.owner l = none := by
  induction distance : bound - rank l using Nat.strong_induction_on generalizing l with
  | _ n ih =>
    cases owner : s.owner l with
    | none => rfl
    | some t =>
      have holds := (owned.owner_iff l t).mp owner
      cases blocked t with
      | asleep doing =>
        rw [doing] at holds
        obtain ⟨before, here⟩ := slept.asleep doing
        exact absurd (ordered.sleep here l holds.1) holds.2
      | relock doing =>
        rw [doing] at holds
        obtain ⟨before, chan, here⟩ := slept.relock doing
        exact absurd (ordered.sleep here l holds.1) holds.2
      | @acquire pc lock next doing here taken =>
        rw [doing] at holds
        have higher := ordered.acquire here l holds
        have within := ordered.rank_le lock
        exact absurd (ih (bound - rank lock) (by omega) lock rfl) taken
      | exec doing here never =>
        rw [doing, Activity.Holds, ordered.exec here never] at holds
        cases holds

/-- Where the owners of locks run, and take further locks in order, one of them can go on:
the owner of a lock that another one waits for has a higher lock. -/
theorem owner_goes [Nonempty Input] {held : Tid → Pc → List Lock} {rank : Lock → ℕ} {bound : ℕ}
    (rank_le : ∀ l, rank l ≤ bound)
    (acquire : ∀ {t pc lock next}, P.instr t pc = .acquire lock next → ∀ l ∈ held t pc, rank l < rank lock)
    (working : ∀ l t, s.owner l = some t → ∃ pc, s.thread t = .run pc ∧ l ∈ held t pc)
    (total : ∀ {t pc effect}, P.instr t pc = .exec effect → ∃ input, effect input s.mem ≠ none)
    (live : P.halted s.mem = false) {l : Lock} {t : Tid} (owner : s.owner l = some t) :
    ∃ u input s', (∃ l, s.owner l = some u) ∧ P.step s u input = some s' := by
  induction distance : bound - rank l using Nat.strong_induction_on generalizing l t with
  | _ n ih =>
    obtain ⟨pc, running, holds⟩ := working l t owner
    by_cases stuck : ∀ input, P.step s t input = none
    · cases blocked_of_stuck live stuck with
      | asleep doing => cases running.symm.trans doing
      | relock doing => cases running.symm.trans doing
      | @acquire _ lock next doing here taken =>
        cases running.symm.trans doing
        obtain ⟨u, other⟩ := Option.ne_none_iff_exists'.mp taken
        have higher := acquire here l holds
        have within := rank_le lock
        exact ih (bound - rank lock) (by omega) other rfl
      | exec doing here never =>
        obtain ⟨input, goes⟩ := total here
        exact absurd (never input) goes
    · obtain ⟨input, goes⟩ := not_forall.mp stuck
      obtain ⟨s', step⟩ := Option.ne_none_iff_exists'.mp goes
      exact ⟨t, input, s', ⟨l, owner⟩, step⟩

/-- A sleeping thread still has what it waits for ahead of it, or a thread is
about to wake it. -/
def Attended (P : Program Tid Lock Chan Mem Pc Input) (waits : Chan → Pc → Mem → Prop)
    (s : Threads Tid Lock Chan Mem Pc) : Prop :=
  ∀ t chan lock pc, s.thread t = .asleep chan lock pc →
    waits chan pc s.mem ∨ ∃ u at' next, s.thread u = .run at' ∧ P.instr u at' = .wakeup chan next

/-- Nobody is asleep on a channel after a `wakeup` of it. -/
theorem Step.woken (step : P.Step t input s s') {at' next : Pc} {chan : Chan} (running : s.thread t = .run at')
    (here : P.instr t at' = .wakeup chan next) {u : Tid} {lock : Lock} {pc : Pc} :
    s'.thread u ≠ .asleep chan lock pc := by
  intro asleep
  cases step with
  | relock was => cases running.symm.trans was
  | acquire was there | release was there | sleep was there | exec was there =>
    cases running.symm.trans was
    cases here.symm.trans there
  | wakeup was there =>
    cases running.symm.trans was
    cases here.symm.trans there
    by_cases own : u = t
    · subst own
      simp only [Function.update_self, reduceCtorEq] at asleep
    · simp only [Function.update_of_ne own] at asleep
      exact (Activity.wake_eq_asleep.mp asleep).2 rfl

theorem Step.sleepers_woken [Fintype Tid] (step : P.Step t input s s') {at' next : Pc} {chan : Chan}
    (running : s.thread t = .run at') (here : P.instr t at' = .wakeup chan next) : s'.sleepers chan = 0 := by
  refine total_eq_zero.mpr fun u => ?_
  cases doing : s'.thread u with
  | run | relock => rfl
  | asleep c lock pc =>
    have other : c ≠ chan := by
      rintro rfl
      exact step.woken running here doing
    exact if_neg other

/-- A step that ends a wait leads to a statement that wakes the sleepers. -/
theorem Step.attended {waits : Chan → Pc → Mem → Prop} (step : P.Step t input s s')
    (before : P.Attended waits s)
    (sleeps : ∀ pc chan lock next, s.thread t = .run pc → P.instr t pc = .sleep chan lock next →
      waits chan next s.mem)
    (changes : ∀ u chan lock pc, s.thread u = .asleep chan lock pc → waits chan pc s.mem →
      waits chan pc s'.mem ∨ ∃ at' next, s'.thread t = .run at' ∧ P.instr t at' = .wakeup chan next) :
    P.Attended waits s' := by
  intro v chan lock pc asleep
  rcases step.asleep_cases asleep with old | ⟨rfl, at', running, here⟩
  · rcases before v chan lock pc old with waiting | ⟨u, at', next, running, here⟩
    · rcases changes v chan lock pc old waiting with still | ⟨at', next, running, here⟩
      · exact Or.inl still
      · exact Or.inr ⟨t, at', next, running, here⟩
    · by_cases own : u = t
      · subst own
        exact (step.woken running here asleep).elim
      · exact Or.inr ⟨u, at', next, step.other_running own running, here⟩
  · have waiting := sleeps at' chan lock pc running here
    rcases step.mem_cases with same | ⟨before', effect, next, was, exec, _⟩
    · rw [same]
      exact Or.inl waiting
    · cases running.symm.trans was
      cases here.symm.trans exec

end DeviceProgramming.Program
