import DeviceProgramming.Xv6.Allocation

namespace DeviceProgramming.Xv6

section
variable {Pid : Type*}

/-- What a process finds in a slot: the value that `cond_get` reads, and the mutex. -/
def Kernel.slot (m : Kernel Pid) (cond : CondIx) : ℤ × Mutex := ((m.conditionTable cond).value, m.mutexTable cond)

/-- The value that the last `cond_set` of a history has stored in a slot; it is
zero when there was none. -/
def lastSet (cond : CondIx) : List (State Pid × Pid × Call) → ℤ
  | [] => 0
  | (s, p, _) :: earlier => match s.thread p with
    | .run (.condSetStore c val) => if c = cond then val else lastSet cond earlier
    | _ => lastSet cond earlier

end

variable {Pid : Type*} [DecidableEq Pid]

/-- `cond_alloc` marks a slot and returns its index. -/
structure Allocates (cond : CondIx) (p : Pid) (s t : State Pid) : Prop where
  scan : s.thread p = .run (.condAllocScan cond)
  free : (s.mem.conditionTable cond).ref = 0
  returns : ((program Pid).system (· = boot Pid)).run (List.replicate 4 (p, .condAlloc)) s = some t

variable {s s' t t' : State Pid} {p p' : Pid} {call : Call} {m m' : Kernel Pid} {pc next : Pc} {cond : CondIx}
  {path path' : List (State Pid × Pid × Call)}

/-- Only `cond_set` changes the value of a slot. -/
theorem Effect.value_kept (effect : Effect p call m pc m' next) (elsewhere : ∀ val, pc ≠ .condSetStore cond val) :
    (m'.conditionTable cond).value = (m.conditionTable cond).value := by
  cases effect with
  | condAllocTake slot =>
    by_cases here : cond = slot
    · subst here
      simp [Kernel.setMutex, Kernel.setCondition]
    · simp [Kernel.setMutex, Kernel.setCondition, here]
  | @condSetStore slot val =>
    have here : cond ≠ slot := by
      rintro rfl
      exact elsewhere val rfl
    simp [Kernel.setCondition, here]
  | @condDestroyStore slot =>
    by_cases here : cond = slot
    · subst here
      simp [Kernel.setCondition]
    · simp [Kernel.setCondition, here]
  | _ => rfl

theorem value_step (step : (program Pid).step s p call = some t)
    (kept : (s.mem.conditionTable cond).value = lastSet cond path) :
    (t.mem.conditionTable cond).value = lastSet cond ((s, p, call) :: path) := by
  by_cases stores : ∃ val, s.thread p = .run (.condSetStore cond val)
  · obtain ⟨val, at'⟩ := stores
    have moved := step
    simp only [Program.step, program, at', instr] at moved
    cases moved
    simp [lastSet, at', Kernel.setCondition]
  · have still : lastSet cond ((s, p, call) :: path) = lastSet cond path := by
      rw [lastSet]
      split
      · rename_i c val at'
        rw [if_neg]
        rintro rfl
        exact stores ⟨val, at'⟩
      · rfl
    rw [still, ← kept]
    rcases effect_of_step (Program.step_iff.mp step).2 with same | ⟨before, after, next, was, same, effect⟩
    · rw [same]
    · rw [same]
      refine effect.value_kept fun val here => stores ⟨val, ?_⟩
      rw [was, here]

/-- A slot keeps the value that was last stored in it, whoever owned it. -/
theorem value_of_run (run : ((program Pid).system (· = boot Pid)).Run path s) :
    (s.mem.conditionTable cond).value = lastSet cond path := by
  induction run with
  | start begun =>
    rw [begun]
    rfl
  | next earlier moved ih => exact value_step moved ih

/-- `cond_alloc` frees the mutex and leaves the value. -/
theorem Allocates.slot (alloc : Allocates cond p s t) :
    t.thread p = .run .user ∧ t.mem.ret p = (cond : ℕ) ∧ t.mem.slot cond = ((s.mem.conditionTable cond).value, ⟨1⟩) := by
  have scanned : (s.mem.condAllocScan cond).2 = .condAllocUnlockMutex (cond : ℕ) := by
    simp [Kernel.condAllocScan, alloc.free]
  have marked : (s.mem.condAllocScan cond).1.slot cond = ((s.mem.conditionTable cond).value, ⟨1⟩) := by
    simp [Kernel.condAllocScan, alloc.free, Kernel.slot, Kernel.setMutex, Kernel.setCondition]
  obtain ⟨_, one, first, returns⟩ := System.runUnder_cons alloc.returns
  obtain ⟨_, two, second, returns⟩ := System.runUnder_cons returns
  obtain ⟨_, three, third, returns⟩ := System.runUnder_cons returns
  obtain ⟨_, four, fourth, returns⟩ := System.runUnder_cons returns
  cases Option.some.inj returns
  cases Option.some.inj ((step_condAllocScan alloc.scan).symm.trans first)
  simp only [Program.system, Program.step, program, Function.update_self, scanned, instr] at second
  cases Option.some.inj second
  simp only [Program.system, Program.step, program, Function.update_self, instr] at third
  cases Option.some.inj third
  simp only [Program.system, Program.step, program, Function.update_self, instr] at fourth
  cases Option.some.inj fourth
  exact ⟨Function.update_self .., Function.update_self .., marked⟩

/-- Two histories that end with the allocation of one slot leave the same in it,
a zero and a free mutex as in a slot that was never used, if and only if the
last value stored in it was zero in both. -/
theorem nothing_carried_over_iff (run : ((program Pid).system (· = boot Pid)).Run path s)
    (run' : ((program Pid).system (· = boot Pid)).Run path' s') (alloc : Allocates cond p s t)
    (alloc' : Allocates cond p' s' t') :
    (t.mem.slot cond = t'.mem.slot cond ∧ t.mem.slot cond = (0, ⟨1⟩)) ↔
      lastSet cond path = 0 ∧ lastSet cond path' = 0 := by
  obtain ⟨_, _, slot⟩ := alloc.slot
  obtain ⟨_, _, slot'⟩ := alloc'.slot
  rw [slot, slot', value_of_run run, value_of_run run']
  simp only [Prod.mk.injEq, and_true]
  constructor
  · rintro ⟨same, zero⟩
    exact ⟨zero, same ▸ zero⟩
  · rintro ⟨zero, zero'⟩
    exact ⟨zero.trans zero'.symm, zero⟩

/-- A process allocates the first slot, stores a value in it and destroys it, and
starts to allocate it again. -/
def reuse (val : ℤ) : List (Fin 2 × Call) := schedule
  [(0, .condAlloc, 7), (0, .condSet 0 val, 5), (0, .condDestroy 0, 5), (0, .condAlloc, 3)]

/-- A process allocates the first slot for the first time. -/
def firstUse : List (Fin 2 × Call) := schedule [(0, .condAlloc, 3)]

/-- A computed run up to the scan of `cond_alloc`, and the allocation after it. -/
theorem exists_allocates (labels : List (Fin 2 × Call)) (val : ℤ)
    (computed : (((program (Fin 2)).system (· = boot (Fin 2))).run labels (boot (Fin 2))).map (fun s =>
      decide (s.thread 0 = .run (.condAllocScan 0) ∧ (s.mem.conditionTable 0).ref = 0 ∧
        (s.mem.conditionTable 0).value = val ∧
        (((program (Fin 2)).system (· = boot (Fin 2))).run (List.replicate 4 (0, .condAlloc)) s).isSome)) =
      some true) :
    ∃ path s t, ((program (Fin 2)).system (· = boot (Fin 2))).Run path s ∧ Allocates 0 0 s t ∧ lastSet 0 path = val := by
  obtain ⟨s, reached, state⟩ := Option.map_eq_some_iff.mp computed
  obtain ⟨scan, free, value, returns⟩ := of_decide_eq_true state
  obtain ⟨t, returns⟩ := Option.isSome_iff_exists.mp returns
  obtain ⟨path, run, _⟩ := System.Run.of_run (.start rfl) (by simp) reached
  exact ⟨path, s, t, run, ⟨scan, free, returns⟩, (value_of_run run).symm.trans value⟩

set_option maxRecDepth 10000 in
/-- The value of the previous owner is zero. -/
theorem nothing_carried_over_iff_zero : ∃ path path' s s' t t', lastSet 0 path = 0 ∧ lastSet 0 path' = 0 ∧
    ((program (Fin 2)).system (· = boot (Fin 2))).Run path s ∧ Allocates 0 0 s t ∧
    ((program (Fin 2)).system (· = boot (Fin 2))).Run path' s' ∧ Allocates 0 0 s' t' ∧
    t.mem.slot 0 = t'.mem.slot 0 ∧ t.mem.slot 0 = (0, ⟨1⟩) := by
  obtain ⟨path, s, t, run, alloc, last⟩ := exists_allocates (reuse 0) 0 (by decide)
  obtain ⟨path', s', t', run', alloc', last'⟩ := exists_allocates firstUse 0 (by decide)
  exact ⟨path, path', s, s', t, t', last, last', run, alloc, run', alloc',
    (nothing_carried_over_iff run run' alloc alloc').mpr ⟨last, last'⟩⟩

set_option maxRecDepth 10000 in
/-- The new owner reads the value that the previous one has stored. -/
theorem value_carried_over : ∃ path path' s s' t t',
    ((program (Fin 2)).system (· = boot (Fin 2))).Run path s ∧ Allocates 0 0 s t ∧
    ((program (Fin 2)).system (· = boot (Fin 2))).Run path' s' ∧ Allocates 0 0 s' t' ∧
    t.mem.slot 0 = (5, ⟨1⟩) ∧ t'.mem.slot 0 = (0, ⟨1⟩) := by
  obtain ⟨path, s, t, run, alloc, last⟩ := exists_allocates (reuse 5) 5 (by decide)
  obtain ⟨path', s', t', run', alloc', last'⟩ := exists_allocates firstUse 0 (by decide)
  refine ⟨path, path', s, s', t, t', run, alloc, run', alloc', ?_, ?_⟩
  · rw [alloc.slot.2.2, value_of_run run, last]
  · rw [alloc'.slot.2.2, value_of_run run', last']

end DeviceProgramming.Xv6
