import DeviceProgramming.Xv6.MutexSafety

namespace DeviceProgramming.Xv6

section
variable {Pid : Type*}

/-- The slots of the conditions that are allocated. -/
def Kernel.live (m : Kernel Pid) : Finset CondIx := Finset.univ.filter fun cond => (m.conditionTable cond).ref ≠ 0

/-- Fewer than half of the slots are live. -/
def HasRoom (m : Kernel Pid) : Prop := 2 * m.live.card < ncondMax

instance (m : Kernel Pid) : Decidable (HasRoom m) := inferInstanceAs (Decidable (_ < _))

/-- A process makes the last turn of the loop of `cond_alloc`. -/
def EndsScan (s : State Pid) (label : Pid × Call) : Prop :=
  ∃ counter, s.thread label.1 = .run (.condAllocScan counter) ∧
    ∀ within : counter < ncondMax, (s.mem.conditionTable ⟨counter, within⟩).ref = 0

theorem Kernel.mem_live {m : Kernel Pid} {cond : CondIx} : cond ∈ m.live ↔ (m.conditionTable cond).ref ≠ 0 := by
  simp [Kernel.live]

end

variable {Pid : Type*} [DecidableEq Pid]

/-- When the loop of `cond_alloc` ends with -1, all slots are live; when it ends
with a slot, it was not live and is the one that is marked. -/
def AllocatesFresh (s : State Pid) (label : Pid × Call) : Prop :=
  ∀ counter result t, s.thread label.1 = .run (.condAllocScan counter) →
    (program Pid).step s label.1 label.2 = some t → t.thread label.1 = .run (.condAllocUnlockMutex result) →
    (result = -1 → s.mem.live = Finset.univ) ∧
    (result ≠ -1 → ∃ cond : CondIx, result = (cond : ℕ) ∧ cond ∉ s.mem.live ∧ t.mem.live = insert cond s.mem.live)

/-- `cond_alloc` looks at the slots with an even index only. -/
structure EvenSlots (s : State Pid) : Prop where
  odd : ∀ cond : CondIx, cond.val % 2 = 1 → (s.mem.conditionTable cond).ref = 0
  counter : ∀ p counter, s.thread p = .run (.condAllocScan counter) → counter % 2 = 0
  passed : ∀ p counter, s.thread p = .run (.condAllocScan counter) → ∀ cond : CondIx, cond.val % 2 = 0 →
    cond.val < counter → (s.mem.conditionTable cond).ref ≠ 0

variable {s t : State Pid} {p q : Pid} {call : Call} {m m' : Kernel Pid} {pc next : Pc} {cond : CondIx}

/-- A process comes to a turn of the loop from the one before it, or takes the
lock of the mutex table. -/
theorem condAllocScan_origin {counter : ℕ} (slept : (program Pid).SleptAt s) (step : (program Pid).Step p call s t)
    (at' : t.thread q = .run (.condAllocScan counter)) :
    (q ≠ p ∧ s.thread q = .run (.condAllocScan counter)) ∨ q = p ∧ t.mem = s.mem ∧
      (counter = 0 ∨ ∃ slot : CondIx, counter = slot + 1 + 1 ∧ s.thread p = .run (.condAllocScan slot) ∧
        (s.mem.conditionTable slot).ref ≠ 0) := by
  rcases arrival slept step at' with
    same | ⟨rfl, ⟨_, before, chan, lock, here⟩ | ⟨kept, before, was, target⟩ |
      ⟨before, after, next, was, kept, point, effect⟩⟩
  · exact Or.inl same
  · cases before <;> cases here
  · refine Or.inr ⟨rfl, kept, ?_⟩
    cases before
    case condAllocLockMutex =>
      cases target
      exact Or.inl rfl
    case condLockUnlock cond caller => cases caller <;> cases target
    case condUnlockUnlock cond caller => cases caller <;> cases target
    all_goals cases target
  · cases effect with
    | enter => cases call <;> cases point
    | condAllocSkip slot taken =>
      cases point
      exact Or.inr ⟨rfl, kept, Or.inr ⟨slot, rfl, was, taken⟩⟩
    | _ => cases point

/-- A slot stays live unless its condition is destroyed. -/
theorem Effect.ref_kept (effect : Effect p call m pc m' next) (kept : pc ≠ .condDestroyStore cond)
    (live : (m.conditionTable cond).ref ≠ 0) : (m'.conditionTable cond).ref ≠ 0 := by
  rcases effect.ref_cases cond with same | here | free
  · rw [same]
    exact live
  · exact absurd here kept
  · exact absurd free live

/-- A slot that the loop does not look at stays free. -/
theorem Effect.ref_free (effect : Effect p call m pc m' next) (skipped : pc ≠ .condAllocScan cond)
    (free : (m.conditionTable cond).ref = 0) : (m'.conditionTable cond).ref = 0 := by
  cases effect with
  | condAllocTake slot =>
    have differs : cond ≠ slot := by
      rintro rfl
      exact skipped rfl
    simp [Kernel.setMutex, Kernel.setCondition, differs, free]
  | @condSetStore slot val =>
    by_cases here : cond = slot
    · subst here
      simpa [Kernel.setCondition] using free
    · simpa [Kernel.setCondition, here] using free
  | @condDestroyStore slot =>
    by_cases here : cond = slot
    · subst here
      simp [Kernel.setCondition]
    · simpa [Kernel.setCondition, here] using free
  | _ => exact free

namespace EvenSlots

theorem step (even : EvenSlots s) (owned : s.Owned fun _ => held) (slept : (program Pid).SleptAt s)
    (step : (program Pid).Step p call s t) : EvenSlots t where
  odd cond isOdd := by
    rcases effect_of_step step with same | ⟨before, after, next, was, same, effect⟩
    · rw [same]
      exact even.odd cond isOdd
    · rw [same]
      refine effect.ref_free ?_ (even.odd cond isOdd)
      rintro rfl
      have isEven := even.counter p cond.val was
      omega
  counter q counter at' := by
    rcases condAllocScan_origin slept step at' with ⟨_, old⟩ | ⟨_, _, rfl | ⟨slot, rfl, was, _⟩⟩
    · exact even.counter q counter old
    · rfl
    · have isEven := even.counter p slot.val was
      omega
  passed q counter at' cond isEven below := by
    rcases condAllocScan_origin slept step at' with ⟨other, old⟩ | ⟨rfl, kept, rfl | ⟨slot, rfl, was, taken⟩⟩
    · have live := even.passed q counter old cond isEven below
      rcases effect_of_step step with same | ⟨before, after, next, was, same, effect⟩
      · rw [same]
        exact live
      · rw [same]
        refine effect.ref_kept ?_ live
        rintro rfl
        exact other (owned.unique_run old was (l := .conditionTable) (by simp [held]) (by simp [held]))
    · exact absurd below (Nat.not_lt_zero _)
    · rw [kept]
      have slotEven := even.counter q slot.val was
      rcases Nat.lt_or_ge cond.val slot.val with earlier | here
      · exact even.passed q slot.val was cond isEven earlier
      · have same : cond = slot := Fin.ext (by omega)
        rw [same]
        exact taken

theorem of_reach (reach : ((program Pid).system (· = boot Pid)).Reach s) : EvenSlots s := by
  have quiet (s : State Pid) (begun : s = boot Pid) : Quiet s := begun ▸ quiet_boot Pid
  refine reach.invariant ?_ ?_
  · rintro s rfl
    refine ⟨fun _ _ => rfl, fun p counter at' => ?_, fun p counter at' => ?_⟩ <;> cases at'
  · intro s t label earlier even _ moved
    exact even.step (owned_of_quiet quiet earlier) (sleptAt_of_quiet quiet earlier) (Program.step_of_next moved).2

end EvenSlots

/-- The indices that `cond_alloc` looks at. -/
def evenSlots : Finset CondIx := Finset.univ.filter fun cond => cond.val % 2 = 0

theorem card_evenSlots : evenSlots.card = 10 := by decide

namespace EvenSlots

omit [DecidableEq Pid] in
theorem live_subset (even : EvenSlots s) : s.mem.live ⊆ evenSlots := by
  intro cond live
  rw [evenSlots, Finset.mem_filter]
  refine ⟨Finset.mem_univ _, ?_⟩
  by_contra isOdd
  exact Kernel.mem_live.mp live (even.odd cond (by omega))

omit [DecidableEq Pid] in
theorem hasRoom_of_free (even : EvenSlots s) {slot : CondIx} (isEven : slot.val % 2 = 0)
    (free : (s.mem.conditionTable slot).ref = 0) : HasRoom s.mem := by
  have inside : s.mem.live ⊆ evenSlots.erase slot := by
    intro cond live
    refine Finset.mem_erase.mpr ⟨?_, even.live_subset live⟩
    rintro rfl
    exact Kernel.mem_live.mp live free
  have slotEven : slot ∈ evenSlots := Finset.mem_filter.mpr ⟨Finset.mem_univ _, isEven⟩
  have bound := Finset.card_le_card inside
  rw [Finset.card_erase_of_mem slotEven, card_evenSlots] at bound
  change 2 * s.mem.live.card < 20
  omega

omit [DecidableEq Pid] in
theorem not_hasRoom (even : EvenSlots s) {counter : ℕ} (at' : s.thread p = .run (.condAllocScan counter))
    (whole : ncondMax ≤ counter) : ¬ HasRoom s.mem := by
  have all : evenSlots ⊆ s.mem.live := by
    intro cond isEven
    rw [evenSlots, Finset.mem_filter] at isEven
    exact Kernel.mem_live.mpr (even.passed p counter at' cond isEven.2 (by omega))
  have bound := Finset.card_le_card all
  rw [card_evenSlots] at bound
  change ¬ 2 * s.mem.live.card < 20
  omega

end EvenSlots

omit [DecidableEq Pid] in
theorem live_take (slot : CondIx) (mutex : Mutex) :
    ((m.setCondition slot { m.conditionTable slot with ref := 1 }).setMutex slot mutex).live = insert slot m.live := by
  ext cond
  rw [Finset.mem_insert, Kernel.mem_live, Kernel.mem_live]
  by_cases here : cond = slot
  · subst here
    simp [Kernel.setMutex, Kernel.setCondition]
  · simp [Kernel.setMutex, Kernel.setCondition, here]

theorem step_condAllocScan {counter : ℕ} (at' : s.thread p = .run (.condAllocScan counter)) :
    (program Pid).step s p call = some ⟨(s.mem.condAllocScan counter).1, s.owner,
      Function.update s.thread p (.run (s.mem.condAllocScan counter).2)⟩ := by
  simp [Program.step, program, at', instr]

/-- How the loop of `cond_alloc` ends. -/
theorem condAllocScan_ends {counter : ℕ} {result : ℤ} (at' : s.thread p = .run (.condAllocScan counter))
    (moved : (program Pid).step s p call = some t) (ends : t.thread p = .run (.condAllocUnlockMutex result)) :
    (ncondMax ≤ counter ∧ result = -1) ∨ ∃ slot : CondIx, counter = slot.val ∧
      (s.mem.conditionTable slot).ref = 0 ∧ result = (slot : ℕ) ∧ t.mem.live = insert slot s.mem.live := by
  rw [step_condAllocScan at'] at moved
  cases Option.some.inj moved
  dsimp only at ends ⊢
  rw [Function.update_self] at ends
  unfold Kernel.condAllocScan at ends ⊢
  split at ends
  · rename_i within
    split at ends
    · rename_i free
      cases ends
      rw [dif_pos within, if_pos free]
      exact Or.inr ⟨⟨counter, within⟩, rfl, free, rfl, live_take ..⟩
    · cases ends
  · rename_i whole
    cases ends
    exact Or.inl ⟨Nat.le_of_not_lt whole, rfl⟩

/-- A last turn leads to the release of the mutex table. -/
theorem EndsScan.result (ends : EndsScan s (p, call)) : ∃ counter t result,
    s.thread p = .run (.condAllocScan counter) ∧ (program Pid).step s p call = some t ∧
      t.thread p = .run (.condAllocUnlockMutex result) := by
  obtain ⟨counter, at', free⟩ := ends
  by_cases within : counter < ncondMax
  · exact ⟨counter, _, counter, at', step_condAllocScan at', by simp [Kernel.condAllocScan, within, free within]⟩
  · exact ⟨counter, _, -1, at', step_condAllocScan at', by simp [Kernel.condAllocScan, within]⟩

/-- A scan that ends allocates a free slot, or fails with all slots live, if
and only if fewer than half of them are live. -/
theorem allocatesFresh_iff (even : EvenSlots s) :
    AllocatesFresh s (p, call) ↔ (EndsScan s (p, call) → HasRoom s.mem) := by
  constructor
  · intro fresh ends
    obtain ⟨counter, t, result, at', moved, there⟩ := ends.result
    rcases condAllocScan_ends at' moved there with ⟨_, failed⟩ | ⟨slot, rfl, free, _⟩
    · have all := (fresh counter result t at' moved there).1 failed
      have odd : (1 : CondIx) ∈ s.mem.live := by
        rw [all]
        exact Finset.mem_univ _
      exact absurd (even.odd 1 rfl) (Kernel.mem_live.mp odd)
    · exact even.hasRoom_of_free (even.counter p slot at') free
  · intro room counter result t at' moved there
    rcases condAllocScan_ends at' moved there with ⟨whole, _⟩ | ⟨slot, rfl, free, rfl, marked⟩
    · refine absurd (room ⟨counter, at', fun within => ?_⟩) (even.not_hasRoom at' whole)
      exact absurd within (Nat.not_lt.mpr whole)
    · refine ⟨fun failed => ?_, fun _ => ⟨slot, rfl, fun live => Kernel.mem_live.mp live free, marked⟩⟩
      omega

end DeviceProgramming.Xv6
